import Fluxion.Proofs.Arena.Edits
import Fluxion.Proofs.Arena.Forest
/- Changes of a forest. An operation that takes no slot turns some layouts of a forest into others
   and leaves the rest alone (`Rearranges`): it releases one, changes a node somewhere in one,
   breaks one up or joins several. Whatever it does, the arena is a forest afterwards
   (`IsForest.rearrange`), and so each operation needs only to be described where it works.

   A node is changed in the midst of its layout by changing the layout below it: where one layout
   within another is replaced by one with the same topmost slot, the rest of the outer one stays
   around it (`Stores.graft`). With this, any reduction is a rearrangement
   (`Rearranges.of_reduces`).

   Operations that do take slots add a layout of their own beside the others (`IsForest.takes`). The
   commands on an arena are put together from these pieces in `Fluxion.Proofs.Arena.Runs`. -/
namespace Fluxion
namespace Arena

variable {a b : Arena} {rooted : Bool} {trees old new rest : List Layout} {L M N l r : Layout}
  {parent : Option Handle} {h x : Handle} {kind : Kind} {span : Span}

/-- `b` is `a` with some layouts turned into others, and what they no longer need released. -/
structure Rearranges (a b : Arena) (old new : List Layout) : Prop where
  stores : ∀ L ∈ new, b.Stores none L
  size : b.nodes.size = a.nodes.size
  root : b.root = a.root
  frame : ∀ x, x ∉ old.flatMap Layout.slots → b.node? x = a.node? x
  free : ∃ released, b.free = released ++ a.free ∧
    (released ++ new.flatMap Layout.slots).Perm (old.flatMap Layout.slots) ∧
    ∀ x ∈ released, b.node? x = (b.node? x).map Node.cleared

/-! ## Forests -/

namespace IsForest

theorem rearrange (old : List Layout) (forest : a.IsForest rooted (old ++ rest))
    (changes : Rearranges a b old new)
    (root : rooted = true → ∀ L ∈ old, L.root? = some a.root → ∃ M ∈ new, M.root? = some a.root) :
    b.IsForest rooted (new ++ rest) := by
  obtain ⟨released, free, perm, cleared⟩ := changes.free
  have nodup := forest.nodup
  rw [List.flatMap_append, List.append_assoc] at nodup
  obtain ⟨-, -, apart⟩ := List.nodup_append.mp nodup
  refine ⟨fun L mem => ?_, ?_, fun h mem => ?_, fun isRooted => ?_⟩
  · obtain inNew | inRest := List.mem_append.mp mem
    · exact changes.stores L inNew
    · refine (forest.stores L (List.mem_append_right _ inRest)).frame fun x inside => ?_
      refine changes.frame x fun inOld => apart x inOld x ?_ rfl
      exact List.mem_append_left _ (List.mem_flatMap.mpr ⟨L, inRest, inside⟩)
  · have before := forest.perm
    rw [List.flatMap_append] at before
    rw [List.flatMap_append, changes.size]
    refine List.Perm.trans ?_ before
    rw [List.perm_iff_count] at perm ⊢
    intro x
    have same := perm x
    simp only [List.count_append, free] at same ⊢
    omega
  · rw [free] at mem
    obtain isNew | isOld := List.mem_append.mp mem
    · exact cleared h isNew
    · rw [changes.frame h fun inOld => apart h inOld h (List.mem_append_right _ isOld) rfl]
      exact forest.cleared h isOld
  · rw [changes.root]
    obtain ⟨L, mem, top⟩ := forest.root isRooted
    obtain inOld | inRest := List.mem_append.mp mem
    · obtain ⟨M, inNew, top⟩ := root isRooted L inOld top
      exact ⟨M, List.mem_append_left _ inNew, top⟩
    · exact ⟨L, List.mem_append_right _ inRest, top⟩

/-- A missing layout is none. -/
theorem cons_absent (forest : a.IsForest rooted trees) : a.IsForest rooted (.absent :: trees) where
  stores L mem := by
    obtain rfl | mem := List.mem_cons.mp mem
    · trivial
    · exact forest.stores L mem
  perm := forest.perm
  cleared := forest.cleared
  root isRooted := by
    obtain ⟨L, mem, top⟩ := forest.root isRooted
    exact ⟨L, List.mem_cons_of_mem _ mem, top⟩

/-- Any layout may come first. -/
theorem exists_cons (forest : a.IsForest rooted trees) (mem : L ∈ trees) :
    ∃ rest, trees.Perm (L :: rest) ∧ a.IsForest rooted (L :: rest) := by
  obtain ⟨before, behind, rfl⟩ := List.append_of_mem mem
  exact ⟨before ++ behind, List.perm_middle, forest.of_perm List.perm_middle⟩

/-- A slot in use without a parent is the topmost one of a layout. -/
theorem exists_root (forest : a.IsForest rooted trees) (live : a.Live h) (top : a.parent? h = none) :
    ∃ L ∈ trees, L.root? = some h := by
  obtain ⟨L, mem, inside⟩ := forest.live_iff.mp live
  obtain root | ⟨p, -, -, link⟩ := (forest.stores L mem).root?_or_operand inside
  · exact ⟨L, mem, root⟩
  · rw [top] at link
    cases link

/-- The layout of an operand without a parent, which may be missing, stands apart from those
    with other topmost slots. -/
theorem take_operand (front : List Layout) (operand : Option Handle)
    (forest : a.IsForest rooted (front ++ rest))
    (loose : ∀ x, operand = some x → a.Live x ∧ a.parent? x = none ∧ ∀ L ∈ front, L.root? ≠ some x) :
    ∃ L rest', L.root? = operand ∧ a.IsForest rooted (L :: front ++ rest') := by
  cases operand with
  | none => exact ⟨.absent, rest, rfl, forest.cons_absent⟩
  | some x =>
    obtain ⟨live, top, other⟩ := loose x rfl
    obtain ⟨L, mem, root⟩ := forest.exists_root live top
    have inRest : L ∈ rest := (List.mem_append.mp mem).resolve_left fun inFront =>
      other L inFront root
    obtain ⟨before, behind, rfl⟩ := List.append_of_mem inRest
    have perm : (before ++ L :: behind).Perm (L :: (before ++ behind)) := List.perm_middle
    exact ⟨L, before ++ behind, root, forest.of_perm ((perm.append_left front).trans List.perm_middle)⟩

end IsForest

/-! ## In the midst of a layout -/

/-- Where a layout within another is replaced by one with the same topmost slot, the rest of
    the outer one stays around it. -/
theorem Stores.graft (within : M.Within L) (stores : a.Stores parent L) (nodup : L.slots.Nodup)
    (top : N.root? = M.root?) (grafted : ∀ q, a.Stores q M → b.Stores q N)
    (frame : ∀ x ∈ L.slots, x ∉ M.slots → b.node? x = a.node? x) :
    ∃ L' outer, b.Stores parent L' ∧ L'.root? = L.root? ∧ L.slots.Perm (outer ++ M.slots) ∧
      L'.slots.Perm (outer ++ N.slots) := by
  induction within generalizing parent with
  | here => exact ⟨N, [], grafted parent stores, top, .refl _, .refl _⟩
  | @left slot kind span left right within ih =>
    obtain ⟨nodupLeft, -, apart, notLeft, -⟩ := Layout.apart_of_nodup nodup
    have inside := within.slots_sublist.subset
    obtain ⟨left', outer, storesLeft, root, perm, perm'⟩ := ih stores.2.1 nodupLeft
      fun x mem => frame x (by simp [mem])
    refine ⟨.node slot kind span left' right, outer ++ right.slots ++ [slot], ⟨?_, storesLeft, ?_⟩,
      rfl, ?_, ?_⟩
    · rw [frame slot (by simp) fun mem => notLeft (inside mem), stores.1, root]
    · exact stores.2.2.frame fun x mem => frame x (by simp [mem]) fun inM => apart x (inside inM) mem
    all_goals
      rw [List.perm_iff_count] at *
      intro x
      have := perm x
      have := perm' x
      simp only [Layout.slots_node, List.count_append] at *
      omega
  | @right slot kind span left right within ih =>
    obtain ⟨-, nodupRight, apart, -, notRight⟩ := Layout.apart_of_nodup nodup
    have inside := within.slots_sublist.subset
    obtain ⟨right', outer, storesRight, root, perm, perm'⟩ := ih stores.2.2 nodupRight
      fun x mem => frame x (by simp [mem])
    refine ⟨.node slot kind span left right', outer ++ left.slots ++ [slot], ⟨?_, ?_, storesRight⟩,
      rfl, ?_, ?_⟩
    · rw [frame slot (by simp) fun mem => notRight (inside mem), stores.1, root]
    · exact stores.2.1.frame fun x mem => frame x (by simp [mem]) fun inM => apart x mem (inside inM)
    all_goals
      rw [List.perm_iff_count] at *
      intro x
      have := perm x
      have := perm' x
      simp only [Layout.slots_node, List.count_append] at *
      omega

/-- A reduction in the midst of a layout. -/
theorem Rearranges.of_reduces (stores : a.Stores none L) (nodup : L.slots.Nodup)
    (within : M.Within L) (reduces : ∀ q, a.Stores q M → Reduces a b q M N) :
    ∃ L', Rearranges a b [L] [L'] ∧ L'.root? = L.root? ∧
      L'.slots.length + M.slots.length = L.slots.length + N.slots.length := by
  obtain ⟨q, stored⟩ := stores.within within
  have reduction := reduces q stored
  obtain ⟨released, free, gone, cleared⟩ := reduction.free
  obtain ⟨L', outer, storesNew, root, perm, perm'⟩ := stores.graft within nodup reduction.top
    (fun q stored => (reduces q stored).stores) fun x _ outside => reduction.frame x outside
  refine ⟨L', ⟨?_, reduction.size, reduction.root, fun x outside => ?_, released, free, ?_,
    cleared⟩, root, ?_⟩
  · simpa using storesNew
  · refine reduction.frame x fun inside => outside ?_
    simpa using within.slots_sublist.subset inside
  · simp only [List.flatMap_cons, List.flatMap_nil, List.append_nil]
    rw [List.perm_iff_count] at *
    intro x
    have := gone x
    have := perm x
    have := perm' x
    simp only [List.count_append] at *
    omega
  · have lengths := perm.length_eq
    have lengths' := perm'.length_eq
    simp only [List.length_append] at lengths lengths'
    omega

/-! ## Releasing, breaking up and joining layouts -/

theorem Stores.rearranges_release (stores : a.Stores none L) (nodup : L.slots.Nodup) :
    Rearranges a (a.release L.root?) [L] [] := by
  have released := stores.released nodup
  refine ⟨by simp, released.size, released.root, fun x outside => ?_, L.slots, released.free, by simp,
    fun x mem => ?_⟩
  · rw [released.node?, if_neg (by simpa using outside)]
  · rw [released.node?, if_pos mem, Option.map_map]
    rfl

/-- A node that gives up its operands stays in its layout as a leaf. -/
theorem Stores.rearranges_takeOperands (stores : a.Stores none L) (nodup : L.slots.Nodup)
    (within : (Layout.node h kind span l r).Within L) :
    ∃ L', Rearranges a (a.takeOperands h).2 [L] [L', l, r] ∧ L'.root? = L.root? := by
  obtain ⟨q, stored⟩ := stores.within within
  have nodupNode := nodup.sublist within.slots_sublist
  obtain ⟨-, -, storesLeft, storesRight, frame⟩ := stored.takeOperands nodupNode
  obtain ⟨L', outer, storesNew, root, perm, perm'⟩ := stores.graft
    (N := .node h kind span .absent .absent) within nodup rfl
    (fun q stored => (stored.takeOperands nodupNode).2.1) fun x _ => frame x
  refine ⟨L', ⟨?_, by simp, by simp, fun x outside => ?_, [], by simp, ?_, by simp⟩, root⟩
  · simp [storesNew, storesLeft, storesRight]
  · refine frame x fun inside => outside ?_
    simpa using within.slots_sublist.subset inside
  · simp only [List.flatMap_cons, List.flatMap_nil, List.append_nil, List.nil_append]
    rw [List.perm_iff_count] at *
    intro x
    have := perm x
    have := perm' x
    simp only [Layout.slots_node, List.count_append] at *
    simp only [Layout.slots_absent, List.count_nil] at *
    omega

/-- A leaf becomes an operator over layouts of their own. -/
theorem Stores.rearranges_rewrite (stores : a.Stores none L) (storesLeft : a.Stores none l)
    (storesRight : a.Stores none r) (nodup : ([L, l, r].flatMap Layout.slots).Nodup)
    (within : (Layout.node h kind span .absent .absent).Within L) (op : Operator) :
    ∃ L', Rearranges a (a.rewrite h op l.root? r.root?) [L, l, r] [L'] ∧ L'.root? = L.root? := by
  simp only [List.flatMap_cons, List.flatMap_nil, List.append_nil] at nodup
  obtain ⟨nodupL, nodupOperands, apart⟩ := List.nodup_append.mp nodup
  have here : h ∈ L.slots := within.slots_sublist.subset (by simp)
  have nodupNode : (Layout.node h (.operator op) span l r).slots.Nodup := by
    rw [Layout.slots_node]
    refine List.nodup_append.mpr ⟨nodupOperands, List.nodup_singleton h, ?_⟩
    rintro x inOperands y top rfl
    cases List.mem_singleton.mp top
    exact apart _ here _ inOperands rfl
  have frame : ∀ x, x ∉ (Layout.node h (.operator op) span l r).slots →
      (a.rewrite h op l.root? r.root?).node? x = a.node? x :=
    fun x outside => node?_relink_of_notMem a _ outside
  obtain ⟨L', outer, storesNew, root, perm, perm'⟩ := stores.graft
    (N := .node h (.operator op) span l r) (b := a.rewrite h op l.root? r.root?) within nodupL rfl
    (fun q stored => Stores.relink storesLeft storesRight stored.1
      ({ · with kind := .operator op }) nodupNode)
    (fun x inside outside => frame x (by
      have notOperand : x ∉ l.slots ++ r.slots := fun mem => apart x inside x mem rfl
      simp only [Layout.slots_node, List.mem_append] at outside notOperand ⊢
      tauto))
  refine ⟨L', ⟨by simpa using storesNew, by simp [rewrite], by simp [rewrite], fun x outside => ?_, [],
    by simp [rewrite], ?_, by simp⟩, root⟩
  · refine frame x fun inside => outside ?_
    simp only [Layout.slots_node, List.mem_append, List.mem_singleton] at inside
    simp only [List.flatMap_cons, List.flatMap_nil, List.append_nil, List.mem_append]
    obtain (inLeft | inRight) | rfl := inside
    · exact .inr (.inl inLeft)
    · exact .inr (.inr inRight)
    · exact .inl here
  · simp only [List.flatMap_cons, List.flatMap_nil, List.append_nil, List.nil_append]
    rw [List.perm_iff_count] at *
    intro x
    have := perm x
    have := perm' x
    simp only [Layout.slots_node, List.count_append] at *
    simp only [Layout.slots_absent, List.count_nil] at *
    omega

/-! ## Taking slots -/

/-- What is stored in slots taken for it stands by itself. -/
theorem IsForest.takes {taken : List Handle} (forest : a.IsForest rooted trees)
    (takes : Takes a b taken) (stores : b.Stores none L) (slots : L.slots = taken) :
    b.IsForest rooted (L :: trees) := by
  subst slots
  have nodup := takes.nodup forest.tidy
  obtain ⟨reused, free, perm⟩ := takes.free
  have size := takes.size
  have allocated : ∀ x ∈ L.slots, x ∈ a.free ∨ a.nodes.size ≤ x := by
    intro x mem
    obtain isReused | isNew := List.mem_append.mp (perm.mem_iff.mp mem)
    · exact .inl (free ▸ List.mem_append_left _ isReused)
    · exact .inr (List.mem_range'_1.mp isNew).1
  refine ⟨fun M mem => ?_, ?_, fun h mem => ?_, fun isRooted => ?_⟩
  · obtain rfl | mem := List.mem_cons.mp mem
    · exact stores
    · refine takes.framed (forest.stores M mem) fun x inside inTaken => ?_
      obtain ⟨bound, notFree⟩ := forest.live_iff.mpr ⟨M, mem, inside⟩
      obtain isFree | isNew := allocated x inTaken
      · exact notFree isFree
      · exact absurd bound (Nat.not_lt.mpr isNew)
  · have before := forest.perm
    have joined : List.range b.nodes.size = List.range a.nodes.size ++
        List.range' a.nodes.size (b.nodes.size - a.nodes.size) := by
      rw [List.range_eq_range', List.range_eq_range']
      have appended := List.range'_append_1 (s := 0) (m := a.nodes.size)
        (n := b.nodes.size - a.nodes.size)
      rw [Nat.zero_add] at appended
      rw [appended, show a.nodes.size + (b.nodes.size - a.nodes.size) = b.nodes.size by omega]
    rw [joined, List.flatMap_cons]
    rw [free] at before
    rw [List.perm_iff_count] at before perm ⊢
    intro x
    have := before x
    have := perm x
    simp only [List.count_append] at *
    omega
  · have inFree : h ∈ a.free := free ▸ List.mem_append_right _ mem
    have notTaken : h ∉ L.slots := fun inTaken => (List.nodup_append.mp nodup).2.2 h inTaken h mem rfl
    rw [takes.frame h notTaken]
    exact forest.cleared h inFree
  · obtain ⟨M, mem, top⟩ := forest.root isRooted
    exact ⟨M, List.mem_cons_of_mem _ mem, by rw [top, takes.root]⟩

end Arena
end Fluxion
