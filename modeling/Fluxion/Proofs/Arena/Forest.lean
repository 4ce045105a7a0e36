import Fluxion.Proofs.Arena.Links
import Mathlib.Data.Fintype.EquivFin
import Mathlib.Logic.Relation
import Mathlib.Order.WellFounded
/- From links to layouts. No path along the links of a linked arena is endless, neither upwards nor
   downwards: slots are finitely many and links do not run in circles (`wellFounded_of_acyclic`).
   Downwards, this gives every slot in use the layout of what is below it, by induction on the links
   (`IsLinked.exists_layout`). The two operands of a node are apart there because only one slot
   without a parent is above any slot (`eq_of_siblings`, `eq_of_tops`).

   Upwards, every slot in use has a topmost one above it (`IsLinked.exists_top`). So the layouts of
   the slots without a parent hold all slots in use, each once, and the arena is a forest
   (`IsLinked.exists_isForest`). The other direction, from layouts to links, is in
   `Fluxion.Proofs.Arena.Links`; with both, whatever is proved of forests can be said of links. -/
namespace Fluxion
namespace Arena

open Relation

/-- A relation between finitely many numbers that has no circle has no endless descent. -/
theorem wellFounded_of_acyclic {r : Nat → Nat → Prop} {n : Nat} (bound : ∀ x y, r x y → x < n)
    (acyclic : ∀ x, ¬TransGen r x x) : WellFounded r := by
  have : IsTrans (Fin n) fun x y => TransGen r x y := ⟨fun _ _ _ => TransGen.trans⟩
  have : Std.Irrefl fun x y : Fin n => TransGen r x y := ⟨fun x => acyclic x⟩
  have finite : WellFounded fun x y : Fin n => TransGen r x y :=
    Finite.wellFounded_of_trans_of_irrefl _
  have below : ∀ x : Fin n, Acc r x := by
    intro x
    induction x using finite.induction with
    | _ x ih => exact ⟨_, fun y step => ih ⟨y, bound y x step⟩ (.single step)⟩
  exact ⟨fun x => ⟨x, fun y step => below ⟨y, bound y x step⟩⟩⟩

variable {a : Arena} {rooted : Bool} {h k x y p : Handle}

/-! ## Paths upwards -/

theorem rightUnique_leadsTo (a : Arena) : Relator.RightUnique a.LeadsTo :=
  fun _ _ _ first second => Option.some.inj (first.symm.trans second)

theorem eq_of_top (top : a.parent? h = none) (path : ReflTransGen a.LeadsTo h k) : h = k := by
  obtain same | ⟨w, link, -⟩ := path.cases_head
  · exact same
  · rw [LeadsTo, top] at link
    cases link

/-- Only one slot without a parent is above a slot. -/
theorem eq_of_tops (top : a.parent? h = none) (top' : a.parent? k = none)
    (path : ReflTransGen a.LeadsTo x h) (path' : ReflTransGen a.LeadsTo x k) : h = k := by
  obtain between | between := ReflTransGen.total_of_right_unique (rightUnique_leadsTo a) path path'
  · exact eq_of_top top between
  · exact (eq_of_top top' between).symm

namespace IsLinked

variable (linked : a.IsLinked rooted)
include linked

/-- Only slots in use name operands. -/
theorem live_of_isOperand (operand : a.IsOperand x h) : a.Live h := by
  obtain ⟨node, found, names⟩ : ∃ node, a.node? h = some node ∧
      (node.left = some x ∨ node.right = some x) := by
    obtain onLeft | onRight := operand
    · obtain ⟨node, found, names⟩ := Option.bind_eq_some_iff.mp onLeft
      exact ⟨node, found, .inl names⟩
    · obtain ⟨node, found, names⟩ := Option.bind_eq_some_iff.mp onRight
      exact ⟨node, found, .inr names⟩
  refine ⟨lt_size_of_node? found, fun inFree => ?_⟩
  obtain ⟨kind, span, bare⟩ := linked.released h inFree
  rw [found] at bare
  cases bare
  obtain onLeft | onRight := names
  · cases onLeft
  · cases onRight

/-- Both ends of a parent link are in use, and the upper one names the lower one. -/
theorem of_leadsTo (link : a.LeadsTo x p) : a.Live x ∧ a.Live p ∧ a.IsOperand x p := by
  have live : a.Live x := by
    rw [LeadsTo, parent?, Option.bind_eq_some_iff] at link
    obtain ⟨node, found, above⟩ := link
    refine ⟨lt_size_of_node? found, fun inFree => ?_⟩
    obtain ⟨kind, span, bare⟩ := linked.released x inFree
    rw [found] at bare
    cases bare
    cases above
  have operand := linked.parent x p live link
  exact ⟨live, linked.live_of_isOperand operand, operand⟩

theorem leadsTo_iff (live : a.Live h) : a.LeadsTo x h ↔ a.IsOperand x h :=
  ⟨fun link => (linked.of_leadsTo link).2.2, fun operand => (linked.operand h x live operand).2⟩

theorem wellFounded_leadsTo : WellFounded a.LeadsTo :=
  wellFounded_of_acyclic (fun _ _ link => (linked.of_leadsTo link).1.1) linked.acyclic

theorem wellFounded_swap_leadsTo : WellFounded (Function.swap a.LeadsTo) :=
  wellFounded_of_acyclic (fun _ _ link => (linked.of_leadsTo link).2.1.1)
    fun x circle => linked.acyclic x (transGen_swap.mp circle)

/-- Two slots that hang on the same third one are not above a common slot. -/
theorem eq_of_siblings (onLeft : a.LeadsTo y p) (onRight : a.LeadsTo k p)
    (belowLeft : ReflTransGen a.LeadsTo x y) (belowRight : ReflTransGen a.LeadsTo x k) : y = k := by
  -- The path up from the common slot meets one of the two first and has the other above it.
  have apart : ∀ {u v : Handle}, a.LeadsTo u p → a.LeadsTo v p → ReflTransGen a.LeadsTo u v → u = v := by
    intro u v fromU fromV path
    obtain same | ⟨w, first, rest⟩ := path.cases_head
    · exact same
    · cases rightUnique_leadsTo a fromU first
      exact absurd (TransGen.tail' rest fromV) (linked.acyclic p)
  obtain path | path := ReflTransGen.total_of_right_unique (rightUnique_leadsTo a) belowLeft belowRight
  · exact apart onLeft onRight path
  · exact (apart onRight onLeft path).symm

/-- What is below a slot is stored there as a layout. -/
theorem exists_layout (live : a.Live h) :
    ∃ L, a.Stores (a.parent? h) L ∧ L.root? = some h ∧ L.slots.Nodup ∧
      ∀ x, x ∈ L.slots ↔ ReflTransGen a.LeadsTo x h := by
  induction h using linked.wellFounded_leadsTo.induction with
  | _ h ih =>
    have below : ∀ operand : Option Handle, (∀ y, operand = some y → a.IsOperand y h) →
        ∃ L, a.Stores (some h) L ∧ L.root? = operand ∧ L.slots.Nodup ∧
          ∀ x, x ∈ L.slots ↔ ∃ y, operand = some y ∧ ReflTransGen a.LeadsTo x y := by
      intro operand names
      cases operand with
      | none => exact ⟨.absent, trivial, rfl, List.nodup_nil, by simp⟩
      | some y =>
        obtain ⟨liveBelow, link⟩ := linked.operand h y live (names y rfl)
        obtain ⟨L, stores, root, nodup, slots⟩ := ih y link liveBelow
        rw [link] at stores
        exact ⟨L, stores, root, nodup, fun x => by simp [slots x]⟩
    obtain ⟨l, storesLeft, rootLeft, nodupLeft, slotsLeft⟩ := below (a.left? h) fun _ => .inl
    obtain ⟨r, storesRight, rootRight, nodupRight, slotsRight⟩ := below (a.right? h) fun _ => .inr
    obtain ⟨node, found⟩ : ∃ node, a.node? h = some node := ⟨_, Array.getElem?_eq_getElem live.1⟩
    -- Nothing below an operand is the slot itself.
    have apartTop : ∀ {y}, a.IsOperand y h → ¬ReflTransGen a.LeadsTo h y := fun operand path =>
      linked.acyclic h (TransGen.tail' path ((linked.leadsTo_iff live).mpr operand))
    have slots : ∀ x, x ∈ (Layout.node h node.kind node.span l r).slots ↔
        ReflTransGen a.LeadsTo x h := by
      intro x
      simp only [Layout.slots_node, List.mem_append, List.mem_singleton, slotsLeft, slotsRight]
      constructor
      · rintro ((⟨y, onLeft, path⟩ | ⟨y, onRight, path⟩) | rfl)
        · exact path.tail ((linked.leadsTo_iff live).mpr (.inl onLeft))
        · exact path.tail ((linked.leadsTo_iff live).mpr (.inr onRight))
        · exact .refl
      · intro path
        obtain same | ⟨y, path, link⟩ := path.cases_tail
        · exact .inr same.symm
        · obtain onLeft | onRight := (linked.leadsTo_iff live).mp link
          · exact .inl (.inl ⟨y, onLeft, path⟩)
          · exact .inl (.inr ⟨y, onRight, path⟩)
    refine ⟨.node h node.kind node.span l r, ⟨?_, storesLeft, storesRight⟩, rfl, ?_, slots⟩
    · simp [rootLeft, rootRight, left?, right?, parent?, found]
    · rw [Layout.slots_node]
      refine List.nodup_append.mpr ⟨List.nodup_append.mpr ⟨nodupLeft, nodupRight, ?_⟩,
        List.nodup_singleton h, ?_⟩
      · rintro x inLeft z inRight rfl
        obtain ⟨y, onLeft, pathLeft⟩ := (slotsLeft x).mp inLeft
        obtain ⟨k, onRight, pathRight⟩ := (slotsRight x).mp inRight
        cases linked.eq_of_siblings ((linked.leadsTo_iff live).mpr (.inl onLeft))
          ((linked.leadsTo_iff live).mpr (.inr onRight)) pathLeft pathRight
        exact linked.distinct h y live onLeft onRight
      · rintro x inOperands z top rfl
        obtain rfl := List.mem_singleton.mp top
        obtain inLeft | inRight := List.mem_append.mp inOperands
        · obtain ⟨y, onLeft, path⟩ := (slotsLeft _).mp inLeft
          exact apartTop (.inl onLeft) path
        · obtain ⟨y, onRight, path⟩ := (slotsRight _).mp inRight
          exact apartTop (.inr onRight) path

/-- The links from a slot in use lead up to one that has no parent. -/
theorem exists_top (live : a.Live x) :
    ∃ h, a.Live h ∧ a.parent? h = none ∧ ReflTransGen a.LeadsTo x h := by
  induction x using linked.wellFounded_swap_leadsTo.induction with
  | _ x ih =>
    cases above : a.parent? x with
    | none => exact ⟨x, live, above, .refl⟩
    | some p =>
      have link : a.LeadsTo x p := above
      obtain ⟨h, liveTop, top, path⟩ := ih p link (linked.of_leadsTo link).2.1
      exact ⟨h, liveTop, top, .head link path⟩

/-- A linked arena is a forest. -/
theorem exists_isForest : ∃ trees, a.IsForest rooted trees := by
  classical
  have total : ∀ h, ∃ L, a.Live h → a.Stores (a.parent? h) L ∧ L.root? = some h ∧ L.slots.Nodup ∧
      ∀ x, x ∈ L.slots ↔ ReflTransGen a.LeadsTo x h := by
    intro h
    by_cases live : a.Live h
    · obtain ⟨L, layout⟩ := linked.exists_layout live
      exact ⟨L, fun _ => layout⟩
    · exact ⟨.absent, fun there => absurd there live⟩
  choose layout spec using total
  let tops := (List.range a.nodes.size).filter fun h => a.Live h ∧ a.parent? h = none
  have mem_tops : ∀ h, h ∈ tops ↔ a.Live h ∧ a.parent? h = none := by
    intro h
    simp only [tops, List.mem_filter, List.mem_range, decide_eq_true_eq]
    exact ⟨And.right, fun top => ⟨top.1.1, top⟩⟩
  have mem_slots : ∀ x, x ∈ (tops.map layout).flatMap Layout.slots ↔ a.Live x := by
    intro x
    simp only [List.flatMap_map, List.mem_flatMap, mem_tops]
    constructor
    · rintro ⟨h, ⟨live, -⟩, inside⟩
      obtain same | ⟨p, link, -⟩ := (((spec h live).2.2.2 x).mp inside).cases_head
      · exact same ▸ live
      · exact (linked.of_leadsTo link).1
    · intro live
      obtain ⟨h, liveTop, top, path⟩ := linked.exists_top live
      exact ⟨h, ⟨liveTop, top⟩, ((spec h liveTop).2.2.2 x).mpr path⟩
  refine ⟨tops.map layout, fun L mem => ?_, ?_, fun h mem => ?_, fun isRooted => ?_⟩
  · obtain ⟨h, isTop, rfl⟩ := List.mem_map.mp mem
    obtain ⟨live, top⟩ := (mem_tops h).mp isTop
    exact top ▸ (spec h live).1
  · have nodupSlots : ((tops.map layout).flatMap Layout.slots).Nodup := by
      rw [List.flatMap_map, List.nodup_flatMap]
      refine ⟨fun h isTop => (spec h ((mem_tops h).mp isTop).1).2.2.1, ?_⟩
      have different : tops.Pairwise (· ≠ ·) := List.nodup_range.filter _
      refine different.imp_of_mem fun {h k} isTop isTop' ne => ?_
      obtain ⟨live, top⟩ := (mem_tops h).mp isTop
      obtain ⟨live', top'⟩ := (mem_tops k).mp isTop'
      intro x inFirst inSecond
      exact ne (eq_of_tops top top' (((spec h live).2.2.2 x).mp inFirst)
        (((spec k live').2.2.2 x).mp inSecond))
    have nodup : ((tops.map layout).flatMap Layout.slots ++ a.free).Nodup := by
      refine List.nodup_append.mpr ⟨nodupSlots, linked.releasedOnce, ?_⟩
      rintro x inUse y inFree rfl
      exact ((mem_slots x).mp inUse).2 inFree
    refine (List.perm_ext_iff_of_nodup nodup List.nodup_range).mpr fun x => ?_
    rw [List.mem_append, mem_slots, List.mem_range]
    constructor
    · rintro (live | inFree)
      · exact live.1
      · obtain ⟨kind, span, found⟩ := linked.released x inFree
        exact lt_size_of_node? found
    · intro bound
      by_cases inFree : x ∈ a.free
      · exact .inr inFree
      · exact .inl ⟨bound, inFree⟩
  · obtain ⟨kind, span, found⟩ := linked.released h mem
    rw [found]
    rfl
  · obtain ⟨live, top⟩ := linked.root isRooted
    exact ⟨layout a.root, List.mem_map_of_mem ((mem_tops a.root).mpr ⟨live, top⟩), (spec _ live).2.1⟩

end IsLinked
end Arena
end Fluxion
