import Fluxion.Draft
import Fluxion.Proofs.Arena.Release
import Fluxion.Proofs.Tree.Shape
/- Storing drafts. What is built takes slots that nothing else uses: the ones released last and,
   when these are used up, new ones. `Takes` says so of a run that takes a list of slots and touches
   no other, and such runs follow each other (`Takes.trans`); all that is asked of the arena is that
   its free stack names every slot once (`Tidy`).

   A node is placed on top of the layouts of its operands (`Takes.place`), and by induction on the
   draft its tree is stored, in whatever order the operands are stored (`Tidy.build`). So a new
   arena made of a draft holds the drafted tree and nothing else (`holds_ofDraft`), and every slot
   that is not one of the tree's is released (`fills_ofDraft`). Of the bodies of functions this says
   that they are well formed as soon as the tree has a proper shape (`wellFormed_ofDraft`). -/
namespace Fluxion
namespace Arena

/-- The stack of released slots names every slot once, and only slots that there are. -/
structure Tidy (a : Arena) : Prop where
  nodup : a.free.Nodup
  bound : ∀ h ∈ a.free, h < a.nodes.size

/-- `b` is `a` with slots taken from the top of the free stack, or else new ones. -/
structure Takes (a b : Arena) (taken : List Handle) : Prop where
  free : ∃ reused, a.free = reused ++ b.free ∧
    taken.Perm (reused ++ List.range' a.nodes.size (b.nodes.size - a.nodes.size))
  size : a.nodes.size ≤ b.nodes.size
  root : b.root = a.root
  frame : ∀ x, x ∉ taken → b.node? x = a.node? x

variable {a b c : Arena} {xs ys : List Handle} {left right L : Layout}

namespace Takes

theorem refl (a : Arena) : Takes a a [] :=
  ⟨⟨[], rfl, by simp⟩, Nat.le_refl _, rfl, fun _ _ => rfl⟩

theorem perm (takes : Takes a b xs) (perm : xs.Perm ys) : Takes a b ys := by
  obtain ⟨reused, free, taken⟩ := takes.free
  exact ⟨⟨reused, free, perm.symm.trans taken⟩, takes.size, takes.root,
    fun x outside => takes.frame x fun mem => outside (perm.mem_iff.mp mem)⟩

theorem trans (first : Takes a b xs) (second : Takes b c ys) : Takes a c (xs ++ ys) := by
  obtain ⟨early, freeFirst, permFirst⟩ := first.free
  obtain ⟨late, freeSecond, permSecond⟩ := second.free
  have sizeFirst := first.size
  have sizeSecond := second.size
  -- The slots added first and those added then are numbered without a gap.
  have new : List.range' a.nodes.size (b.nodes.size - a.nodes.size) ++
      List.range' b.nodes.size (c.nodes.size - b.nodes.size) =
      List.range' a.nodes.size (c.nodes.size - a.nodes.size) := by
    have joined := List.range'_append_1 (s := a.nodes.size) (m := b.nodes.size - a.nodes.size)
      (n := c.nodes.size - b.nodes.size)
    rwa [show a.nodes.size + (b.nodes.size - a.nodes.size) = b.nodes.size by omega,
      show b.nodes.size - a.nodes.size + (c.nodes.size - b.nodes.size) =
        c.nodes.size - a.nodes.size by omega] at joined
  refine ⟨⟨early ++ late, ?_, ?_⟩, by omega, second.root.trans first.root, fun x outside => ?_⟩
  · rw [freeFirst, freeSecond, List.append_assoc]
  · calc (xs ++ ys).Perm
          (early ++ List.range' a.nodes.size (b.nodes.size - a.nodes.size) ++
            (late ++ List.range' b.nodes.size (c.nodes.size - b.nodes.size))) :=
          permFirst.append permSecond
      List.Perm _ (early ++ late ++ (List.range' a.nodes.size (b.nodes.size - a.nodes.size) ++
            List.range' b.nodes.size (c.nodes.size - b.nodes.size))) := by
          rw [List.perm_iff_count]
          intro x
          simp only [List.count_append]
          omega
      List.Perm _ (early ++ late ++ List.range' a.nodes.size (c.nodes.size - a.nodes.size)) := by
          rw [new]
  · simp only [List.mem_append, not_or] at outside
    rw [second.frame x outside.2, first.frame x outside.1]

/-- The slots taken are different from each other and from those still free. -/
theorem nodup (takes : Takes a b xs) (tidy : a.Tidy) : (xs ++ b.free).Nodup := by
  obtain ⟨reused, free, perm⟩ := takes.free
  have moved : (xs ++ b.free).Perm
      (a.free ++ List.range' a.nodes.size (b.nodes.size - a.nodes.size)) := by
    rw [free, List.append_assoc]
    refine (perm.append_right b.free).trans ?_
    rw [List.append_assoc]
    exact List.perm_append_comm.append_left reused
  rw [moved.nodup_iff]
  refine List.nodup_append.mpr ⟨tidy.nodup, List.nodup_range', ?_⟩
  -- Free slots lie within the old nodes, new ones behind them.
  rintro x inFree y inNew rfl
  have old : x < a.nodes.size := tidy.bound x inFree
  exact absurd old (Nat.not_lt.mpr (List.mem_range'_1.mp inNew).1)

theorem tidy (takes : Takes a b xs) (tidy : a.Tidy) : b.Tidy := by
  obtain ⟨reused, free, -⟩ := takes.free
  refine ⟨(List.nodup_append.mp (takes.nodup tidy)).2.1, fun x mem => ?_⟩
  have inFree : x ∈ a.free := by
    rw [free]
    exact List.mem_append_right reused mem
  exact Nat.lt_of_lt_of_le (tidy.bound x inFree) takes.size

/-- What is stored in other slots stays there. -/
theorem framed (takes : Takes a b xs) {parent : Option Handle} (stores : a.Stores parent L)
    (apart : ∀ x ∈ L.slots, x ∉ xs) : b.Stores parent L :=
  stores.frame fun x mem => takes.frame x (apart x mem)

/-- Nodes in the slots taken may be linked. -/
theorem link (takes : Takes a b xs) {h : Handle} {l r : Option Handle} (here : h ∈ xs)
    (inLeft : ∀ x, l = some x → x ∈ xs) (inRight : ∀ x, r = some x → x ∈ xs) :
    Takes a (b.link h l r) xs := by
  refine ⟨?_, ?_, ?_, fun x outside => ?_⟩
  · rw [free_link, size_nodes_link]
    exact takes.free
  · rw [size_nodes_link]
    exact takes.size
  · rw [root_link, takes.root]
  · rw [node?_link_of_ne b (fun same : h = x => outside (same ▸ here)) (fun root => outside (inLeft x root))
      (fun root => outside (inRight x root)), takes.frame x outside]

end Takes

/-! ## One node -/

theorem Tidy.alloc (tidy : a.Tidy) (node : Node) :
    Takes a (a.alloc node).2 [(a.alloc node).1] ∧
      (a.alloc node).2.node? (a.alloc node).1 = some node := by
  rw [Arena.alloc]
  cases free : a.free with
  | nil =>
    refine ⟨⟨⟨[], by simp [free], by simp⟩, by simp, rfl, fun x outside => ?_⟩, ?_⟩
    · have ne : x ≠ a.nodes.size := by simpa using outside
      simp [node?, Array.getElem?_push, ne]
    · simp [node?]
  | cons h rest =>
    have bound : h < a.nodes.size := tidy.bound h (by simp [free])
    refine ⟨⟨⟨[h], by simp [free], by simp⟩, by simp, rfl, fun x outside => ?_⟩, ?_⟩
    · have ne : h ≠ x := by simpa [eq_comm] using outside
      simp [node?, ne]
    · simp [node?, bound]

/-- Placing a node on top of two layouts that were stored last stores it with them. -/
theorem Takes.place (takes : Takes a b (left.slots ++ right.slots)) (tidy : a.Tidy)
    (storesLeft : b.Stores none left) (storesRight : b.Stores none right) (kind : Kind)
    (span : Span) :
    ∃ h, (b.place kind span left.root? right.root?).1 = h ∧
      Takes a (b.place kind span left.root? right.root?).2
        (Layout.node h kind span left right).slots ∧
      (b.place kind span left.root? right.root?).2.Stores none (.node h kind span left right) := by
  obtain ⟨allocates, here⟩ := (takes.tidy tidy).alloc { kind, span }
  have all := takes.trans allocates
  have nodup := (List.nodup_append.mp (all.nodup tidy)).1
  have old : ∀ x ∈ left.slots ++ right.slots, x ∉ [(b.alloc { kind, span }).1] :=
    fun x mem inNew => (List.nodup_append.mp nodup).2.2 x mem x inNew rfl
  refine ⟨_, rfl, ?_, ?_⟩
  · refine all.link (List.mem_append_right _ (List.mem_singleton_self _)) (fun x root => ?_) fun x root => ?_
    · simp [Layout.mem_slots_of_root? root]
    · simp [Layout.mem_slots_of_root? root]
  · exact (allocates.framed storesLeft fun x mem => old x (List.mem_append_left _ mem)).link
      (allocates.framed storesRight fun x mem => old x (List.mem_append_right _ mem)) here nodup

/-! ## Whole drafts -/

/-- A draft is stored in slots taken for it, below no parent. -/
theorem Tidy.build (tidy : a.Tidy) (d : Draft) :
    ∃ L, Takes a (a.build d).2 L.slots ∧ (a.build d).2.Stores none L ∧
      (a.build d).1 = L.root? ∧ L.tree = d.tree := by
  induction d generalizing a with
  | absent => exact ⟨.absent, .refl a, trivial, rfl, rfl⟩
  | node kind span order left right ihLeft ihRight =>
    cases order with
    | leftFirst =>
      obtain ⟨l, takesLeft, storesLeft, rootLeft, treeLeft⟩ := ihLeft tidy
      obtain ⟨r, takesRight, storesRight, rootRight, treeRight⟩ := ihRight (takesLeft.tidy tidy)
      -- Building the right operand keeps what the left one stores.
      have both := takesLeft.trans takesRight
      have apart := (List.nodup_append.mp (List.nodup_append.mp (both.nodup tidy)).1).2.2
      obtain ⟨h, top, takes, stores⟩ := both.place tidy
        (takesRight.framed storesLeft fun x inLeft inRight => apart x inLeft x inRight rfl)
        storesRight kind span
      rw [← rootLeft, ← rootRight] at top takes stores
      exact ⟨.node h kind span l r, takes, stores, congrArg some top,
        by rw [Layout.tree, Draft.tree, treeLeft, treeRight]⟩
    | rightFirst =>
      obtain ⟨r, takesRight, storesRight, rootRight, treeRight⟩ := ihRight tidy
      obtain ⟨l, takesLeft, storesLeft, rootLeft, treeLeft⟩ := ihLeft (takesRight.tidy tidy)
      have both := takesRight.trans takesLeft
      have apart := (List.nodup_append.mp (List.nodup_append.mp (both.nodup tidy)).1).2.2
      obtain ⟨h, top, takes, stores⟩ := (both.perm List.perm_append_comm).place tidy storesLeft
        (takesLeft.framed storesRight fun x inRight inLeft => apart x inRight x inLeft rfl)
        kind span
      rw [← rootLeft, ← rootRight] at top takes stores
      exact ⟨.node h kind span l r, takes, stores, congrArg some top,
        by rw [Layout.tree, Draft.tree, treeLeft, treeRight]⟩

theorem tidy_empty : ({} : Arena).Tidy := ⟨List.nodup_nil, by simp⟩

/-- The arena holds the layout, and every slot that is not one of its own is released. -/
structure Fills (a : Arena) (L : Layout) : Prop where
  holds : a.Holds L
  perm : (L.slots ++ a.free).Perm (List.range a.nodes.size)

/-- A new arena is filled by the tree that it was made of. -/
theorem fills_ofDraft {d : Draft} (there : d.tree ≠ .absent) :
    ∃ L, (ofDraft d).Fills L ∧ L.tree = d.tree := by
  obtain ⟨L, takes, stores, root, tree⟩ := tidy_empty.build d
  cases L with
  | absent => exact absurd tree.symm there
  | node h kind span left right =>
    have nodup := takes.nodup tidy_empty
    have moved := stores.setParent (List.nodup_append.mp nodup).1 none
    have unfolded : ofDraft d = (({} : Arena).build d).2.setRoot h := by
      rw [ofDraft]
      split
      · next stored => rw [stored] at root; cases root
      · next stored => rw [stored] at root ⊢; cases root; rfl
    -- Nothing was free before, so all slots are new.
    obtain ⟨reused, free, perm⟩ := takes.free
    obtain ⟨rfl, unused⟩ := List.append_eq_nil_iff.mp free.symm
    rw [unfolded]
    refine ⟨_, ⟨⟨rfl, ?_, ?_, ?_⟩, ?_⟩, tree⟩
    · exact moved.frame fun _ _ => rfl
    · simpa [setRoot] using nodup
    · simpa [setRoot] using (takes.tidy tidy_empty).bound
    · simpa [setRoot, unused, List.range_eq_range'] using perm

/-- A new arena holds the tree that it was made of. -/
theorem holds_ofDraft {d : Draft} (there : d.tree ≠ .absent) :
    ∃ L, (ofDraft d).Holds L ∧ L.tree = d.tree := by
  obtain ⟨L, fills, tree⟩ := fills_ofDraft there
  exact ⟨L, fills.holds, tree⟩

theorem wellFormed_ofDraft {d : Draft} (shaped : d.tree.WellShaped) : (ofDraft d).WellFormed := by
  obtain ⟨L, holds, tree⟩ := holds_ofDraft shaped.ne_absent
  exact ⟨L, holds, by rwa [tree]⟩

theorem tree_ofDraft {d : Draft} (there : d.tree ≠ .absent) : (ofDraft d).tree = d.tree := by
  obtain ⟨L, holds, tree⟩ := holds_ofDraft there
  rw [holds.tree_eq, tree]

end Arena
end Fluxion
