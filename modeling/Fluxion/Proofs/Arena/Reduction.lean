import Fluxion.Proofs.Arena.Release
/- Rewriting a stored tree in place. `Reduces a b parent L M` says that going from `a` to `b` turns
   the layout `L` into `M`: the topmost slot stays, no slot is taken, those that are no longer
   needed are released without links, and slots outside `L` keep what they hold. Every change of
   simplification is a reduction, and so is a whole pass.

   Reductions follow each other (`Reduces.trans`), reductions of the operands are one of the node
   (`Reduces.operands`), and a reduction does nothing to a layout stored elsewhere
   (`Reduces.framed`). One of the whole tree leaves an arena that holds the new tree
   (`Reduces.holds`). Nothing is said of the trees here: that a reduction goes from a tree to the
   right one is a matter of the change. -/
namespace Fluxion
namespace Arena

/-- `b` is `a` with the layout `L` turned into `M`. -/
structure Reduces (a b : Arena) (parent : Option Handle) (L M : Layout) : Prop where
  stores : b.Stores parent M
  top : M.root? = L.root?
  size : b.nodes.size = a.nodes.size
  root : b.root = a.root
  frame : ∀ x, x ∉ L.slots → b.node? x = a.node? x
  free : ∃ released, b.free = released ++ a.free ∧ (released ++ M.slots).Perm L.slots ∧
    ∀ x ∈ released, b.node? x = (b.node? x).map Node.cleared

variable {a b c : Arena} {parent : Option Handle} {L M N : Layout}

namespace Reduces

theorem refl (stores : a.Stores parent L) : Reduces a a parent L L :=
  ⟨stores, rfl, rfl, rfl, fun _ _ => rfl, [], rfl, .refl _, by simp⟩

theorem mem_of_mem (reduces : Reduces a b parent L M) {x : Handle} (mem : x ∈ M.slots) :
    x ∈ L.slots := by
  obtain ⟨released, -, perm, -⟩ := reduces.free
  exact perm.mem_iff.mp (List.mem_append_right released mem)

theorem nodup (reduces : Reduces a b parent L M) (nodup : L.slots.Nodup) : M.slots.Nodup := by
  obtain ⟨released, -, perm, -⟩ := reduces.free
  exact (List.nodup_append.mp (perm.nodup_iff.mpr nodup)).2.1

theorem trans (first : Reduces a b parent L M) (second : Reduces b c parent M N)
    (nodup : L.slots.Nodup) : Reduces a c parent L N := by
  obtain ⟨early, freeFirst, permFirst, clearedFirst⟩ := first.free
  obtain ⟨late, freeSecond, permSecond, clearedSecond⟩ := second.free
  refine ⟨second.stores, second.top.trans first.top, second.size.trans first.size,
    second.root.trans first.root, fun x outside => ?_, late ++ early, ?_, ?_, fun x mem => ?_⟩
  · rw [second.frame x fun mem => outside (first.mem_of_mem mem), first.frame x outside]
  · rw [freeSecond, freeFirst, List.append_assoc]
  · calc (late ++ early ++ N.slots).Perm (early ++ (late ++ N.slots)) := by
          rw [← List.append_assoc]
          exact List.perm_append_comm.append_right _
      List.Perm _ (early ++ M.slots) := permSecond.append_left early
      List.Perm _ L.slots := permFirst
  · obtain isLate | isEarly := List.mem_append.mp mem
    · exact clearedSecond x isLate
    · -- What was released first is no slot of `M`, so it stays cleared.
      have outside : x ∉ M.slots := fun inM =>
        (List.nodup_append.mp (permFirst.nodup_iff.mpr nodup)).2.2 x isEarly x inM rfl
      rw [second.frame x outside]
      exact clearedFirst x isEarly

theorem framed (reduces : Reduces a b parent L M) {q : Option Handle} (stores : a.Stores q N)
    (apart : ∀ x ∈ N.slots, x ∉ L.slots) : b.Stores q N :=
  stores.frame fun x mem => reduces.frame x (apart x mem)

/-- Reductions of the left and then of the right operand reduce the node. -/
theorem operands {slot : Handle} {kind : Kind} {span : Span} {left right left' right' : Layout}
    (stores : a.Stores parent (.node slot kind span left right))
    (nodup : (Layout.node slot kind span left right).slots.Nodup)
    (onLeft : Reduces a b (some slot) left left') (onRight : Reduces b c (some slot) right right') :
    Reduces a c parent (.node slot kind span left right) (.node slot kind span left' right') := by
  obtain ⟨-, -, apart, notLeft, notRight⟩ := Layout.apart_of_nodup nodup
  obtain ⟨fromLeft, freeLeft, permLeft, clearedLeft⟩ := onLeft.free
  obtain ⟨fromRight, freeRight, permRight, clearedRight⟩ := onRight.free
  refine ⟨⟨?_, ?_, onRight.stores⟩, rfl, onRight.size.trans onLeft.size,
    onRight.root.trans onLeft.root, fun x outside => ?_, fromRight ++ fromLeft, ?_, ?_,
    fun x mem => ?_⟩
  · rw [onRight.frame slot notRight, onLeft.frame slot notLeft, stores.1, onLeft.top, onRight.top]
  · exact onRight.framed onLeft.stores fun x mem => apart x (onLeft.mem_of_mem mem)
  · simp only [Layout.slots_node, List.mem_append, not_or] at outside
    rw [onRight.frame x outside.1.2, onLeft.frame x outside.1.1]
  · rw [freeRight, freeLeft, List.append_assoc]
  · rw [Layout.slots_node, Layout.slots_node]
    calc (fromRight ++ fromLeft ++ (left'.slots ++ right'.slots ++ [slot])).Perm
          (fromLeft ++ left'.slots ++ (fromRight ++ right'.slots) ++ [slot]) := by
          rw [List.perm_iff_count]
          intro x
          simp only [List.count_append]
          omega
      List.Perm _ (left.slots ++ right.slots ++ [slot]) :=
          (permLeft.append permRight).append_right _
  · obtain isRight | isLeft := List.mem_append.mp mem
    · exact clearedRight x isRight
    · have inLeft : x ∈ left.slots := permLeft.mem_iff.mp (List.mem_append_left _ isLeft)
      rw [onRight.frame x (apart x inLeft)]
      exact clearedLeft x isLeft

/-- A reduction of the whole tree leaves an arena that holds the new one. -/
theorem holds (reduces : Reduces a b none L M) (holds : a.Holds L) : b.Holds M := by
  obtain ⟨released, free, perm, -⟩ := reduces.free
  refine ⟨?_, reduces.stores, ?_, fun x mem => ?_⟩
  · rw [reduces.top, holds.root, reduces.root]
  · have moved : (M.slots ++ b.free).Perm (L.slots ++ a.free) := by
      rw [free, ← List.append_assoc]
      exact (List.perm_append_comm.trans perm).append_right _
    exact moved.nodup_iff.mpr holds.nodup
  · rw [reduces.size]
    rw [free] at mem
    obtain new | old := List.mem_append.mp mem
    · exact holds.stores.lt_size (perm.mem_iff.mp (List.mem_append_left _ new))
    · exact holds.bound x old

end Reduces

end Arena
end Fluxion
