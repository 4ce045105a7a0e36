import Fluxion.Proofs.Arena.Runs
/- The walk with a stack is the recursive traversal. `Lists` is the recursion: what is below the
   left operand of a node, then what is below the right one, then the node. It says nothing of a
   stack, and lists slots in one way only (`Lists.eq`).

   The walk decides by the last slot it has listed whether a node still waits for its operands; it
   has come back from them only if it has listed the last of them, because no slot is listed twice
   (`Stores.walk_eq`). In a linked arena every slot in use has a layout, so from each of them the
   walk ends and lists what recursion lists, after at most two looks at every slot
   (`walk_lists_recursively`). An arena without slots in use has an empty post-order.

   Nodes may lack either operand, as in `lopsided`: no shape is asked for. -/
namespace Fluxion
namespace Arena

open Relation

/-- Recursion below a slot, or below a missing operand, lists these slots. -/
inductive Lists (a : Arena) : Option Handle → List Handle → Prop where
  | absent : Lists a none []
  | node {h : Handle} {node : Node} {left right : List Handle} (found : a.node? h = some node)
      (onLeft : Lists a node.left left) (onRight : Lists a node.right right) :
      Lists a (some h) (left ++ right ++ [h])

variable {a : Arena} {rooted : Bool} {parent place : Option Handle} {L : Layout}
  {order other : List Handle}

theorem Stores.lists (stores : a.Stores parent L) : a.Lists L.root? L.slots := by
  induction L generalizing parent with
  | absent => exact .absent
  | node slot kind span left right ihLeft ihRight =>
    exact .node stores.1 (ihLeft stores.2.1) (ihRight stores.2.2)

/-- Recursion lists slots in one way only. -/
theorem Lists.eq (first : a.Lists place order) (second : a.Lists place other) : order = other := by
  induction first generalizing other with
  | absent =>
    cases second
    rfl
  | node found _ _ ihLeft ihRight =>
    cases second with
    | node found' onLeft onRight =>
      rw [found] at found'
      cases found'
      rw [ihLeft onLeft, ihRight onRight]

namespace IsLinked

variable (linked : a.IsLinked rooted)
include linked

/-- Links up and links down are the same links. -/
theorem leadsTo_eq : a.LeadsTo = a.IsOperand := by
  funext x p
  apply propext
  constructor
  · intro link
    exact (linked.of_leadsTo link).2.2
  · intro operand
    exact (linked.operand p x (linked.live_of_isOperand operand) operand).2

/-- A linked arena is empty if no slot is in use. -/
theorem isEmpty_iff : a.isEmpty = true ↔ ∀ h, ¬a.Live h := by
  obtain ⟨trees, forest⟩ := linked.exists_isForest
  rw [isEmpty, beq_iff_eq, forest.size_eq, List.length_eq_zero_iff, List.flatMap_eq_nil_iff]
  simp only [forest.live_iff, List.eq_nil_iff_forall_not_mem, not_exists, not_and]
  exact ⟨fun none h L mem => none L mem h, fun none L mem h => none h L mem⟩

theorem postOrderFrom?_root (live : a.Live a.root) :
    a.postOrderFrom? a.root = some a.postOrder := by
  obtain ⟨L, stores, root, nodup, -⟩ := linked.exists_layout live
  have used : ¬a.isEmpty = true := fun empty => linked.isEmpty_iff.mp empty a.root live
  rw [postOrder, if_neg used, stores.postOrderFrom?_eq nodup root, Option.getD_some]

end IsLinked

/-- In a linked arena the walk from a slot in use ends, after at most two looks at every slot
    below it, with what recursion lists: the slots of the subtree, each once, operands before
    their operators. So the post-order of an arena is that of its root, and of an arena without
    slots in use it is empty. -/
theorem walk_lists_recursively (linked : a.IsLinked rooted) :
    (∀ h, a.Live h → ∃ order, a.postOrderFrom? h = some order ∧
      (∀ steps, 2 * order.length ≤ steps → a.walk steps [h] none = some order) ∧
      (∀ other, a.Lists (some h) other ↔ other = order) ∧ order.Nodup ∧
      ∀ x, x ∈ order ↔ ReflTransGen a.IsOperand x h) ∧
    (a.Live a.root → a.postOrderFrom? a.root = some a.postOrder) ∧
    ((∀ h, ¬a.Live h) → a.postOrder = []) := by
  refine ⟨?_, linked.postOrderFrom?_root, ?_⟩
  · intro h live
    obtain ⟨L, stores, root, nodup, below⟩ := linked.exists_layout live
    have lists : a.Lists (some h) L.slots := root ▸ stores.lists
    refine ⟨L.slots, stores.postOrderFrom?_eq nodup root, ?_, ?_, nodup, ?_⟩
    · intro steps enough
      exact stores.walk_of_le nodup root enough
    · intro other
      constructor
      · intro same
        exact same.eq lists
      · rintro rfl
        exact lists
    · rw [← linked.leadsTo_eq]
      exact below
  · intro none
    rw [postOrder, if_pos (linked.isEmpty_iff.mpr none)]

/-- A node of each form, scattered over the slots: with both operands, with a left one only, with
    a right one only and without any. -/
def lopsided : Arena where
  nodes := #[⟨.var, .nowhere, some 4, none, none⟩,
    ⟨.operator (.binary .mul), .nowhere, none, some 4, some 3⟩, ⟨.integer 7, .nowhere, none, none, none⟩,
    ⟨.operator (.apply .sin), .nowhere, some 1, none, some 5⟩,
    ⟨.operator (.binary .sub), .nowhere, some 1, some 0, none⟩, ⟨.param 0, .nowhere, some 3, none, none⟩]
  free := [2]
  root := 1

theorem isLinked_lopsided : lopsided.IsLinked true := by
  have forest : lopsided.IsForest true
      [.node 1 (.operator (.binary .mul)) .nowhere
        (.node 4 (.operator (.binary .sub)) .nowhere (.node 0 .var .nowhere .absent .absent) .absent)
        (.node 3 (.operator (.apply .sin)) .nowhere .absent
          (.node 5 (.param 0) .nowhere .absent .absent))] := by
    refine ⟨?_, by decide, by decide, fun _ => ⟨_, List.mem_cons_self, rfl⟩⟩
    simp [Stores, lopsided, node?]
  exact forest.isLinked

theorem walk_lists_recursively_lopsided :
    lopsided.postOrder = [0, 4, 5, 3, 1] ∧ lopsided.walk 10 [1] none = some [0, 4, 5, 3, 1] ∧
    lopsided.postOrderFrom? 4 = some [0, 4] ∧ ({} : Arena).postOrder = [] := by
  obtain ⟨fromSlot, fromRoot, -⟩ := walk_lists_recursively isLinked_lopsided
  have leaf : ∀ {h kind parent}, lopsided.node? h = some ⟨kind, .nowhere, parent, none, none⟩ →
      lopsided.Lists (some h) [h] := fun found => .node found .absent .absent
  have difference : lopsided.Lists (some 4) ([0] ++ [] ++ [4]) := .node rfl (leaf rfl) .absent
  have call : lopsided.Lists (some 3) ([] ++ [5] ++ [3]) := .node rfl .absent (leaf rfl)
  have product : lopsided.Lists (some 1) ([0, 4] ++ [5, 3] ++ [1]) := .node rfl difference call
  obtain ⟨order, listed, ends, lists, -⟩ := fromSlot 1 ⟨by decide, by decide⟩
  obtain ⟨below, listedBelow, -, listsBelow, -⟩ := fromSlot 4 ⟨by decide, by decide⟩
  obtain rfl := (lists _).mp product
  obtain rfl := (listsBelow _).mp difference
  have whole := fromRoot ⟨by decide, by decide⟩
  refine ⟨Option.some.inj (whole.symm.trans listed), ends 10 (by decide), listedBelow, ?_⟩
  exact (walk_lists_recursively isLinked_empty).2.2 fun h live => absurd live.1 (Nat.not_lt_zero h)

end Arena
end Fluxion
