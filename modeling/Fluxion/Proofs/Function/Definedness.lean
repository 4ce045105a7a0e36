import Fluxion.Definedness
import Fluxion.Proofs.Simplification.InPlace
/- The check for undefined parts by trees. The check asks the nodes of an arena, slot by slot in
   post-order; the faults of a tree (`Tree.faults`) are those of its nodes in the same order, each
   with its place. What is wrong with a node can be told from the node and its operands
   (`Tree.fault?`, `Stores.fault?_eq`), and what an operand is can be told from the layout that is
   stored there.

   A function whose body is well formed is therefore refused for the first fault of its tree, and
   passes if the tree has none (`check_eq`). An operand that is missing is no literal. Both that the
   faults are the right ones, and what they say of the values of the function, is left to
   `Fluxion.Proofs.Function.Offences`. -/
namespace Fluxion
namespace Tree

/-- A negative integer literal, or the change of sign of one that is not negative. -/
def isNegative : Tree → Bool
  | node (.integer n) .. => n < 0
  | node (.operator (.binary .sub)) _ absent operand => operand.integer?.any fun n => 0 ≤ n
  | _ => false

/-- What is wrong with the topmost node, as far as literal operands tell. -/
def fault? : Tree → Option UndefinedFault
  | node (.operator (.binary .pow)) _ left right =>
    if left.isZero && right.isZero then some .zeroToZero else none
  | node (.operator (.binary .div)) _ _ right =>
    if right.isZero then some .divisionByZero else none
  | node (.operator (.apply .log)) _ _ argument =>
    if argument.isZero then some .logOfZero
    else if argument.isNegative then some .logOfNegative
    else none
  | _ => none

/-- The faults of all nodes in post-order, each with its place. -/
def faults : Tree → List UndefinedError
  | absent => []
  | node kind span left right =>
    left.faults ++ right.faults ++
      ((node kind span left right).fault?.map fun fault => ⟨fault, [span]⟩).toList

end Tree

namespace Arena

variable {a : Arena} {parent : Option Handle} {h : Handle} {kind : Kind} {span : Span}
  {l r L : Layout}

theorem Stores.kind?_eq (stores : a.Stores parent (.node h kind span l r)) :
    a.kind? h = some kind := by
  rw [kind?, stores.1, Option.map_some]

theorem Stores.any_isZero (stores : a.Stores parent L) :
    L.root?.any a.isZero = L.tree.isZero := by
  cases L with
  | absent => rfl
  | node slot kind span left right => exact stores.isZero_eq rfl

theorem Stores.any_isNegative (stores : a.Stores parent L) :
    L.root?.any a.isNegative = L.tree.isNegative := by
  cases L with
  | absent => rfl
  | node slot kind span left right =>
    rw [Layout.root?_node, Option.any_some, isNegative, stores.kind?_eq]
    obtain n | x | _ | index | ((_ | _ | _ | _ | _) | f) := kind <;> try rfl
    -- A difference counts if it lacks its left operand.
    rw [stores.left?_eq, stores.right?_eq, stores.2.2.bind_integer?_eq]
    cases left with
    | absent => rfl
    | node => rfl

theorem Stores.fault?_eq (stores : a.Stores parent (.node h kind span l r)) :
    a.fault? h = (Layout.node h kind span l r).tree.fault? := by
  have zeroLeft := stores.2.1.any_isZero
  have zeroRight := stores.2.2.any_isZero
  have negative := stores.2.2.any_isNegative
  simp only [fault?, stores.operator?_eq, stores.left?_eq, stores.right?_eq, zeroLeft, zeroRight,
    negative]
  obtain n | x | _ | index | ((_ | _ | _ | _ | _) | f) := kind <;> try rfl
  cases f <;> rfl

/-- The faults of the slots of a layout are those of its tree. -/
theorem Stores.filterMap_faultAt? (stores : a.Stores parent L) :
    L.slots.filterMap a.faultAt? = L.tree.faults := by
  induction L generalizing parent with
  | absent => rfl
  | node slot kind span left right ihLeft ihRight =>
    have here : a.faultAt? slot =
        (Layout.node slot kind span left right).tree.fault?.map fun fault => ⟨fault, [span]⟩ := by
      rw [faultAt?, stores.fault?_eq, stores.1]
      cases (Layout.node slot kind span left right).tree.fault? <;> rfl
    rw [Layout.slots_node, List.filterMap_append, List.filterMap_append, ihLeft stores.2.1,
      ihRight stores.2.2, List.filterMap_cons, here, Layout.tree, Tree.faults]
    cases (Tree.node kind span left.tree right.tree).fault? <;> rfl

end Arena

namespace Function

/-- The check finds the first fault of the tree, if there is any. -/
theorem check_eq {f : Function} (formed : f.body.WellFormed) :
    f.check = match f.body.tree.faults.head? with
      | some fault => .error fault
      | none => .ok () := by
  obtain ⟨L, holds, -⟩ := formed
  have first : f.body.tree.faults.head? = L.slots.findSome? f.body.faultAt? := by
    rw [holds.tree_eq, ← holds.stores.filterMap_faultAt?, List.head?_filterMap]
  cases found : L.slots.findSome? f.body.faultAt? with
  | none => simp [check, holds.postOrder_eq, first, found]
  | some fault => simp [check, holds.postOrder_eq, first, found]

end Function
end Fluxion
