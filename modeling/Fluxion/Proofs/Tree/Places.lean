import Fluxion.Proofs.Derivative.Correctness
import Fluxion.Proofs.Function.Definedness
import Fluxion.Proofs.Notation.Regrouping
/- Trees without their places. Printing, checking, deriving and simplifying do nothing with places
   but hand them on: what each makes of a tree without its places is what it makes of the tree,
   without its places (`faults_bare`, `bare_of`, `simplify_bare`). For printing this is said beside
   `bare` itself (`phrase_bare`).

   There is one lemma for each function on trees that the operations are made of, in the order of
   their definitions, and each goes by the cases of the function. A law gives the place of the node
   to what it makes of it, or leaves operands with the places they had (`law?_bare`); a derivative
   copies places with the parts that it copies. Of a fault only the place is lost. So functions that
   differ in places alone cannot be told apart by any of these operations, and the laws that
   simplify them are the same. -/
namespace Fluxion

open Simplification

namespace Tree

variable {t : Tree}

/-! ## Literals -/

@[simp]
theorem bare_bare (t : Tree) : t.bare.bare = t.bare := by
  induction t with
  | absent => rfl
  | node kind span left right ihLeft ihRight => rw [bare, bare, ihLeft, ihRight]

theorem bare_eq_absent_iff : t.bare = .absent ↔ t = .absent := by
  cases t with
  | absent => exact ⟨fun _ => rfl, fun _ => rfl⟩
  | node => exact ⟨nofun, nofun⟩

@[simp]
theorem integer?_bare (t : Tree) : t.bare.integer? = t.integer? := by
  cases t <;> rfl

@[simp]
theorem isZero_bare (t : Tree) : t.bare.isZero = t.isZero := by
  rw [isZero, integer?_bare, isZero]

@[simp]
theorem isOne_bare (t : Tree) : t.bare.isOne = t.isOne := by
  rw [isOne, integer?_bare, isOne]

/-! ## Checking -/

@[simp]
theorem isNegative_bare (t : Tree) : t.bare.isNegative = t.isNegative := by
  cases t with
  | absent => rfl
  | node kind span left right =>
    obtain n | x | _ | index | ((_ | _ | _ | _ | _) | f) := kind <;> try rfl
    cases left with
    | absent => simp only [bare, isNegative, integer?_bare]
    | node => rfl

theorem fault?_bare (t : Tree) : t.bare.fault? = t.fault? := by
  cases t with
  | absent => rfl
  | node kind span left right =>
    obtain n | x | _ | index | ((_ | _ | _ | _ | _) | f) := kind <;> try rfl
    · simp only [bare, fault?, isZero_bare]
    · simp only [bare, fault?, isZero_bare]
    · cases f <;> simp only [bare, fault?, isZero_bare, isNegative_bare]

/-- Places only say where a fault is. -/
theorem faults_bare (t : Tree) : t.bare.faults.map (·.fault) = t.faults.map (·.fault) := by
  induction t with
  | absent => rfl
  | node kind span left right ihLeft ihRight =>
    have here := fault?_bare (node kind span left right)
    rw [bare] at here ⊢
    rw [faults, faults, here, List.map_append, List.map_append, List.map_append, List.map_append,
      ihLeft, ihRight]
    cases (node kind span left right).fault? <;> rfl

/-! ## Derivatives -/

theorem WellShaped.bare (shaped : t.WellShaped) : t.bare.WellShaped := by
  induction shaped with
  | leaf noOperator => exact .leaf noOperator
  | negation _ ih => exact .negation ih
  | binary _ _ ihLeft ihRight => exact .binary ihLeft ihRight
  | call _ ih => exact .call ih

open Fluxion.Derivative Draft in
theorem bare_outer (call v : Tree) (f : Elementary) :
    (outer? call.bare v.bare f).map (·.tree.bare) = (outer? call v f).map (·.tree.bare) := by
  cases f <;>
    simp [outer?, reciprocal, squareOf, square, arcsine, arctangent, binary, binaryBackwards, negate,
      apply, integer, Draft.tree, tree_copy, Tree.bare]

open Fluxion.Derivative Draft in
/-- The places of a tree are those of its copies in the derivative. -/
theorem bare_of (shaped : t.WellShaped) : (of t.bare).tree.bare = (of t).tree.bare := by
  induction shaped with
  | @leaf kind span noOperator => cases kind <;> first | rfl | cases noOperator
  | @negation span operand onOperand ih =>
    rw [Tree.bare, of_negation onOperand.ne_absent, Tree.bare, of_negation onOperand.bare.ne_absent]
    simp only [negate, Draft.tree, Tree.bare, ih]
  | @binary op span left right onLeft onRight ihLeft ihRight =>
    rw [Tree.bare, of_binary onLeft.ne_absent onRight.ne_absent,
      of_binary onLeft.bare.ne_absent onRight.bare.ne_absent]
    cases op <;>
      simp only [ofProduct, ofQuotient, ofPower, square, binary, binaryBackwards, integer, Draft.tree,
        tree_copy, Tree.bare, bare_bare, ihLeft, ihRight]
  | @call f span argument onArgument ih =>
    have outer := bare_outer (.node (.operator (.apply f)) span .absent argument) argument f
    rw [Tree.bare, Tree.bare] at outer
    rw [Tree.bare, Tree.bare, of_call onArgument.ne_absent, of_call onArgument.bare.ne_absent, ofCall,
      ofCall]
    generalize outer? (.node (.operator (.apply f)) .nowhere .absent argument.bare) argument.bare f =
      x at outer ⊢
    generalize outer? (.node (.operator (.apply f)) span .absent argument) argument f = y at outer ⊢
    cases x with
    | none =>
      cases y with
      | none => simp only [binary, Draft.tree, tree_copy, Tree.bare, bare_bare, ih]
      | some => cases outer
    | some d =>
      cases y with
      | none => cases outer
      | some e =>
        simp only [Option.map_some, Option.some.injEq] at outer
        simp only [binary, Draft.tree, Tree.bare, outer, ih]

/-! ## Simplification -/

theorem reciprocal?_bare (t : Tree) : t.bare.reciprocal? = t.reciprocal?.map bare := by
  cases t with
  | absent => rfl
  | node kind span numerator denominator =>
    obtain n | x | _ | index | ((_ | _ | _ | _ | _) | f) := kind <;> try rfl
    cases denominator with
    | absent => rfl
    | node kind' span' left right =>
      simp only [bare, reciprocal?, isOne_bare]
      cases numerator.isOne <;> rfl

/-- A law gives the place of the node to what it makes of it, or leaves operands as they are. -/
theorem law?_bare (op : BinaryOp) (span : Span) (left right : Tree) :
    law? op .nowhere left.bare right.bare =
      (law? op span left right).map fun (step, t) => (step, t.bare) := by
  cases op with
  | add =>
    simp only [law?, isZero_bare]
    cases left.isZero <;> cases right.isZero <;> rfl
  | sub =>
    simp only [law?, isZero_bare, bare_eq_absent_iff]
    split <;> cases left.isZero <;> cases right.isZero <;> rfl
  | mul =>
    simp only [law?, isZero_bare, isOne_bare, reciprocal?_bare]
    cases left.isZero <;> cases right.isZero <;> cases left.isOne <;> cases right.isOne <;>
      cases left.reciprocal? <;> cases right.reciprocal? <;> rfl
  | div =>
    simp only [law?, isZero_bare, isOne_bare]
    cases left.isZero <;> cases right.isOne <;> rfl
  | pow =>
    simp only [law?, isZero_bare, isOne_bare]
    cases right.isZero <;> cases right.isOne <;> rfl

theorem rewrite?_bare (t : Tree) :
    t.bare.rewrite? = t.rewrite?.map fun (step, t) => (step, t.bare) := by
  cases t with
  | absent => rfl
  | node kind span left right =>
    obtain n | x | _ | index | (op | f) := kind <;> try rfl
    simp only [bare, rewrite?, integer?_bare]
    cases op.isArithmetic with
    | false => exact law?_bare op span left right
    | true =>
      cases left.integer? with
      | none => exact law?_bare op span left right
      | some l =>
        cases right.integer? with
        | none => exact law?_bare op span left right
        | some r =>
          simp only [Option.map_map]
          rfl

theorem rewriteOnce_bare (t : Tree) :
    t.bare.rewriteOnce = (t.rewriteOnce.1, t.rewriteOnce.2.bare) := by
  rw [rewriteOnce, rewriteOnce, rewrite?_bare]
  cases t.rewrite? <;> rfl

theorem rewriteNode_bare (t : Tree) :
    t.bare.rewriteNode = (t.rewriteNode.1, t.rewriteNode.2.bare) := by
  rw [rewriteNode, rewriteNode, rewrite?_bare]
  cases t.rewrite? with
  | none => rfl
  | some rewritten =>
    simp only [Option.map_some, rewriteOnce_bare]
    split <;> rfl

theorem simplify_bare (t : Tree) : t.bare.simplify = (t.simplify.1, t.simplify.2.bare) := by
  induction t with
  | absent => rfl
  | node kind span left right ihLeft ihRight =>
    have here := rewriteNode_bare (node kind span left.simplify.2 right.simplify.2)
    rw [bare] at here
    simp only [bare, simplify, ihLeft, ihRight, here]

end Tree

end Fluxion
