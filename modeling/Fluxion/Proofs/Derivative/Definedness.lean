import Fluxion.Proofs.Derivative.Correctness
import Fluxion.Proofs.Function.Definedness
import Fluxion.Session
/- Differentiating a function that passes the check gives one that passes it, and so do its
   derivatives of any order (`check_iterate_derivative`). The rules put parts of a tree under
   quotients and powers that it did not have, and the check forbids literal zeros there.

   All denominators and exponents that are built are operators, with one exception: the argument of
   a logarithm becomes a denominator as it is, and that it is no zero is what the check has seen to
   (`isZero_of_passes_log`). A copy of the logarithm itself passes as the original did, and no other
   is built. So there is a lemma for each part of a derivative and one for each rule, and an
   induction over the tree (`passes_of`).

   Derivatives are not simplified here. Simplification may well make a literal zero of a
   denominator, which the check would then refuse. -/
namespace Fluxion
namespace Tree

/-- The check finds nothing wrong with any node. -/
def Passes (t : Tree) : Prop := t.faults = []

variable {kind : Kind} {op : BinaryOp} {f : Elementary} {span : Span} {left right : Tree}

theorem passes_node : (node kind span left right).Passes ↔
    left.Passes ∧ right.Passes ∧ (node kind span left right).fault? = none := by
  simp [Passes, faults]

/-- No operator is at fault if its right operand is no zero. -/
theorem passes_binary (onLeft : left.Passes) (onRight : right.Passes)
    (nonzero : right.isZero = false) :
    (node (.operator (.binary op)) span left right).Passes := by
  refine passes_node.mpr ⟨onLeft, onRight, ?_⟩
  cases op <;> simp [fault?, nonzero]

theorem passes_call (other : f ≠ .log) (onArgument : right.Passes) :
    (node (.operator (.apply f)) span .absent right).Passes := by
  refine passes_node.mpr ⟨rfl, onArgument, ?_⟩
  cases f <;> first | rfl | exact absurd rfl other

theorem isZero_of_passes_log (passes : (node (.operator (.apply .log)) span left right).Passes) :
    right.isZero = false := by
  have sound := (passes_node.mp passes).2.2
  rw [fault?] at sound
  split at sound
  · cases sound
  · next nonzero => exact Bool.eq_false_iff.mpr nonzero

end Tree

namespace Derivative

open Draft Fluxion.Tree

variable {t u v : Tree} {d : Draft} {f : Elementary}

/-! ## Parts of derivatives -/

theorem passes_integer (n : Int64) : (integer n).tree.Passes := rfl

theorem passes_copy (passes : t.Passes) : (copy t).tree.Passes := by
  rwa [tree_copy]

theorem passes_negate (operand : d.tree.Passes) : (negate d).tree.Passes :=
  passes_node.mpr ⟨rfl, operand, rfl⟩

theorem passes_square (passes : v.Passes) : (square v).tree.Passes :=
  passes_binary (passes_copy passes) (passes_integer 2) rfl

theorem passes_squareOf (other : f ≠ .log) (passes : v.Passes) : (squareOf f v).tree.Passes :=
  passes_binary (passes_call other (passes_copy passes)) (passes_integer 2) rfl

theorem passes_reciprocal (passes : d.tree.Passes) (nonzero : d.tree.isZero = false) :
    (reciprocal d).tree.Passes :=
  passes_binary (passes_integer 1) passes nonzero

theorem passes_arcsine (passes : v.Passes) : (arcsine v).tree.Passes := by
  refine passes_reciprocal (passes_call nofun ?_) rfl
  exact passes_node.mpr ⟨passes_integer 1, passes_square passes, rfl⟩

theorem passes_arctangent (passes : v.Passes) : (arctangent v).tree.Passes := by
  refine passes_reciprocal ?_ rfl
  exact passes_node.mpr ⟨passes_integer 1, passes_square passes, rfl⟩

theorem passes_outer {outer : Draft} (onCall : t.Passes) (passes : v.Passes)
    (found : outer? t v f = some outer) : outer.tree.Passes := by
  cases f <;> cases found
  case sqrt =>
    refine passes_reciprocal ?_ rfl
    exact passes_node.mpr ⟨passes_integer 2, passes_copy onCall, rfl⟩
  case exp => exact passes_copy onCall
  case sin => exact passes_call nofun (passes_copy passes)
  case cos => exact passes_negate (passes_call nofun (passes_copy passes))
  case tan => exact passes_reciprocal (passes_squareOf nofun passes) rfl
  case cot => exact passes_negate (passes_reciprocal (passes_squareOf nofun passes) rfl)
  case arcsin => exact passes_arcsine passes
  case arccos => exact passes_negate (passes_arcsine passes)
  case arctan => exact passes_arctangent passes
  case arccot => exact passes_negate (passes_arctangent passes)

/-! ## Rules -/

section
variable {du dv : Draft} (onLeft : u.Passes) (onRight : v.Passes) (left : du.tree.Passes)
  (right : dv.tree.Passes)
include onLeft onRight left

/-- The exponent that is built is a difference, whatever the exponent of the power is. -/
theorem passes_ofPower : (ofPower u v du).tree.Passes := by
  have exponent : (binary .sub (copy v) (integer 1)).tree.Passes :=
    passes_node.mpr ⟨passes_copy onRight, passes_integer 1, rfl⟩
  have power : (binaryBackwards .pow (copy u) (binary .sub (copy v) (integer 1))).tree.Passes :=
    passes_binary (passes_copy onLeft) exponent rfl
  exact passes_node.mpr ⟨left, passes_node.mpr ⟨passes_copy onRight, power, rfl⟩, rfl⟩

include right

theorem passes_products :
    (binary .mul du (copy v)).tree.Passes ∧ (binary .mul (copy u) dv).tree.Passes :=
  ⟨passes_node.mpr ⟨left, passes_copy onRight, rfl⟩,
    passes_node.mpr ⟨passes_copy onLeft, right, rfl⟩⟩

theorem passes_ofProduct : (ofProduct u v du dv).tree.Passes := by
  obtain ⟨first, second⟩ := passes_products onLeft onRight left right
  exact passes_node.mpr ⟨first, second, rfl⟩

theorem passes_ofQuotient : (ofQuotient u v du dv).tree.Passes := by
  obtain ⟨first, second⟩ := passes_products onLeft onRight left right
  exact passes_node.mpr ⟨passes_node.mpr ⟨first, second, rfl⟩, passes_square onRight, rfl⟩

end

/-- The derivative of a tree that passes the check passes it. -/
theorem passes_of (shaped : t.WellShaped) (passes : t.Passes) : (of t).tree.Passes := by
  induction shaped with
  | @leaf kind span noOperator =>
    cases kind with
    | operator => cases noOperator
    | integer | fraction | var | param => exact passes_integer _
  | negation onOperand ih =>
    obtain ⟨-, operand, -⟩ := passes_node.mp passes
    rw [of_negation onOperand.ne_absent]
    exact passes_negate (ih operand)
  | @binary op span left right onLeft onRight ihLeft ihRight =>
    obtain ⟨first, second, -⟩ := passes_node.mp passes
    rw [of_binary onLeft.ne_absent onRight.ne_absent]
    cases op with
    | add | sub => exact passes_node.mpr ⟨ihLeft first, ihRight second, rfl⟩
    | mul => exact passes_ofProduct first second (ihLeft first) (ihRight second)
    | div => exact passes_ofQuotient first second (ihLeft first) (ihRight second)
    | pow => exact passes_ofPower first second (ihLeft first)
  | @call f span argument onArgument ih =>
    obtain ⟨-, operand, -⟩ := passes_node.mp passes
    have derived := ih operand
    rw [of_call onArgument.ne_absent, ofCall]
    cases found : outer? (.node (.operator (.apply f)) span .absent argument) argument f with
    | some outer => exact passes_node.mpr ⟨passes_outer passes operand found, derived, rfl⟩
    | none =>
      -- Only the logarithm has no outer derivative.
      obtain rfl : f = .log := by cases f <;> first | rfl | cases found
      have nonzero := isZero_of_passes_log passes
      refine passes_binary derived (passes_copy operand) ?_
      rwa [tree_copy]

end Derivative

namespace Function

variable {f : Function}

theorem check_eq_ok_iff (formed : f.body.WellFormed) :
    f.check = .ok () ↔ f.body.tree.Passes := by
  rw [check_eq formed, Tree.Passes]
  cases f.body.tree.faults with
  | nil => exact iff_of_true rfl rfl
  | cons fault others => exact iff_of_false nofun nofun

/-- The derivative of a function that passes the check passes it, and so do its derivatives. -/
theorem check_iterate_derivative (formed : f.body.WellFormed) (passes : f.check = .ok ())
    (n : Nat) : (derivative^[n] f).check = .ok () := by
  induction n generalizing f with
  | zero => exact passes
  | succ n ih =>
    rw [Function.iterate_succ_apply]
    have derived := wellFormed_body_derivative f formed
    refine ih derived ((check_eq_ok_iff derived).mpr ?_)
    rw [tree_body_derivative f formed]
    exact Derivative.passes_of formed.tree ((check_eq_ok_iff formed).mp passes)

/-- The definition `f(x)=log(2*x)^0/(0-x)`. -/
def powerOfLogarithm : Definition :=
  ⟨"f", "x", .binary .div
    (.binary .pow
      (.call .log (.binary .mul (.integer 2 ⟨9, 10⟩) (.name "x" ⟨11, 12⟩) ⟨9, 12⟩) ⟨5, 13⟩)
      (.integer 0 ⟨14, 15⟩) ⟨5, 15⟩)
    (.binary .sub (.integer 0 ⟨17, 18⟩) (.name "x" ⟨19, 20⟩) ⟨17, 20⟩) ⟨5, 20⟩⟩

theorem check_iterate_derivative_powerOfLogarithm :
    let f := ofDefinition powerOfLogarithm
    Definition.parse "f(x)=log(2*x)^0/(0-x)" = .ok powerOfLogarithm ∧ f.body.WellFormed ∧
      f.check = .ok () ∧ (derivative^[2] f).check = .ok () := by
  have formed := wellFormed_body_ofDefinition powerOfLogarithm
  have passes : (ofDefinition powerOfLogarithm).check = .ok () := by decide +kernel
  exact ⟨by decide +kernel, formed, passes, check_iterate_derivative formed passes 2⟩

-- The derivative of a logarithm divides by the argument, so the check of `log(0)` has to come first.
example :
    (parse "f(x)=log(0)").toOption.map (fun f => f.derivative.check) =
      some (.error ⟨.divisionByZero, [.nowhere]⟩) := by
  decide +kernel

-- Simplification does not keep what derivatives keep: it makes `1/0` of this denominator.
example :
    (parse "f(x)=1/(0*x)").toOption.map (fun f => (f.check, f.simplify.check)) =
      some (.ok (), .error ⟨.divisionByZero, [⟨5, 11⟩]⟩) := by
  decide +kernel

end Function
end Fluxion
