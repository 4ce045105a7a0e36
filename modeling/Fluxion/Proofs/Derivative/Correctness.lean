import Fluxion.Proofs.Derivative.RationalFunction
import Fluxion.Proofs.Derivative.Rules
import Fluxion.Proofs.Function.Bodies
/- Derivatives of bodies. The derivative of a well-shaped tree is well shaped again
   (`wellShaped_of`), so the body of a derivative holds what was drafted (`tree_body_derivative`)
   and fills an arena of its own (`fills_body_derivative`). Where both bodies have a value, the
   value of the one is the derivative of the value of the other (`derivative_is_derivative`).

   Values are in any field with a derivation, which has to obey the laws of `IsDifferential` where
   these are defined; what that comes to for rational functions is shown with the example. Of the
   tree it is asked that no exponent holds the variable, since exponents are treated as constants.
   The induction over the tree (`value?_of`) puts together one lemma for each rule from
   `Fluxion.Proofs.Derivative.Rules`. A body may have a value where its derivative has none, as a
   root has at zero. -/
namespace Fluxion
namespace Derivative

open Draft

variable {t u v : Tree} {span : Span}

/-! ## What the derivative of a tree is -/

theorem of_negation (there : v ≠ .absent) :
    of (.node (.operator (.binary .sub)) span .absent v) = negate (of v) := by
  cases v with
  | absent => exact absurd rfl there
  | node => rfl

theorem of_call {f : Elementary} (there : v ≠ .absent) :
    of (.node (.operator (.apply f)) span .absent v) =
      ofCall f (.node (.operator (.apply f)) span .absent v) v (of v) := by
  cases v with
  | absent => exact absurd rfl there
  | node => rfl

theorem of_binary {op : BinaryOp} (left : u ≠ .absent) (right : v ≠ .absent) :
    of (.node (.operator (.binary op)) span u v) = match op with
      | .add => binary .add (of u) (of v)
      | .sub => binary .sub (of u) (of v)
      | .mul => ofProduct u v (of u) (of v)
      | .div => ofQuotient u v (of u) (of v)
      | .pow => ofPower u v (of u) := by
  cases u with
  | absent => exact absurd rfl left
  | node =>
    cases v with
    | absent => exact absurd rfl right
    | node => cases op <;> rfl

/-! ## Shapes -/

theorem wellShaped_integer (n : Int64) : (integer n).tree.WellShaped := .leaf rfl

theorem wellShaped_copy (shaped : t.WellShaped) : (copy t).tree.WellShaped := by
  rwa [tree_copy]

theorem wellShaped_square (shaped : v.WellShaped) : (square v).tree.WellShaped :=
  .binary (wellShaped_copy shaped) (wellShaped_integer 2)

theorem wellShaped_squareOf (f : Elementary) (shaped : v.WellShaped) :
    (squareOf f v).tree.WellShaped :=
  .binary (.call (wellShaped_copy shaped)) (wellShaped_integer 2)

theorem wellShaped_reciprocal {d : Draft} (shaped : d.tree.WellShaped) :
    (reciprocal d).tree.WellShaped :=
  .binary (wellShaped_integer 1) shaped

theorem wellShaped_arcsine (shaped : v.WellShaped) : (arcsine v).tree.WellShaped :=
  wellShaped_reciprocal (.call (.binary (wellShaped_integer 1) (wellShaped_square shaped)))

theorem wellShaped_arctangent (shaped : v.WellShaped) : (arctangent v).tree.WellShaped :=
  wellShaped_reciprocal (.binary (wellShaped_integer 1) (wellShaped_square shaped))

theorem wellShaped_outer {f : Elementary} {outer : Draft} (onCall : t.WellShaped)
    (shaped : v.WellShaped) (found : outer? t v f = some outer) : outer.tree.WellShaped := by
  cases f <;> cases found
  case sqrt => exact wellShaped_reciprocal (.binary (wellShaped_integer 2) (wellShaped_copy onCall))
  case exp => exact wellShaped_copy onCall
  case sin => exact .call (wellShaped_copy shaped)
  case cos => exact .negation (.call (wellShaped_copy shaped))
  case tan => exact wellShaped_reciprocal (wellShaped_squareOf .cos shaped)
  case cot => exact .negation (wellShaped_reciprocal (wellShaped_squareOf .sin shaped))
  case arcsin => exact wellShaped_arcsine shaped
  case arccos => exact .negation (wellShaped_arcsine shaped)
  case arctan => exact wellShaped_arctangent shaped
  case arccot => exact .negation (wellShaped_arctangent shaped)

theorem wellShaped_of (shaped : t.WellShaped) : (of t).tree.WellShaped := by
  induction shaped with
  | @leaf kind span noOperator =>
    cases kind with
    | operator => cases noOperator
    | integer | fraction | var | param => exact wellShaped_integer _
  | negation onOperand ih =>
    rw [of_negation onOperand.ne_absent]
    exact .negation ih
  | @binary op span left right onLeft onRight ihLeft ihRight =>
    have copyLeft := wellShaped_copy onLeft
    have copyRight := wellShaped_copy onRight
    rw [of_binary onLeft.ne_absent onRight.ne_absent]
    cases op with
    | add => exact .binary ihLeft ihRight
    | sub => exact .binary ihLeft ihRight
    | mul => exact .binary (.binary ihLeft copyRight) (.binary copyLeft ihRight)
    | div =>
      exact .binary (.binary (.binary ihLeft copyRight) (.binary copyLeft ihRight))
        (wellShaped_square onRight)
    | pow =>
      exact .binary ihLeft (.binary copyRight
        (.binary copyLeft (.binary copyRight (wellShaped_integer 1))))
  | @call f span argument onArgument ih =>
    rw [of_call onArgument.ne_absent, ofCall]
    split
    · next found => exact .binary (wellShaped_outer (.call onArgument) onArgument found) ih
    · exact .binary ih (wellShaped_copy onArgument)

/-! ## Values -/

section Value
variable {K : Type*} [Field K] [DecidableEq K] {ι : Interpretation K} {D : Derivation ℤ K K}

/-- Where a tree and its derivative have values, one is the derivative of the other. -/
theorem value?_of (differential : ι.IsDifferential D) (shaped : t.WellShaped)
    (exponents : t.HasConstantExponents) {a d : K} (value : t.value? ι = some a)
    (derived : (of t).tree.value? ι = some d) : d = D a := by
  induction shaped generalizing a d with
  | @leaf kind span noOperator =>
    cases kind with
    | operator => cases noOperator
    | integer =>
      cases value
      rw [value?_zero derived, D.map_intCast]
    | fraction =>
      cases value
      rw [value?_zero derived, differential.fraction]
    | var =>
      cases value
      rw [value?_one derived, differential.var]
    | param =>
      cases value
      rw [value?_zero derived, differential.param]
  | negation onOperand ih =>
    rw [of_negation onOperand.ne_absent] at derived
    obtain ⟨b, operand, rfl⟩ := Tree.value?_negation.mp value
    obtain ⟨e, operandDerived, rfl⟩ := Tree.value?_negation.mp derived
    rw [ih exponents.2.1 operand operandDerived, D.map_neg]
  | @binary op span left right onLeft onRight ihLeft ihRight =>
    rw [of_binary onLeft.ne_absent onRight.ne_absent] at derived
    obtain ⟨b, c, first, second, operation⟩ := (Tree.value?_binary onLeft.ne_absent).mp value
    -- Rules do not use the derivatives of all operands, so these may have no value.
    have inLeft : ∀ e, (of left).tree.value? ι = some e → e = D b :=
      fun e => ihLeft exponents.1 first
    have inRight : ∀ e, (of right).tree.value? ι = some e → e = D c :=
      fun e => ihRight exponents.2.1 second
    cases op with
    | add =>
      obtain ⟨x, y, leftDerived, rightDerived, sum⟩ := Tree.value?_operands derived nofun
      cases operation
      cases sum
      rw [inLeft x leftDerived, inRight y rightDerived, D.map_add]
    | sub =>
      obtain ⟨x, y, leftDerived, rightDerived, difference⟩ :=
        (Tree.value?_binary (wellShaped_of onLeft).ne_absent).mp derived
      cases operation
      cases difference
      rw [inLeft x leftDerived, inRight y rightDerived, D.map_sub]
    | mul =>
      cases operation
      exact value?_ofProduct first second inLeft inRight derived
    | div =>
      obtain ⟨-, rfl⟩ := Interpretation.operation?_div.mp operation
      exact value?_ofQuotient differential first second inLeft inRight derived
    | pow =>
      have constant := (exponents.2.2 rfl).derivation_eq_zero differential second
      exact value?_ofPower differential first second inLeft constant operation derived
  | @call f span argument onArgument ih =>
    rw [of_call onArgument.ne_absent] at derived
    obtain ⟨b, known, call⟩ := Tree.value?_call.mp value
    exact value?_ofCall differential known call value (fun e => ih exponents.2.1 known) derived

end Value
end Derivative

namespace Function

/-- The body of a derivative fills an arena of its own. -/
theorem fills_body_derivative (f : Function) (formed : f.body.WellFormed) :
    ∃ L, f.derivative.body.Fills L ∧ L.tree = (Derivative.of f.body.tree).tree := by
  have shaped := Derivative.wellShaped_of formed.tree
  obtain ⟨L, holds, -⟩ := formed
  rw [derivative, holds.rootTree_eq]
  rw [holds.tree_eq] at shaped ⊢
  exact Arena.fills_ofDraft shaped.ne_absent

theorem tree_body_derivative (f : Function) (formed : f.body.WellFormed) :
    f.derivative.body.tree = (Derivative.of f.body.tree).tree := by
  obtain ⟨L, fills, tree⟩ := fills_body_derivative f formed
  rw [fills.holds.tree_eq, tree]

theorem wellFormed_body_derivative (f : Function) (formed : f.body.WellFormed) :
    f.derivative.body.WellFormed := by
  obtain ⟨L, fills, tree⟩ := fills_body_derivative f formed
  refine ⟨L, fills.holds, ?_⟩
  rw [tree]
  exact Derivative.wellShaped_of formed.tree

variable {K : Type*} [Field K] [DecidableEq K] {ι : Interpretation K} {D : Derivation ℤ K K}

/-- The derivative of a function is its derivative: where both bodies have a value, the
    derivation takes the value of the function to that of the derivative. -/
theorem derivative_is_derivative (differential : ι.IsDifferential D) (f : Function)
    (formed : f.body.WellFormed) (exponents : f.body.tree.HasConstantExponents) {a d : K}
    (value : f.body.tree.value? ι = some a) (derived : f.derivative.body.tree.value? ι = some d) :
    d = D a := by
  rw [tree_body_derivative f formed] at derived
  exact Derivative.value?_of differential formed.tree exponents value derived

/-- The definition `f(x) = 1/sqrt(x^2)`. -/
def reciprocalOfRoot : Definition :=
  ⟨"f", "x", .binary .div (.integer 1 ⟨5, 6⟩)
    (.call .sqrt (.binary .pow (.name "x" ⟨12, 13⟩) (.integer 2 ⟨14, 15⟩) ⟨12, 15⟩) ⟨7, 16⟩)
    ⟨5, 16⟩⟩

open Classical RationalFunction in
theorem derivative_is_derivative_reciprocalOfRoot :
    (ofDefinition reciprocalOfRoot).body.WellFormed ∧
      (ofDefinition reciprocalOfRoot).body.tree.HasConstantExponents ∧
      interpretation.IsDifferential derivation ∧
      (ofDefinition reciprocalOfRoot).body.tree.value? interpretation = some (1 / x) ∧
      ∃ d, (ofDefinition reciprocalOfRoot).derivative.body.tree.value? interpretation = some d ∧
        d = derivation (1 / x) := by
  have formed := wellFormed_body_ofDefinition reciprocalOfRoot
  have exponents : (ofDefinition reciprocalOfRoot).body.tree.HasConstantExponents := by
    rw [tree_body_ofDefinition]
    simp [reciprocalOfRoot, Term.resolve, Tree.leaf, Tree.HasConstantExponents, Tree.IsConstant]
  have value : (ofDefinition reciprocalOfRoot).body.tree.value? interpretation = some (1 / x) := by
    rw [tree_body_ofDefinition]
    simp [reciprocalOfRoot, Term.resolve, Tree.leaf, Tree.value?, interpretation,
      Interpretation.operation?, power_two, call, x_ne_zero]
  have lower : power x (2 - 1) = some (x ^ 1) := by
    rw [← power_natCast, Nat.cast_one, ← one_add_one_eq_two, add_sub_cancel_right]
  obtain ⟨d, derived⟩ : ∃ d,
      (ofDefinition reciprocalOfRoot).derivative.body.tree.value? interpretation = some d := by
    rw [tree_body_derivative _ formed, tree_body_ofDefinition]
    simp [reciprocalOfRoot, Term.resolve, Tree.leaf, Derivative.of, Derivative.ofQuotient,
      Derivative.ofCall, Derivative.outer?, Derivative.ofPower, Derivative.square,
      Derivative.reciprocal, Draft.binary, Draft.binaryBackwards, Draft.integer, Draft.tree,
      Draft.tree_copy, Tree.value?, interpretation, Interpretation.operation?, power_two, lower,
      call, x_ne_zero]
  exact ⟨formed, exponents, isDifferential, value, d, derived,
    derivative_is_derivative isDifferential _ formed exponents value derived⟩

end Function
end Fluxion
