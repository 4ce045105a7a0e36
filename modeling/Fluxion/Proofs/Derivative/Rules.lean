import Fluxion.Derivative
import Fluxion.Proofs.Derivative.Laws
import Fluxion.Proofs.Tree.Shape
import Mathlib.Tactic.FieldSimp
import Mathlib.Tactic.Ring
/- The value of a derivative is the derivative of the value. Each part that derivatives are built
   from, such as a reciprocal, a square or the arcsine's root, has a lemma that says what it is
   worth where it has a value. Each rule has one that says that this is the derivative:
   `value?_outer` and `value?_ofCall` for the elementary functions and the chain rule,
   `value?_ofProduct`, `value?_ofQuotient` and `value?_ofPower` for the operators.

   The lemmas take the values of the operands and of their derivatives as given, so they are about
   one node at a time and do not recurse. The induction over the tree that puts the rules together
   is in `Fluxion.Proofs.Derivative.Correctness`. A power is differentiated by its law only if its
   exponent is a constant. -/
namespace Fluxion
namespace Derivative

open Draft

variable {K : Type*} [Field K] [DecidableEq K] {ι : Interpretation K} {D : Derivation ℤ K K}
  {u v : Tree} {du dv : Draft} {f : Elementary} {a b d w : K}

/-! ## Parts of derivatives -/

theorem value?_zero (value : (integer 0).tree.value? ι = some w) : w = 0 := by
  cases value
  exact Int.cast_zero

theorem value?_one (value : (integer 1).tree.value? ι = some w) : w = 1 := by
  cases value
  exact Int.cast_one

theorem value?_two (value : (integer 2).tree.value? ι = some w) : w = 2 := by
  cases value
  exact Int.cast_ofNat 2

theorem value?_copy (argument : v.value? ι = some b) (value : (copy v).tree.value? ι = some w) :
    w = b := by
  rw [tree_copy, argument] at value
  exact (Option.some.inj value).symm

theorem value?_apply (argument : v.value? ι = some b)
    (value : (apply f (copy v)).tree.value? ι = some w) : ι.call f b = some w := by
  obtain ⟨x, known, call⟩ := Tree.value?_call.mp value
  rwa [value?_copy argument known] at call

theorem value?_reciprocal (value : (reciprocal dv).tree.value? ι = some w) :
    ∃ e, dv.tree.value? ι = some e ∧ e ≠ 0 ∧ w = 1 / e := by
  obtain ⟨x, e, one, denominator, operation⟩ := Tree.value?_operands value nofun
  obtain ⟨nonzero, rfl⟩ := Interpretation.operation?_div.mp operation
  exact ⟨e, denominator, nonzero, by rw [value?_one one]⟩

theorem value?_square (argument : v.value? ι = some b)
    (value : (square v).tree.value? ι = some w) : ι.power b 2 = some w := by
  obtain ⟨x, y, base, two, operation⟩ := Tree.value?_operands value nofun
  rwa [value?_copy argument base, value?_two two] at operation

theorem value?_squareOf (argument : v.value? ι = some b)
    (value : (squareOf f v).tree.value? ι = some w) :
    ∃ c, ι.call f b = some c ∧ ι.power c 2 = some w := by
  obtain ⟨c, y, base, two, operation⟩ := Tree.value?_operands value nofun
  rw [value?_two two] at operation
  exact ⟨c, value?_apply argument base, operation⟩

theorem value?_arcsine (argument : v.value? ι = some b)
    (value : (arcsine v).tree.value? ι = some w) :
    ∃ s q, ι.power b 2 = some s ∧ ι.call .sqrt (1 - s) = some q ∧ q ≠ 0 ∧ w = 1 / q := by
  obtain ⟨q, root, nonzero, rfl⟩ := value?_reciprocal value
  obtain ⟨x, difference, call⟩ := Tree.value?_call.mp root
  obtain ⟨y, s, one, squared, operation⟩ := (Tree.value?_binary Tree.noConfusion).mp difference
  cases operation
  rw [value?_one one] at call
  exact ⟨s, q, value?_square argument squared, call, nonzero, rfl⟩

theorem value?_arctangent (argument : v.value? ι = some b)
    (value : (arctangent v).tree.value? ι = some w) :
    ∃ s, ι.power b 2 = some s ∧ 1 + s ≠ 0 ∧ w = 1 / (1 + s) := by
  obtain ⟨x, sum, nonzero, rfl⟩ := value?_reciprocal value
  obtain ⟨y, s, one, squared, operation⟩ := Tree.value?_operands sum nofun
  cases operation
  rw [value?_one one] at nonzero ⊢
  exact ⟨s, value?_square argument squared, nonzero, rfl⟩

/-! ## Rules -/

variable (differential : ι.IsDifferential D)
include differential

/-- The chain rule, but for the factor that comes from the argument. -/
theorem value?_outer {t : Tree} {c : K} {outer : Draft} (argument : v.value? ι = some b)
    (call : ι.call f b = some c) (onCall : t.value? ι = some c) (found : outer? t v f = some outer)
    (value : outer.tree.value? ι = some w) : w * D b = D c := by
  cases f with
  | sqrt =>
    cases found
    obtain ⟨x, product, nonzero, rfl⟩ := value?_reciprocal value
    obtain ⟨y, z, two, root, operation⟩ := Tree.value?_operands product nofun
    cases operation
    rw [value?_two two, value?_copy onCall root] at nonzero ⊢
    rw [differential.sqrt b c call nonzero, div_mul_eq_mul_div, one_mul]
  | exp =>
    cases found
    rw [value?_copy onCall value, differential.exp b c call]
  | log => cases found
  | sin =>
    cases found
    rw [differential.sin b c w call (value?_apply argument value)]
  | cos =>
    cases found
    obtain ⟨s, sine, rfl⟩ := Tree.value?_negation.mp value
    rw [differential.cos b c s call (value?_apply argument sine)]
  | tan =>
    cases found
    obtain ⟨x, squared, nonzero, rfl⟩ := value?_reciprocal value
    obtain ⟨s, cosine, power⟩ := value?_squareOf argument squared
    rw [differential.tan b c s x call cosine power nonzero, div_mul_eq_mul_div, one_mul]
  | cot =>
    cases found
    obtain ⟨y, quotient, rfl⟩ := Tree.value?_negation.mp value
    obtain ⟨x, squared, nonzero, rfl⟩ := value?_reciprocal quotient
    obtain ⟨s, sine, power⟩ := value?_squareOf argument squared
    rw [differential.cot b c s x call sine power nonzero, neg_mul, div_mul_eq_mul_div, one_mul]
  | arcsin =>
    cases found
    obtain ⟨s, q, power, root, nonzero, rfl⟩ := value?_arcsine argument value
    rw [differential.arcsin b c s q call power root nonzero, div_mul_eq_mul_div, one_mul]
  | arccos =>
    cases found
    obtain ⟨y, quotient, rfl⟩ := Tree.value?_negation.mp value
    obtain ⟨s, q, power, root, nonzero, rfl⟩ := value?_arcsine argument quotient
    rw [differential.arccos b c s q call power root nonzero, neg_mul, div_mul_eq_mul_div, one_mul]
  | arctan =>
    cases found
    obtain ⟨s, power, nonzero, rfl⟩ := value?_arctangent argument value
    rw [differential.arctan b c s call power nonzero, div_mul_eq_mul_div, one_mul]
  | arccot =>
    cases found
    obtain ⟨y, quotient, rfl⟩ := Tree.value?_negation.mp value
    obtain ⟨s, power, nonzero, rfl⟩ := value?_arctangent argument quotient
    rw [differential.arccot b c s call power nonzero, neg_mul, div_mul_eq_mul_div, one_mul]

theorem value?_ofCall {t : Tree} {c : K} (argument : v.value? ι = some b)
    (call : ι.call f b = some c) (onCall : t.value? ι = some c)
    (inner : ∀ e, dv.tree.value? ι = some e → e = D b)
    (value : (ofCall f t v dv).tree.value? ι = some d) : d = D c := by
  rw [ofCall] at value
  cases found : outer? t v f with
  | some outer =>
    rw [found] at value
    obtain ⟨x, y, first, second, operation⟩ := Tree.value?_operands value nofun
    cases operation
    rw [inner y second, value?_outer differential argument call onCall found first]
  | none =>
    -- Only the logarithm has no outer derivative.
    obtain rfl : f = .log := by cases f <;> first | rfl | cases found
    rw [found] at value
    obtain ⟨x, y, first, second, operation⟩ := Tree.value?_operands value nofun
    obtain ⟨nonzero, rfl⟩ := Interpretation.operation?_div.mp operation
    rw [value?_copy argument second] at nonzero ⊢
    rw [inner x first, differential.log b c call nonzero]

section Operands
variable (left : u.value? ι = some a) (right : v.value? ι = some b)
  (onLeft : ∀ e, du.tree.value? ι = some e → e = D a)
  (onRight : ∀ e, dv.tree.value? ι = some e → e = D b)
include left right onLeft onRight

omit differential in
theorem value?_ofProduct (value : (ofProduct u v du dv).tree.value? ι = some d) : d = D (a * b) := by
  obtain ⟨x, y, first, second, sum⟩ := Tree.value?_operands value nofun
  obtain ⟨x₁, x₂, leftDerivative, rightCopy, product⟩ := Tree.value?_operands first nofun
  obtain ⟨y₁, y₂, leftCopy, rightDerivative, product'⟩ := Tree.value?_operands second nofun
  cases sum
  cases product
  cases product'
  rw [onLeft x₁ leftDerivative, value?_copy right rightCopy, value?_copy left leftCopy,
    onRight y₂ rightDerivative, D.leibniz, smul_eq_mul, smul_eq_mul]
  ring

theorem value?_ofQuotient (value : (ofQuotient u v du dv).tree.value? ι = some d) :
    d = D (a / b) := by
  obtain ⟨x, y, numerator, denominator, quotient⟩ := Tree.value?_operands value nofun
  obtain ⟨x₁, x₂, first, second, difference⟩ := (Tree.value?_binary Tree.noConfusion).mp numerator
  obtain ⟨p, q, leftDerivative, rightCopy, product⟩ := Tree.value?_operands first nofun
  obtain ⟨r, s, leftCopy, rightDerivative, product'⟩ := Tree.value?_operands second nofun
  obtain ⟨nonzero, rfl⟩ := Interpretation.operation?_div.mp quotient
  cases difference
  cases product
  cases product'
  have squared := differential.square b y (value?_square right denominator)
  rw [squared] at nonzero ⊢
  -- The square has a reciprocal, so the denominator has one, too.
  have denominatorNonzero : b ≠ 0 := left_ne_zero_of_mul nonzero
  rw [onLeft p leftDerivative, value?_copy right rightCopy, value?_copy left leftCopy,
    onRight s rightDerivative, D.leibniz_div, smul_eq_mul, smul_eq_mul, smul_eq_mul]
  field_simp

omit onRight in
theorem value?_ofPower {c : K} (constant : D b = 0) (power : ι.power a b = some c)
    (value : (ofPower u v du).tree.value? ι = some d) : d = D c := by
  obtain ⟨x, y, leftDerivative, rest, product⟩ := Tree.value?_operands value nofun
  obtain ⟨p, q, rightCopy, lower, product'⟩ := Tree.value?_operands rest nofun
  obtain ⟨r, s, leftCopy, exponent, operation⟩ := Tree.value?_operands lower nofun
  have there : (copy v).tree ≠ .absent := by
    rw [tree_copy]
    exact Tree.ne_absent_of_value? right
  obtain ⟨n, m, rightCopy', one, difference⟩ := (Tree.value?_binary there).mp exponent
  cases product
  cases product'
  cases difference
  rw [value?_copy left leftCopy, value?_copy right rightCopy', value?_one one] at operation
  rw [onLeft x leftDerivative, value?_copy right rightCopy,
    differential.power a b c q constant power operation]
  ring

end Operands

end Derivative
end Fluxion
