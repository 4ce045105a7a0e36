import Fluxion.Proofs.Tree.Value
import Mathlib.RingTheory.Derivation.Basic
/- What has to hold of a derivation for derivatives of expressions to be right (`IsDifferential`):
   the variable is differentiated to one, literals and parameters to zero, and elementary functions
   and powers obey their laws from the textbook. Functions and powers are partial, so every law is
   asked for only where both of its sides are defined. Sums, products and quotients need no law,
   since the derivation of a field has them.

   Expressions without the variable (`IsConstant`) are constants then: whatever value they have is
   differentiated to zero (`derivation_eq_zero`). This is needed for exponents, which the rules
   treat as constants (`HasConstantExponents`). The laws can be satisfied with a variable that is no
   constant; `Fluxion.Proofs.Derivative.RationalFunction` has a field in which they hold. -/
namespace Fluxion

variable {K : Type*} [Field K]

/-- The variable is differentiated to one, literals and parameters to zero, and functions
    and powers obey their laws. A square in a law is the power with exponent two. -/
structure Interpretation.IsDifferential (ι : Interpretation K) (D : Derivation ℤ K K) : Prop where
  var : D ι.var = 1
  param : ∀ index, D (ι.param index) = 0
  fraction : ∀ x, D (ι.fraction x) = 0
  sin : ∀ v s c, ι.call .sin v = some s → ι.call .cos v = some c → D s = c * D v
  cos : ∀ v c s, ι.call .cos v = some c → ι.call .sin v = some s → D c = -s * D v
  tan : ∀ v t c w, ι.call .tan v = some t → ι.call .cos v = some c → ι.power c 2 = some w →
    w ≠ 0 → D t = D v / w
  cot : ∀ v t s w, ι.call .cot v = some t → ι.call .sin v = some s → ι.power s 2 = some w →
    w ≠ 0 → D t = -(D v / w)
  arcsin : ∀ v a w q, ι.call .arcsin v = some a → ι.power v 2 = some w →
    ι.call .sqrt (1 - w) = some q → q ≠ 0 → D a = D v / q
  arccos : ∀ v a w q, ι.call .arccos v = some a → ι.power v 2 = some w →
    ι.call .sqrt (1 - w) = some q → q ≠ 0 → D a = -(D v / q)
  arctan : ∀ v a w, ι.call .arctan v = some a → ι.power v 2 = some w → 1 + w ≠ 0 →
    D a = D v / (1 + w)
  arccot : ∀ v a w, ι.call .arccot v = some a → ι.power v 2 = some w → 1 + w ≠ 0 →
    D a = -(D v / (1 + w))
  exp : ∀ v e, ι.call .exp v = some e → D e = e * D v
  log : ∀ v l, ι.call .log v = some l → v ≠ 0 → D l = D v / v
  sqrt : ∀ v q, ι.call .sqrt v = some q → 2 * q ≠ 0 → D q = D v / (2 * q)
  square : ∀ u w, ι.power u 2 = some w → w = u * u
  power : ∀ u c w w', D c = 0 → ι.power u c = some w → ι.power u (c - 1) = some w' →
    D w = c * w' * D u
  constantCall : ∀ f v w, ι.call f v = some w → D v = 0 → D w = 0
  constantPower : ∀ u c w, ι.power u c = some w → D u = 0 → D c = 0 → D w = 0

namespace Tree

/-- The variable does not occur. -/
def IsConstant : Tree → Prop
  | absent => True
  | node kind _ left right => kind ≠ .var ∧ left.IsConstant ∧ right.IsConstant

instance IsConstant.decidable : (t : Tree) → Decidable t.IsConstant
  | absent => .isTrue trivial
  | node kind _ left right =>
    have := decidable left
    have := decidable right
    inferInstanceAs (Decidable (kind ≠ .var ∧ left.IsConstant ∧ right.IsConstant))

/-- The variable does not occur in any exponent. -/
def HasConstantExponents : Tree → Prop
  | absent => True
  | node kind _ left right =>
    left.HasConstantExponents ∧ right.HasConstantExponents ∧
      (kind = .operator (.binary .pow) → right.IsConstant)

end Tree

variable [DecidableEq K] {ι : Interpretation K} {D : Derivation ℤ K K}

/-- Operations take constants to constants. -/
theorem Interpretation.IsDifferential.operation?_eq_zero (differential : ι.IsDifferential D)
    {op : BinaryOp} {u v w : K} (operation : ι.operation? op u v = some w) (left : D u = 0)
    (right : D v = 0) : D w = 0 := by
  cases op with
  | add =>
    cases operation
    rw [D.map_add, left, right, add_zero]
  | sub =>
    cases operation
    rw [D.map_sub, left, right, sub_zero]
  | mul =>
    cases operation
    rw [D.leibniz, left, right, smul_zero, smul_zero, add_zero]
  | div =>
    obtain ⟨-, rfl⟩ := operation?_div.mp operation
    rw [D.leibniz_div_const _ _ right, left, smul_zero]
  | pow => exact differential.constantPower u v w operation left right

namespace Tree

/-- What does not depend on the variable has a constant value. -/
theorem IsConstant.derivation_eq_zero (differential : ι.IsDifferential D) {t : Tree}
    (constant : t.IsConstant) {v : K} (value : t.value? ι = some v) : D v = 0 := by
  induction t generalizing v with
  | absent => cases value
  | node kind span left right ihLeft ihRight =>
    obtain ⟨noVar, onLeft, onRight⟩ := constant
    obtain n | x | _ | index | (op | f) := kind
    case integer =>
      cases value
      exact D.map_intCast _
    case fraction =>
      cases value
      exact differential.fraction x
    case var => exact absurd rfl noVar
    case param =>
      cases value
      exact differential.param index
    case operator.binary =>
      obtain ⟨rfl, rfl, w, operand, rfl⟩ | ⟨u, w, first, second, operation⟩ := value?_operator value
      · rw [D.map_neg, ihRight onRight operand, neg_zero]
      · exact differential.operation?_eq_zero operation (ihLeft onLeft first)
          (ihRight onRight second)
    case operator.apply =>
      obtain ⟨w, argument, call⟩ := value?_call.mp value
      exact differential.constantCall f w v call (ihRight onRight argument)

end Tree
end Fluxion
