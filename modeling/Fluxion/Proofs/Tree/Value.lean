import Fluxion.Tree
import Mathlib.Algebra.Field.Basic
/- What an expression is worth in a field (`value?`). The field is given together with what the
   leaves, the elementary functions and powers stand for in it (`Interpretation`), so the same
   expression may be looked at in the rational numbers, in the real numbers and in rational
   functions. Integer literals are the integers of the field.

   Evaluation is strict: an operator has a value only where all its operands have one, a quotient
   only by what is not zero, and functions and powers are partial. No law is built in for functions
   and powers; theorems ask for the ones that they need. The lemmas give the value of a node from
   those of its operands, one for each form of node (`value?_call`, `value?_negation`,
   `value?_binary`), and back from the value of a node to its operands (`value?_operator`,
   `value?_operands`). -/
namespace Fluxion

/-- What the leaves, the elementary functions and powers stand for in a field. -/
structure Interpretation (K : Type*) where
  var : K
  param : Nat → K
  fraction : Binary64 → K
  call : Elementary → K → Option K
  power : K → K → Option K

variable {K : Type*} [Field K] [DecidableEq K]

/-- The value of an operation between two values. -/
def Interpretation.operation? (ι : Interpretation K) : BinaryOp → K → K → Option K
  | .add, u, v => some (u + v)
  | .sub, u, v => some (u - v)
  | .mul, u, v => some (u * v)
  | .div, u, v => if v = 0 then none else some (u / v)
  | .pow, u, v => ι.power u v

theorem Interpretation.operation?_div {ι : Interpretation K} {a b w : K} :
    ι.operation? .div a b = some w ↔ b ≠ 0 ∧ a / b = w := by
  rw [operation?]
  by_cases zero : b = 0
  · simp [zero]
  · simp [zero]

namespace Tree

/-- The value of an expression, if it has one. -/
def value? (ι : Interpretation K) : Tree → Option K
  | absent => none
  | node (.integer n) .. => some n.toInt
  | node (.fraction x) .. => some (ι.fraction x)
  | node .var .. => some ι.var
  | node (.param index) .. => some (ι.param index)
  | node (.operator (.apply f)) _ _ argument => (argument.value? ι).bind (ι.call f)
  | node (.operator (.binary .sub)) _ absent operand => (operand.value? ι).map (-·)
  | node (.operator (.binary op)) _ left right =>
    (left.value? ι).bind fun u => (right.value? ι).bind fun v => ι.operation? op u v

variable {ι : Interpretation K} {span : Span} {l r t : Tree} {v : K}

theorem ne_absent_of_value? (value : t.value? ι = some v) : t ≠ absent := by
  rintro rfl
  cases value

theorem value?_call {f : Elementary} :
    (node (.operator (.apply f)) span l r).value? ι = some v ↔
      ∃ w, r.value? ι = some w ∧ ι.call f w = some v :=
  Option.bind_eq_some_iff

theorem value?_negation :
    (node (.operator (.binary .sub)) span absent r).value? ι = some v ↔
      ∃ w, r.value? ι = some w ∧ -w = v :=
  Option.map_eq_some_iff

/-- An operator between two operands is worth what the operation makes of their values. -/
theorem value?_binary {op : BinaryOp} (there : l ≠ absent) :
    (node (.operator (.binary op)) span l r).value? ι = some v ↔
      ∃ u w, l.value? ι = some u ∧ r.value? ι = some w ∧ ι.operation? op u w = some v := by
  have unfolded : (node (.operator (.binary op)) span l r).value? ι =
      (l.value? ι).bind fun u => (r.value? ι).bind fun w => ι.operation? op u w := by
    cases l with
    | absent => exact absurd rfl there
    | node => cases op <;> rfl
  simp only [unfolded, Option.bind_eq_some_iff]
  constructor
  · rintro ⟨u, left, w, right, operation⟩
    exact ⟨u, w, left, right, operation⟩
  · rintro ⟨u, w, left, right, operation⟩
    exact ⟨u, left, w, right, operation⟩

/-- How an operator comes to a value. -/
theorem value?_operator {op : BinaryOp}
    (value : (node (.operator (.binary op)) span l r).value? ι = some v) :
    (op = .sub ∧ l = absent ∧ ∃ w, r.value? ι = some w ∧ -w = v) ∨
      ∃ u w, l.value? ι = some u ∧ r.value? ι = some w ∧ ι.operation? op u w = some v := by
  by_cases there : l = absent
  · subst there
    cases op with
    | sub => exact .inl ⟨rfl, rfl, value?_negation.mp value⟩
    | add | mul | div | pow => cases value
  · exact .inr ((value?_binary there).mp value)

/-- Only a difference can lack an operand. -/
theorem value?_operands {op : BinaryOp}
    (value : (node (.operator (.binary op)) span l r).value? ι = some v) (ne : op ≠ .sub) :
    ∃ u w, l.value? ι = some u ∧ r.value? ι = some w ∧ ι.operation? op u w = some v :=
  (value?_operator value).resolve_left fun missing => ne missing.1

end Tree
end Fluxion
