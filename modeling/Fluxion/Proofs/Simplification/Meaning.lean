import Fluxion.Proofs.Function.Bodies
import Fluxion.Proofs.Simplification.InPlace
import Fluxion.Proofs.Tree.Value
import Mathlib.Algebra.Field.Rat
/- Simplification keeps the meaning of an expression. Every law keeps the value of a node where it
   has one (`Law.value?`), exact arithmetic on literals is arithmetic of the field
   (`eq_of_isExact`), so every rewrite of a node does (`Rewrites.value?`), and so does the whole
   pass (`value?_simplify`). Through the refinement this is proved of bodies that are simplified in
   place (`simplify_preserves_value`).

   Values are in any field, evaluation is strict, and elementary functions are whatever one likes.
   Of powers it is asked that `u ^ 0 = 1` and `u ^ 1 = u` wherever these are defined (`PowerLaws`);
   a power of zero to zero may have no value. A value may appear where there was none, as in `0 * (1
   / 0)`, which becomes `0`, but a value never disappears and never changes. -/
namespace Fluxion

variable {K : Type*} [Field K] [DecidableEq K] {ι : Interpretation K}

/-- What is asked of powers: `u ^ 0 = 1` and `u ^ 1 = u` wherever these are defined. -/
structure Interpretation.PowerLaws (ι : Interpretation K) : Prop where
  zero : ∀ u w, ι.power u 0 = some w → w = 1
  one : ∀ u w, ι.power u 1 = some w → w = u

/-- Rational numbers: the variable is three, and powers have integers as exponents. -/
def Interpretation.atThree : Interpretation ℚ where
  var := 3
  param _ := 0
  fraction _ := 0
  call _ _ := none
  power u w := if w.den = 1 ∧ (u ≠ 0 ∨ 0 ≤ w) then some (u ^ w.num) else none

theorem Interpretation.powerLaws_atThree : Interpretation.atThree.PowerLaws where
  zero u w power := by simpa [atThree, eq_comm] using power
  one u w power := by simpa [atThree, eq_comm] using power

namespace Tree

variable {op : BinaryOp} {span : Span} {l r t : Tree} {step : Simplification.Step} {v : K}

theorem value?_of_integer? {n : Int64} (integer : t.integer? = some n) :
    t.value? ι = some (n.toInt : K) := by
  cases t with
  | absent => cases integer
  | node kind place left right =>
    cases kind <;> cases integer
    rfl

theorem eq_zero_of_integer? (zero : t.integer? = some 0) (value : t.value? ι = some v) : v = 0 := by
  have known := value?_of_integer? (ι := ι) zero
  rw [value] at known
  simpa using known

theorem eq_one_of_integer? (one : t.integer? = some 1) (value : t.value? ι = some v) : v = 1 := by
  have known := value?_of_integer? (ι := ι) one
  rw [value] at known
  simpa using known

/-- Exact integer arithmetic is arithmetic of the field, where that is defined. -/
theorem eq_of_isExact {m n x : Int} (exact : op.IsExact m n x)
    (operation : ι.operation? op m n = some v) : v = x := by
  cases op with
  | add =>
    cases operation
    rw [exact, Int.cast_add]
  | sub =>
    cases operation
    rw [exact, Int.cast_sub]
  | mul =>
    cases operation
    rw [exact, Int.cast_mul]
  | div =>
    obtain ⟨-, product⟩ := exact
    obtain ⟨nonzero, rfl⟩ := Interpretation.operation?_div.mp operation
    rw [← product, Int.cast_mul, mul_div_cancel_right₀ _ nonzero]
  | pow => exact absurd exact id

theorem value?_div {u w : K} (left : l.value? ι = some u) (right : r.value? ι = some w)
    (nonzero : w ≠ 0) : (node (.operator (.binary .div)) span l r).value? ι = some (u / w) :=
  (value?_binary (ne_absent_of_value? left)).mpr ⟨u, w, left, right, if_neg nonzero⟩

/-- A reciprocal with a value has a denominator that is not zero. -/
theorem IsReciprocal.value? {d : Tree} (reciprocal : t.IsReciprocal d)
    (value : t.value? ι = some v) : ∃ e, d.value? ι = some e ∧ e ≠ 0 ∧ v = 1 / e := by
  obtain ⟨place, numerator, rfl, one, -⟩ := reciprocal
  obtain ⟨u, e, left, right, operation⟩ := (value?_binary (ne_absent_of_integer? one)).mp value
  obtain ⟨nonzero, rfl⟩ := Interpretation.operation?_div.mp operation
  exact ⟨e, right, nonzero, by rw [eq_one_of_integer? one left]⟩

/-- Every law keeps the value of a node that has one. -/
theorem Law.value? (powers : ι.PowerLaws) (law : Law span op l r step t)
    (value : (node (.operator (.binary op)) span l r).value? ι = some v) : t.value? ι = some v := by
  -- Without its left operand the node is a change of sign, and few laws apply.
  obtain ⟨rfl, rfl, w, right, rfl⟩ | ⟨u, w, left, right, operation⟩ := value?_operator value
  · cases law with
    | negateZero zero =>
      rw [eq_zero_of_integer? zero right, neg_zero]
      exact congrArg some Int.cast_zero
    | zeroSub zero => exact absurd rfl (ne_absent_of_integer? zero)
    | subZero there => exact absurd rfl there
  · cases law with
    | zeroAdd zero =>
      cases operation
      rw [eq_zero_of_integer? zero left, zero_add, right]
    | addZero zero =>
      cases operation
      rw [eq_zero_of_integer? zero right, add_zero, left]
    | negateZero => cases left
    | zeroSub zero =>
      cases operation
      rw [eq_zero_of_integer? zero left, zero_sub]
      exact value?_negation.mpr ⟨w, right, rfl⟩
    | subZero there zero =>
      cases operation
      rw [eq_zero_of_integer? zero right, sub_zero, left]
    | zeroMul zero =>
      cases operation
      rw [eq_zero_of_integer? zero left, zero_mul]
      exact congrArg some Int.cast_zero
    | mulZero zero =>
      cases operation
      rw [eq_zero_of_integer? zero right, mul_zero]
      exact congrArg some Int.cast_zero
    | oneMul one =>
      cases operation
      rw [eq_one_of_integer? one left, one_mul, right]
    | mulOne one =>
      cases operation
      rw [eq_one_of_integer? one right, mul_one, left]
    | reciprocalMul reciprocal =>
      cases operation
      obtain ⟨e, denominator, nonzero, rfl⟩ := reciprocal.value? left
      rw [div_mul_eq_mul_div, one_mul]
      exact value?_div right denominator nonzero
    | mulReciprocal reciprocal =>
      cases operation
      obtain ⟨e, denominator, nonzero, rfl⟩ := reciprocal.value? right
      rw [mul_one_div]
      exact value?_div left denominator nonzero
    | zeroDiv zero =>
      obtain ⟨-, rfl⟩ := Interpretation.operation?_div.mp operation
      rw [eq_zero_of_integer? zero left, zero_div]
      exact congrArg some Int.cast_zero
    | divOne one =>
      obtain ⟨-, rfl⟩ := Interpretation.operation?_div.mp operation
      rw [eq_one_of_integer? one right, div_one, left]
    | powZero zero =>
      rw [eq_zero_of_integer? zero right] at operation
      rw [powers.zero u v operation]
      exact congrArg some Int.cast_one
    | powOne one =>
      rw [eq_one_of_integer? one right] at operation
      rw [powers.one u v operation, left]

theorem Rewrites.value? (powers : ι.PowerLaws) (rewrites : Rewrites span op l r step t)
    (value : (node (.operator (.binary op)) span l r).value? ι = some v) : t.value? ι = some v := by
  cases rewrites with
  | fold arithmetic left right exact =>
    obtain ⟨u, w, known, known', operation⟩ :=
      (value?_binary (ne_absent_of_integer? left)).mp value
    rw [value?_of_integer? left] at known
    rw [value?_of_integer? right] at known'
    cases known
    cases known'
    rw [eq_of_isExact exact operation]
    rfl
  | law other law => exact law.value? powers value

theorem value?_of_rewrite? {t' : Tree} (powers : ι.PowerLaws)
    (rewritten : t.rewrite? = some (step, t')) (value : t.value? ι = some v) :
    t'.value? ι = some v := by
  obtain ⟨op, span, l, r, rfl, rewrites⟩ := exists_op_of_rewrite? rewritten
  exact rewrites.value? powers value

theorem value?_rewriteOnce (powers : ι.PowerLaws) (value : t.value? ι = some v) :
    t.rewriteOnce.2.value? ι = some v := by
  unfold rewriteOnce
  split
  · exact value
  · next rewritten => exact value?_of_rewrite? powers rewritten value

theorem value?_rewriteNode (powers : ι.PowerLaws) (value : t.value? ι = some v) :
    t.rewriteNode.2.value? ι = some v := by
  unfold rewriteNode
  split
  · exact value
  · next rewritten =>
    have once := value?_of_rewrite? powers rewritten value
    split
    · exact value?_rewriteOnce powers once
    · exact once

/-- A node keeps its value when its operands keep theirs. -/
theorem value?_of_operands {kind : Kind} {l' r' : Tree} (missing : l = absent → l' = absent)
    (left : ∀ u, l.value? ι = some u → l'.value? ι = some u)
    (right : ∀ u, r.value? ι = some u → r'.value? ι = some u)
    (value : (node kind span l r).value? ι = some v) : (node kind span l' r').value? ι = some v := by
  obtain n | x | _ | index | (op | f) := kind
  case operator.binary =>
    obtain ⟨rfl, there, w, operand, rfl⟩ | ⟨u, w, first, second, operation⟩ := value?_operator value
    · rw [missing there]
      exact value?_negation.mpr ⟨w, right w operand, rfl⟩
    · have first := left u first
      exact (value?_binary (ne_absent_of_value? first)).mpr
        ⟨u, w, first, right w second, operation⟩
  case operator.apply =>
    obtain ⟨w, argument, call⟩ := value?_call.mp value
    exact value?_call.mpr ⟨w, right w argument, call⟩
  all_goals exact value

/-- Simplification keeps the value of a tree that has one. -/
theorem value?_simplify (powers : ι.PowerLaws) (value : t.value? ι = some v) :
    t.simplify.2.value? ι = some v := by
  induction t generalizing v with
  | absent => cases value
  | node kind span left right ihLeft ihRight =>
    apply value?_rewriteNode powers
    refine value?_of_operands ?_ (fun _ => ihLeft) (fun _ => ihRight) value
    rintro rfl
    rfl

end Tree

namespace Function

/-- A body that has a value has the same value after simplification. -/
theorem simplify_preserves_value (powers : ι.PowerLaws) (f : Function) (formed : f.body.WellFormed)
    {v : K} (value : f.body.tree.value? ι = some v) :
    f.simplify.body.tree.value? ι = some v := by
  have tree : f.simplify.body.tree = f.body.tree.simplify.2 := formed.simplify_eq.2
  rw [tree]
  exact Tree.value?_simplify powers value

/-- The definition `f(x) = 1/x*(x^1+0)`. -/
def reciprocalTimesSum : Definition :=
  ⟨"f", "x", .binary .mul (.binary .div (.integer 1 ⟨5, 6⟩) (.name "x" ⟨7, 8⟩) ⟨5, 8⟩)
    (.binary .add (.binary .pow (.name "x" ⟨10, 11⟩) (.integer 1 ⟨12, 13⟩) ⟨10, 13⟩)
      (.integer 0 ⟨14, 15⟩) ⟨10, 15⟩) ⟨5, 15⟩⟩

theorem simplify_preserves_value_reciprocalTimesSum :
    (ofDefinition reciprocalTimesSum).body.WellFormed ∧ Interpretation.atThree.PowerLaws ∧
      (ofDefinition reciprocalTimesSum).body.tree.value? .atThree = some 1 ∧
      (ofDefinition reciprocalTimesSum).simplify.body.tree.value? .atThree = some 1 := by
  have formed := wellFormed_body_ofDefinition reciprocalTimesSum
  have value : (ofDefinition reciprocalTimesSum).body.tree.value? .atThree = some 1 := by
    rw [tree_body_ofDefinition]
    simp [reciprocalTimesSum, Term.resolve, Tree.leaf, Tree.value?, Interpretation.atThree,
      Interpretation.operation?]
  exact ⟨formed, Interpretation.powerLaws_atThree, value,
    simplify_preserves_value Interpretation.powerLaws_atThree _ formed value⟩

end Function
end Fluxion
