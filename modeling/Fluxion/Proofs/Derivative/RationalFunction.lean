import Fluxion.Proofs.Derivative.Laws
import Mathlib.Algebra.DualNumber
import Mathlib.FieldTheory.RatFunc.AsPolynomial
import Mathlib.RingTheory.Derivation.Basic
/- Rational functions of one variable with their derivation: a field in which the laws of
   derivatives can be seen at work (`isDifferential`).

   A derivation of a field of fractions is found by an infinitesimal step: polynomials are evaluated
   at the variable and such a step away from it (`jetOfPolynomial`), in numbers of which the square
   of the infinitesimal part is zero. What is not zero stays invertible there, so the evaluation
   extends to fractions (`jet`), and how far a fraction moves at the step is its derivative
   (`derivation`).

   Functions and powers have few values here: powers with natural exponents, the root of `x ^ 2`,
   and some functions at zero (`power`, `call`). That is enough for every law to be about something,
   and for expressions with a root and a quotient to have a derivative that is not zero. -/
namespace Fluxion

/-- Rational functions in one variable over the rational numbers. -/
def RationalFunction : Type := RatFunc ℚ

noncomputable instance : Field RationalFunction := inferInstanceAs (Field (RatFunc ℚ))

instance : CharZero RationalFunction := inferInstanceAs (CharZero (RatFunc ℚ))

namespace RationalFunction

open Polynomial TrivSqZeroExt

/-! ## The derivation -/

/-- A polynomial at the variable and an infinitesimal step away from it. -/
noncomputable def jetOfPolynomial : ℚ[X] →+* DualNumber (RatFunc ℚ) :=
  eval₂RingHom ((inlHom (RatFunc ℚ) (RatFunc ℚ)).comp (algebraMap ℚ (RatFunc ℚ)))
    (inl RatFunc.X + DualNumber.eps)

theorem fst_jetOfPolynomial (p : ℚ[X]) :
    (jetOfPolynomial p).fst = algebraMap ℚ[X] (RatFunc ℚ) p := by
  have same : (fstHom ℚ (RatFunc ℚ) (RatFunc ℚ)).toRingHom.comp jetOfPolynomial =
      algebraMap ℚ[X] (RatFunc ℚ) := by
    -- Homomorphisms from polynomials agree if they do on constants and on the variable.
    refine ringHom_ext (fun q => ?_) ?_
    · simp [jetOfPolynomial]
    · simp [jetOfPolynomial]
  exact congrArg (fun hom => hom p) same

theorem isUnit_jetOfPolynomial (p : nonZeroDivisors ℚ[X]) : IsUnit (jetOfPolynomial p) := by
  rw [isUnit_iff_isUnit_fst, fst_jetOfPolynomial]
  exact IsLocalization.map_units (RatFunc ℚ) p

/-- A rational function at the variable and an infinitesimal step away from it. -/
noncomputable def jet : RatFunc ℚ →+* DualNumber (RatFunc ℚ) :=
  IsLocalization.lift isUnit_jetOfPolynomial

theorem fst_jet (q : RatFunc ℚ) : (jet q).fst = q := by
  have same : (fstHom ℚ (RatFunc ℚ) (RatFunc ℚ)).toRingHom.comp jet = RingHom.id (RatFunc ℚ) := by
    refine IsLocalization.ringHom_ext (nonZeroDivisors ℚ[X]) (RingHom.ext fun p => ?_)
    simp [jet, fst_jetOfPolynomial]
  exact congrArg (fun hom => hom q) same

theorem snd_jet_mul (p q : RatFunc ℚ) :
    (jet (p * q)).snd = p * (jet q).snd + q * (jet p).snd := by
  rw [map_mul, snd_mul, fst_jet, fst_jet, smul_eq_mul, op_smul_eq_smul, smul_eq_mul]

theorem snd_jet_X : (jet RatFunc.X).snd = 1 := by
  rw [← RatFunc.algebraMap_X, jet, IsLocalization.lift_eq]
  simp [jetOfPolynomial]

/-- How far a rational function moves at the infinitesimal step. -/
noncomputable def derivation : Derivation ℤ RationalFunction RationalFunction :=
  .mk' { toFun := fun q => (jet q).snd
         map_add' := fun p q => congrArg snd (map_add jet p q)
         map_smul' := fun n q => congrArg snd (map_zsmul jet n q) } snd_jet_mul

/-- The variable. -/
noncomputable def x : RationalFunction := (RatFunc.X : RatFunc ℚ)

theorem derivation_x : derivation x = 1 := snd_jet_X

theorem x_ne_zero : x ≠ 0 := RatFunc.X_ne_zero

theorem derivation_x_sq : derivation (x ^ 2) = 2 * x := by
  rw [derivation.leibniz_pow, derivation_x]
  simp

/-! ## Expressions in rational functions -/

open Classical in
/-- Powers with natural exponents. -/
noncomputable def power (u c : RationalFunction) : Option RationalFunction :=
  if natural : ∃ n : Nat, c = n then some (u ^ natural.choose) else none

theorem power_natCast (u : RationalFunction) (n : Nat) : power u n = some (u ^ n) := by
  have natural : ∃ m : Nat, (n : RationalFunction) = m := ⟨n, rfl⟩
  rw [power, dif_pos natural, ← Nat.cast_inj.mp natural.choose_spec]

theorem power_two (u : RationalFunction) : power u 2 = some (u ^ 2) := by
  rw [← power_natCast, Nat.cast_ofNat]

theorem exists_of_power {u c w : RationalFunction} (defined : power u c = some w) :
    ∃ n : Nat, c = n ∧ w = u ^ n := by
  rw [power] at defined
  split at defined
  · next natural =>
    cases defined
    exact ⟨_, natural.choose_spec, rfl⟩
  · cases defined

open Classical in
/-- The root of `x ^ 2`, and functions at zero. -/
noncomputable def call : Elementary → RationalFunction → Option RationalFunction
  | .sqrt, v => if v = x ^ 2 then some x else none
  | .exp, v | .cos, v => if v = 0 then some 1 else none
  | .sin, v => if v = 0 then some 0 else none
  | _, _ => none

/-- The variable is `x`, parameters are their numbers. -/
noncomputable def interpretation : Interpretation RationalFunction where
  var := x
  param index := index
  fraction _ := 0
  call := call
  power := power

/-- The laws hold of rational functions. -/
theorem isDifferential : interpretation.IsDifferential derivation where
  var := derivation_x
  param index := derivation.map_natCast index
  fraction _ := derivation.map_zero
  sin v s c sine _ := by
    obtain ⟨rfl, rfl⟩ : v = 0 ∧ 0 = s := by simpa [interpretation, call] using sine
    rw [derivation.map_zero, mul_zero]
  cos v c s cosine _ := by
    obtain ⟨rfl, rfl⟩ : v = 0 ∧ 1 = c := by simpa [interpretation, call] using cosine
    rw [derivation.map_one_eq_zero, derivation.map_zero, mul_zero]
  tan := nofun
  cot := nofun
  arcsin := nofun
  arccos := nofun
  arctan := nofun
  arccot := nofun
  exp v e value := by
    obtain ⟨rfl, rfl⟩ : v = 0 ∧ 1 = e := by simpa [interpretation, call] using value
    rw [derivation.map_one_eq_zero, derivation.map_zero, mul_zero]
  log := nofun
  sqrt v q root nonzero := by
    obtain ⟨rfl, rfl⟩ : v = x ^ 2 ∧ x = q := by simpa [interpretation, call] using root
    rw [derivation_x_sq, derivation_x, div_self nonzero]
  square u w square := by
    rw [← Option.some.inj ((power_two u).symm.trans square), sq]
  power u c w w' constant power lower := by
    obtain ⟨n, rfl, rfl⟩ := exists_of_power power
    obtain ⟨m, below, rfl⟩ := exists_of_power lower
    obtain rfl : n = m + 1 := by
      have : (n : RationalFunction) = (m + 1 : Nat) := by
        rw [Nat.cast_succ, ← below, sub_add_cancel]
      exact Nat.cast_inj.mp this
    rw [derivation.leibniz_pow, Nat.add_sub_cancel, nsmul_eq_mul, smul_eq_mul, mul_assoc]
  constantCall f v w value constant := by
    cases f with
    | sqrt =>
      obtain ⟨rfl, rfl⟩ : v = x ^ 2 ∧ x = w := by simpa [interpretation, call] using value
      rw [derivation_x_sq] at constant
      exact absurd constant (mul_ne_zero two_ne_zero x_ne_zero)
    | exp | cos =>
      obtain ⟨rfl, rfl⟩ : v = 0 ∧ 1 = w := by simpa [interpretation, call] using value
      exact derivation.map_one_eq_zero
    | sin =>
      obtain ⟨rfl, rfl⟩ : v = 0 ∧ 0 = w := by simpa [interpretation, call] using value
      exact derivation.map_zero
    | log | tan | cot | arcsin | arccos | arctan | arccot => cases value
  constantPower u c w power base exponent := by
    obtain ⟨n, -, rfl⟩ := exists_of_power power
    rw [derivation.leibniz_pow, base, smul_zero, smul_zero]

end RationalFunction
end Fluxion
