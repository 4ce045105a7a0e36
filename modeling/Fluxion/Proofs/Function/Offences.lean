import Fluxion.Definition.Parser
import Fluxion.Proofs.Function.Bodies
import Fluxion.Proofs.Function.Definedness
import Fluxion.Proofs.Simplification.Meaning
import Fluxion.Proofs.Tree.Parts
import Mathlib.Analysis.SpecialFunctions.Pow.Real
import Mathlib.Analysis.SpecialFunctions.Trigonometric.Arctan
import Mathlib.Analysis.SpecialFunctions.Trigonometric.Inverse
/- What the check for undefined parts finds, and what it means. `Offends` lists what is wrong with a
   part of a tree, without the check: a power of zero to zero, a quotient by zero, and a logarithm
   of zero, of a negative literal or of the opposite of one that is not negative. The check reports
   the first part in post-order that offends, at its place, and a function of which no part does
   passes it (`check_eq_error_iff`, `check_eq_ok_iff_forall`).

   Whatever offends has no value in the real numbers (`Offends.value?`), with roots, logarithms and
   powers where they are defined (`Interpretation.ofReals`). Evaluation is strict, so a function
   that is refused has no value at all, whatever the variable and the parameters stand for
   (`check_exact_and_sound`). The converse does not hold: the check looks at literals only. -/
namespace Fluxion
namespace Tree

/-- A part that has no value, as its literal operands tell. -/
inductive Offends : Tree → UndefinedFault → Prop where
  | power {span : Span} {base exponent : Tree} (zeroBase : base.integer? = some 0)
      (zeroExponent : exponent.integer? = some 0) :
      Offends (node (.operator (.binary .pow)) span base exponent) .zeroToZero
  | quotient {span : Span} {numerator denominator : Tree} (zero : denominator.integer? = some 0) :
      Offends (node (.operator (.binary .div)) span numerator denominator) .divisionByZero
  | logOfZero {span : Span} {left argument : Tree} (zero : argument.integer? = some 0) :
      Offends (node (.operator (.apply .log)) span left argument) .logOfZero
  | logOfLiteral {span : Span} {left argument : Tree} {n : Int64}
      (literal : argument.integer? = some n) (negative : n < 0) :
      Offends (node (.operator (.apply .log)) span left argument) .logOfNegative
  | logOfOpposite {span place : Span} {left operand : Tree} {n : Int64}
      (literal : operand.integer? = some n) (nonneg : 0 ≤ n) :
      Offends (node (.operator (.apply .log)) span left
        (node (.operator (.binary .sub)) place absent operand)) .logOfNegative

variable {t part : Tree} {fault : UndefinedFault}

/-! ## What the check finds -/

theorem isNegative_iff : t.isNegative = true ↔ (∃ n, t.integer? = some n ∧ n < 0) ∨
    ∃ place operand n, t = node (.operator (.binary .sub)) place absent operand ∧
      operand.integer? = some n ∧ 0 ≤ n := by
  constructor
  · intro negative
    unfold isNegative at negative
    split at negative
    · exact .inl ⟨_, rfl, by simpa using negative⟩
    · next place operand =>
      cases literal : operand.integer? with
      | none => simp [literal] at negative
      | some n => exact .inr ⟨place, operand, n, rfl, literal, by simpa [literal] using negative⟩
    · cases negative
  · rintro (⟨n, literal, negative⟩ | ⟨place, operand, n, rfl, literal, nonneg⟩)
    · cases t with
      | absent => cases literal
      | node kind span left right =>
        cases kind <;> cases literal
        simpa [isNegative] using negative
    · simp [isNegative, literal, nonneg]

/-- The check of one node finds what is wrong with it, and nothing else. -/
theorem fault?_eq_some_iff : t.fault? = some fault ↔ t.Offends fault := by
  constructor
  · intro found
    unfold fault? at found
    split at found
    · split at found
      · next zeros =>
        cases found
        rw [Bool.and_eq_true, isZero_iff, isZero_iff] at zeros
        exact .power zeros.1 zeros.2
      · cases found
    · split at found
      · next zero =>
        cases found
        exact .quotient (isZero_iff.mp zero)
      · cases found
    · split at found
      · next zero =>
        cases found
        exact .logOfZero (isZero_iff.mp zero)
      · split at found
        · next negative =>
          cases found
          obtain ⟨n, literal, negative⟩ | ⟨place, operand, n, rfl, literal, nonneg⟩ :=
            isNegative_iff.mp negative
          · exact .logOfLiteral literal negative
          · exact .logOfOpposite literal nonneg
        · cases found
    · cases found
  · intro offends
    cases offends with
    | power zeroBase zeroExponent => simp [fault?, isZero, zeroBase, zeroExponent]
    | quotient zero => simp [fault?, isZero, zero]
    | logOfZero zero => simp [fault?, isZero, zero]
    | @logOfLiteral _ _ argument n literal negative =>
      -- A negative literal is not zero, so the check for zeros lets it pass.
      have nonzero : n ≠ 0 := by
        rintro rfl
        exact absurd negative (by decide)
      have isNegative := isNegative_iff.mpr (.inl ⟨n, literal, negative⟩)
      simp [fault?, isZero, literal, nonzero, isNegative]
    | @logOfOpposite span place left operand n literal nonneg =>
      have isNegative := isNegative_iff.mpr (.inr ⟨place, operand, n, rfl, literal, nonneg⟩)
      have nonzero : (node (.operator (.binary .sub)) place absent operand).isZero = false := rfl
      simp [fault?, nonzero, isNegative]

theorem fault?_eq_none_iff : t.fault? = none ↔ ∀ fault, ¬t.Offends fault := by
  simp [Option.eq_none_iff_forall_ne_some, fault?_eq_some_iff]

/-- The faults of a tree are those of its parts, in the order of the parts. -/
theorem faults_eq (t : Tree) :
    t.faults = t.parts.filterMap fun part => part.fault?.map fun fault => ⟨fault, [part.span]⟩ := by
  induction t with
  | absent => rfl
  | node kind span left right ihLeft ihRight =>
    rw [faults, parts, List.filterMap_append, List.filterMap_append, ← ihLeft, ← ihRight]
    cases found : (node kind span left right).fault? with
    | none => simp [found]
    | some fault => simp [found, Tree.span]

end Tree

namespace Function

variable {f : Function}

/-- The check refuses a function for the first part that offends. -/
theorem check_eq_error_iff (formed : f.body.WellFormed) {e : UndefinedError} :
    f.check = .error e ↔ ∃ before part behind, f.body.tree.parts = before ++ part :: behind ∧
      (∀ earlier ∈ before, ∀ fault, ¬earlier.Offends fault) ∧ part.Offends e.fault ∧
        e.spans = [part.span] := by
  have first : f.check = .error e ↔ f.body.tree.faults.head? = some e := by
    rw [check_eq formed]
    cases f.body.tree.faults.head? with
    | none => simp
    | some fault => simp
  rw [first, Tree.faults_eq, List.head?_filterMap, List.findSome?_eq_some_iff]
  constructor
  · rintro ⟨before, part, behind, split, found, earlier⟩
    obtain ⟨fault, offends, rfl⟩ := Option.map_eq_some_iff.mp found
    refine ⟨before, part, behind, split, fun other mem => ?_, Tree.fault?_eq_some_iff.mp offends, rfl⟩
    exact Tree.fault?_eq_none_iff.mp (Option.map_eq_none_iff.mp (earlier other mem))
  · rintro ⟨before, part, behind, split, earlier, offends, place⟩
    refine ⟨before, part, behind, split, ?_, fun other mem => ?_⟩
    · rw [Tree.fault?_eq_some_iff.mpr offends, Option.map_some, ← place]
    · rw [Tree.fault?_eq_none_iff.mpr (earlier other mem), Option.map_none]

/-- A function of which no part offends passes the check. -/
theorem check_eq_ok_iff_forall (formed : f.body.WellFormed) :
    f.check = .ok () ↔ ∀ part ∈ f.body.tree.parts, ∀ fault, ¬part.Offends fault := by
  have none : f.check = .ok () ↔ f.body.tree.faults = [] := by
    rw [check_eq formed]
    cases f.body.tree.faults with
    | nil => simp
    | cons => simp
  rw [none, Tree.faults_eq, List.filterMap_eq_nil_iff]
  simp [Tree.fault?_eq_none_iff]

end Function

/-! ## What it means -/

/-- The power of zero to zero and logarithms of what is not positive have no value. -/
structure Interpretation.LeavesUndefined (ι : Interpretation ℝ) : Prop where
  power : ι.power 0 0 = none
  log : ∀ v ≤ 0, ι.call .log v = none

/-- Functions and powers of real numbers, where they are defined. What the variable, the
    parameters and fractions stand for is given. -/
noncomputable def Interpretation.ofReals (x : ℝ) (param : Nat → ℝ) (fraction : Binary64 → ℝ) :
    Interpretation ℝ where
  var := x
  param := param
  fraction := fraction
  call
    | .sqrt, v => if 0 ≤ v then some (Real.sqrt v) else none
    | .exp, v => some (Real.exp v)
    | .log, v => if 0 < v then some (Real.log v) else none
    | .sin, v => some (Real.sin v)
    | .cos, v => some (Real.cos v)
    | .tan, v => if Real.cos v = 0 then none else some (Real.tan v)
    | .cot, v => if Real.sin v = 0 then none else some (Real.cos v / Real.sin v)
    | .arcsin, v => if |v| ≤ 1 then some (Real.arcsin v) else none
    | .arccos, v => if |v| ≤ 1 then some (Real.arccos v) else none
    | .arctan, v => some (Real.arctan v)
    | .arccot, v => some (Real.pi / 2 - Real.arctan v)
  power u w :=
    open Classical in
    if 0 < u ∨ (u = 0 ∧ 0 < w) ∨ (u ≠ 0 ∧ ∃ n : ℤ, w = n) then some (u ^ w) else none

theorem Interpretation.leavesUndefined_ofReals (x : ℝ) (param : Nat → ℝ) (fraction : Binary64 → ℝ) :
    (ofReals x param fraction).LeavesUndefined where
  power := by simp [ofReals]
  log v negative := if_neg (not_lt.mpr negative)

namespace Tree

variable {ι : Interpretation ℝ} {part : Tree} {fault : UndefinedFault}

/-- What offends has no value. -/
theorem Offends.value? (undefined : ι.LeavesUndefined) (offends : part.Offends fault) :
    part.value? ι = none := by
  have noLog : ∀ {span : Span} {left argument : Tree},
      (∀ v, argument.value? ι = some v → v ≤ 0) →
        (node (.operator (.apply .log)) span left argument).value? ι = none := by
    intro span left argument bounded
    rw [Option.eq_none_iff_forall_ne_some]
    intro v value
    obtain ⟨w, argument, call⟩ := value?_call.mp value
    rw [undefined.log w (bounded w argument)] at call
    cases call
  cases offends with
  | power zeroBase zeroExponent =>
    rw [Option.eq_none_iff_forall_ne_some]
    intro v value
    obtain ⟨u, w, base, exponent, power⟩ := value?_operands value (by simp)
    rw [eq_zero_of_integer? zeroBase base, eq_zero_of_integer? zeroExponent exponent] at power
    rw [Interpretation.operation?, undefined.power] at power
    cases power
  | quotient zero =>
    rw [Option.eq_none_iff_forall_ne_some]
    intro v value
    obtain ⟨u, w, -, denominator, quotient⟩ := value?_operands value (by simp)
    exact (Interpretation.operation?_div.mp quotient).1 (eq_zero_of_integer? zero denominator)
  | logOfZero zero => exact noLog fun v argument => (eq_zero_of_integer? zero argument).le
  | @logOfLiteral _ _ _ n literal negative =>
    apply noLog
    intro v argument
    rw [value?_of_integer? literal] at argument
    cases argument
    have below : n.toInt ≤ 0 := (Int64.lt_iff_toInt_lt.mp negative).le
    exact_mod_cast below
  | @logOfOpposite _ _ _ _ n literal nonneg =>
    apply noLog
    intro v argument
    obtain ⟨w, operand, rfl⟩ := value?_negation.mp argument
    rw [value?_of_integer? literal] at operand
    cases operand
    have above : 0 ≤ n.toInt := Int64.le_iff_toInt_le.mp nonneg
    exact neg_nonpos.mpr (by exact_mod_cast above)

end Tree

namespace Function

/-- The check passes the functions of which no part offends, and refuses every other one for its
    first offending part in post-order, at the place of that part. A function that is refused has
    no value, whatever real numbers the variable and the parameters stand for. -/
theorem check_exact_and_sound (f : Function) (formed : f.body.WellFormed) :
    (f.check = .ok () ↔ ∀ part ∈ f.body.tree.parts, ∀ fault, ¬part.Offends fault) ∧
      (∀ e, f.check = .error e ↔ ∃ before part behind,
        f.body.tree.parts = before ++ part :: behind ∧
          (∀ earlier ∈ before, ∀ fault, ¬earlier.Offends fault) ∧ part.Offends e.fault ∧
            e.spans = [part.span]) ∧
      ∀ e, f.check = .error e → ∀ ι : Interpretation ℝ, ι.LeavesUndefined →
        f.body.tree.value? ι = none := by
  refine ⟨check_eq_ok_iff_forall formed, fun e => check_eq_error_iff formed, ?_⟩
  intro e refused ι undefined
  obtain ⟨before, part, behind, split, -, offends, -⟩ := (check_eq_error_iff formed).mp refused
  have mem : part ∈ f.body.tree.parts := by simp [split]
  rw [Option.eq_none_iff_forall_ne_some]
  intro v value
  obtain ⟨w, known⟩ := Tree.exists_value?_of_mem_parts formed.tree value mem
  rw [offends.value? undefined] at known
  cases known

/-- The definition `f(x)=log(-0)/0+x^log(0)`. -/
def undefinedSum : Definition :=
  ⟨"f", "x", .binary .add
    (.binary .div (.call .log (.negate (.integer 0 ⟨10, 11⟩) ⟨9, 11⟩) ⟨5, 12⟩)
      (.integer 0 ⟨13, 14⟩) ⟨5, 14⟩)
    (.binary .pow (.name "x" ⟨15, 16⟩) (.call .log (.integer 0 ⟨21, 22⟩) ⟨17, 23⟩) ⟨15, 23⟩)
    ⟨5, 23⟩⟩

/-- Of three undefined parts the innermost on the left is reported. -/
theorem check_exact_and_sound_sum :
    let f := ofDefinition undefinedSum
    Definition.parse "f(x)=log(-0)/0+x^log(0)" = .ok undefinedSum ∧ f.body.WellFormed ∧
      f.check = .error ⟨.logOfNegative, [⟨5, 12⟩]⟩ ∧
      ∀ x param fraction, f.body.tree.value? (.ofReals x param fraction) = none := by
  have formed := wellFormed_body_ofDefinition undefinedSum
  have refused : (ofDefinition undefinedSum).check = .error ⟨.logOfNegative, [⟨5, 12⟩]⟩ := by
    decide +kernel
  obtain ⟨-, -, sound⟩ := check_exact_and_sound _ formed
  refine ⟨by decide +kernel, formed, refused, fun x param fraction => ?_⟩
  exact sound _ refused _ (Interpretation.leavesUndefined_ofReals x param fraction)

end Function
end Fluxion
