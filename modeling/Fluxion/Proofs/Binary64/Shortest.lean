import Fluxion.Proofs.Binary64.Rounding
/- The search for the shortest decimal ends at a number in the interval of the double
   (`atExponent?_shortestDecimal`). It tries grids from coarse to fine and stops at the first that
   has a point there; on the finest grid that it may try, the double itself is a point
   (`isSome_atExponent?_finest`), so there is always one.

   The number found is a whole one only if the double is (`exists_shortestDecimal`), since the
   interval of a double with places holds no whole number: whole numbers are further apart than the
   doubles there (`isWhole_of_holds`). This is why a literal of a fraction always has a point and is
   never taken for an integer.

   That no shorter decimal would do is not needed, and not proved; the bounds at the end keep what
   is found in the range in which reading is exact. -/
namespace Fluxion
namespace Binary64

namespace Interval

variable (i : Interval)

theorem holds_of_onGrid? {num den n : Nat} (found : i.onGrid? num den = some n) :
    i.holds num den n = true := by
  unfold onGrid? at found
  dsimp only at found
  split at found
  next below above =>
    split at found <;> cases found
    · exact below
    · exact above
  next below _ => cases found; exact below
  next _ above => cases found; exact above
  next => cases found

theorem isSome_onGrid? {num den n : Nat} (pos : 0 < den) (point : n * den = i.value * num)
    (holds : i.holds num den n = true) : (i.onGrid? num den).isSome = true := by
  have nearest : i.value * num / den = n := by rw [← point, Nat.mul_div_cancel _ pos]
  unfold onGrid?
  simp only [nearest, holds]
  split <;> simp_all

/-- The grid of numbers with so many places. -/
theorem atExponent?_neg {places : Nat} (pos : 0 < places) :
    i.atExponent? (-places) = i.onGrid? (10 ^ places) (1 <<< (unitBits + 2)) := by
  obtain ⟨p, rfl⟩ := Nat.exists_eq_succ_of_ne_zero (Nat.ne_of_gt pos)
  rfl

/-- If the finest grid has a point then the search ends at a point of a grid. -/
theorem atExponent?_coarsest {finer : Nat} {top : Int}
    (finest : (i.atExponent? (top - finer)).isSome = true) :
    i.atExponent? (i.coarsest finer top).exponent = some (i.coarsest finer top).digits := by
  induction finer generalizing top with
  | zero =>
    obtain ⟨n, found⟩ := Option.isSome_iff_exists.mp finest
    replace found : i.atExponent? top = some n := by rwa [show top - (0 : Nat) = top by simp] at found
    simp only [coarsest, found, Option.getD_some]
  | succ finer ih =>
    unfold coarsest
    split
    next n found => exact found
    next => exact ih (by rwa [show top - 1 - (finer : Int) = top - (finer + 1 : Nat) by omega])

end Interval

/-! ## The decimal of a double -/

variable {rank : Nat}

/-- The double itself is in its interval. -/
theorem holds_units {num den : Nat} (pos : 0 < rank) (den_pos : 0 < den)
    (exact : num * 2 ^ unitBits = units rank * den) :
    (interval rank).holds den (1 <<< (unitBits + 2)) num = true := by
  have gap : 0 < below rank * (2 ^ scale rank * den) := by
    have := Nat.mul_pos (Nat.two_pow_pos (scale rank)) den_pos
    unfold below
    split <;> omega
  have wide : below rank * (2 ^ scale rank * den) ≤ 2 * (2 ^ scale rank * den) :=
    Nat.mul_le_mul_right _ (below_le rank)
  have value : 2 ^ scale rank * den ≤ significand rank * (2 ^ scale rank * den) :=
    Nat.le_mul_of_pos_left _ (significand_pos rank pos)
  rw [units_eq, Nat.mul_assoc] at exact
  rw [holds_iff, exact]
  dsimp only
  split <;> omega

theorem isSome_atExponent?_finest (pos : 0 < rank) :
    ((interval rank).atExponent? (-unitBits)).isSome = true := by
  have exact : units rank * 5 ^ unitBits * 2 ^ unitBits = units rank * 10 ^ unitBits := by
    rw [Nat.mul_assoc, ← Nat.mul_pow]
  rw [Interval.atExponent?_neg _ (by decide)]
  refine Interval.isSome_onGrid? _ ?_ ?_ (holds_units pos (Nat.pow_pos (by decide)) exact)
  · rw [Nat.one_shiftLeft]
    exact Nat.two_pow_pos _
  · calc units rank * 5 ^ unitBits * 1 <<< (unitBits + 2)
        = 4 * (units rank * 5 ^ unitBits * 2 ^ unitBits) := by
          rw [Nat.one_shiftLeft]
          ring
      _ = 4 * units rank * 10 ^ unitBits := by rw [exact, Nat.mul_assoc]

theorem atExponent?_shortestDecimal (pos : 0 < rank) :
    (interval rank).atExponent? (shortestDecimal rank).exponent
      = some (shortestDecimal rank).digits := by
  unfold shortestDecimal
  rw [if_neg (by omega)]
  refine (interval rank).atExponent?_coarsest ?_
  rw [show (coarsestExponent : Int) - (coarsestExponent + unitBits : Nat) = -unitBits by omega]
  exact isSome_atExponent?_finest pos

/-! ## Doubles with places -/

theorem isWhole_iff : isWhole rank = true ↔ 2 ^ unitBits ∣ units rank := by
  rw [isWhole, Nat.one_shiftLeft, beq_iff_eq, Nat.dvd_iff_mod_eq_zero]

theorem scale_lt_of_not_isWhole (fraction : ¬isWhole rank = true) : scale rank < unitBits := by
  by_contra large
  refine fraction (isWhole_iff.mpr ?_)
  rw [units_eq]
  exact Dvd.dvd.mul_left (Nat.pow_dvd_pow 2 (by omega)) _

/-- A double with places has no whole number in its interval: whole numbers are
    further apart than the doubles there. -/
theorem isWhole_of_holds {n : Nat}
    (holds : (interval rank).holds 1 (1 <<< (unitBits + 2)) n = true) : isWhole rank = true := by
  by_contra fraction
  obtain ⟨d, hd⟩ := Nat.exists_eq_add_of_lt (scale_lt_of_not_isWhole fraction)
  have step_pos : 0 < 2 ^ scale rank := Nat.two_pow_pos _
  have number : n * 2 ^ unitBits = n * 2 ^ (d + 1) * 2 ^ scale rank := by
    rw [hd]
    ring
  have near : significand rank = n * 2 ^ (d + 1) := by
    have quarters := below_le rank
    rw [holds_iff, Nat.mul_one, number] at holds
    have low : 4 * (significand rank * 2 ^ scale rank)
        ≤ 4 * (n * 2 ^ (d + 1) * 2 ^ scale rank) + 2 * 2 ^ scale rank := by
      have := Nat.mul_le_mul_right (2 ^ scale rank) quarters
      dsimp only at holds
      split at holds <;> omega
    have high : 4 * (n * 2 ^ (d + 1) * 2 ^ scale rank)
        ≤ 4 * (significand rank * 2 ^ scale rank) + 2 * 2 ^ scale rank := by
      dsimp only at holds
      split at holds <;> omega
    have low : 4 * significand rank ≤ 4 * (n * 2 ^ (d + 1)) + 2 :=
      Nat.le_of_mul_le_mul_right (by linarith) step_pos
    have high : 4 * (n * 2 ^ (d + 1)) ≤ 4 * significand rank + 2 :=
      Nat.le_of_mul_le_mul_right (by linarith) step_pos
    omega
  refine fraction (isWhole_iff.mpr ?_)
  rw [units_eq, near, ← number]
  exact Nat.dvd_mul_left ..

/-- The shortest decimal of a double with places has places, and lies in its interval. -/
theorem exists_shortestDecimal (pos : 0 < rank) (fraction : ¬isWhole rank = true) :
    ∃ digits places : Nat, 0 < places ∧ shortestDecimal rank = ⟨digits, -places⟩ ∧
      (interval rank).holds (10 ^ places) (1 <<< (unitBits + 2)) digits = true := by
  have point := atExponent?_shortestDecimal pos
  generalize shortestDecimal rank = number at point
  obtain ⟨digits, e | p⟩ := number
  · have holds := Interval.holds_of_onGrid? _ point
    refine absurd (isWhole_of_holds (n := digits * 10 ^ e) ?_) fraction
    simpa only [Interval.holds, Nat.pow_eq, Nat.shiftLeft_eq, Nat.one_mul, Nat.mul_assoc] using holds
  · exact ⟨digits, p + 1, Nat.succ_pos p, rfl, Interval.holds_of_onGrid? _ point⟩

/-- A number that rounds to a positive double is at least half of the smallest one. -/
theorem le_of_holds {num den : Nat} (pos : 0 < rank)
    (holds : (interval rank).holds den (1 <<< (unitBits + 2)) num = true) :
    den ≤ 2 * (num * 2 ^ unitBits) := by
  have value : 2 ^ scale rank * den ≤ significand rank * (2 ^ scale rank * den) :=
    Nat.le_mul_of_pos_left _ (significand_pos rank pos)
  have wide : below rank * (2 ^ scale rank * den) ≤ 2 * (2 ^ scale rank * den) :=
    Nat.mul_le_mul_right _ (below_le rank)
  have step : den ≤ 2 ^ scale rank * den := Nat.le_mul_of_pos_left _ (Nat.two_pow_pos _)
  rw [holds_iff] at holds
  dsimp only at holds
  split at holds <;> omega

/-- A number that rounds to a double with places is at most `2 ^ 53`. -/
theorem le_of_holds_of_not_isWhole {num den : Nat} (fraction : ¬isWhole rank = true)
    (holds : (interval rank).holds den (1 <<< (unitBits + 2)) num = true) :
    num ≤ 2 ^ 53 * den := by
  have room : (significand rank + 1) * (2 ^ scale rank * den) ≤ 2 ^ 53 * (2 ^ scale rank * den) :=
    Nat.mul_le_mul_right _ (significand_lt rank)
  have step : 2 ^ scale rank * den ≤ 2 ^ unitBits * den :=
    Nat.mul_le_mul_right _ (Nat.pow_le_pow_right (by decide) (scale_lt_of_not_isWhole fraction).le)
  rw [Nat.succ_mul] at room
  rw [holds_iff] at holds
  have high : num * 2 ^ unitBits ≤ 2 ^ 53 * den * 2 ^ unitBits := by
    calc num * 2 ^ unitBits ≤ 2 ^ 53 * (2 ^ unitBits * den) := by
          dsimp only at holds
          split at holds <;> omega
      _ = 2 ^ 53 * den * 2 ^ unitBits := by ring
  exact Nat.le_of_mul_le_mul_right high (Nat.two_pow_pos _)

end Binary64
end Fluxion
