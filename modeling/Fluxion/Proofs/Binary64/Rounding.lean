import Mathlib.Tactic.Ring
import Mathlib.Tactic.Linarith
import Fluxion.Binary64.Printing
/- Which numbers round to a double. The interval of a positive rank is given in quarters of a unit
   of its last place, and every number in it rounds to the double (`nearestRank_of_holds`).

   Mostly, a number of the interval lies within half a step of the double, and rounding works at the
   scale of the double (`nearestRank_of_wide`). The other case is the bottom of a binade: below a
   power of two the step is half as wide, so the interval reaches down only a quarter of a step, and
   what lies there is rounded at the next smaller scale (`nearestRank_of_narrow`). That is the only
   case in which the scale that rounding works at (`log2_sub_eq`) is not the scale of the double.

   Ends of an interval belong to it if the significand is even, which is the rule for halves
   (`roundHalfEven_eq`). -/
namespace Fluxion
namespace Binary64

section Ranks

variable (rank : Nat)

theorem significand_lt : significand rank < 2 ^ 53 := by
  unfold significand
  split <;> simp only [Nat.one_shiftLeft] at * <;> omega

theorem rank_eq : scale rank * 2 ^ 52 + significand rank = rank := by
  unfold scale significand
  split <;> simp only [Nat.one_shiftLeft] at * <;> omega

theorem le_significand (scaled : 0 < scale rank) : 2 ^ 52 ≤ significand rank := by
  unfold scale at scaled
  unfold significand
  split <;> simp only [Nat.one_shiftLeft] at * <;> omega

theorem significand_pos (pos : 0 < rank) : 0 < significand rank := by
  unfold significand
  split <;> simp only [Nat.one_shiftLeft] at * <;> omega

theorem units_eq : units rank = significand rank * 2 ^ scale rank := Nat.shiftLeft_eq ..

end Ranks

/-! ## The interval of a double -/

/-- How far below the double its interval begins, in quarters of its step. -/
def below (rank : Nat) : Nat := if significand rank = 2 ^ 52 ∧ 0 < scale rank then 1 else 2

theorem below_le (rank : Nat) : below rank ≤ 2 := by
  unfold below
  split <;> decide

/-- What the interval says of `num / den`, multiplied by `4 * den`. -/
theorem holds_iff (rank num den : Nat) :
    (interval rank).holds den (1 <<< (unitBits + 2)) num = true ↔
      (let value := 4 * (significand rank * (2 ^ scale rank * den))
       let low := value - below rank * (2 ^ scale rank * den)
       let high := value + 2 * (2 ^ scale rank * den)
       let number := 4 * (num * 2 ^ unitBits)
       if significand rank % 2 = 0 then low ≤ number ∧ number ≤ high
       else low < number ∧ number < high) := by
  have low : (interval rank).low * den
      = 4 * (significand rank * (2 ^ scale rank * den)) - below rank * (2 ^ scale rank * den) := by
    have gap : (if significand rank = 1 <<< 52 ∧ 0 < scale rank then 1 <<< scale rank
        else 2 * 1 <<< scale rank) = below rank * 2 ^ scale rank := by
      unfold below
      simp only [Nat.one_shiftLeft]
      split <;> simp
    simp only [interval, gap, units_eq, Nat.sub_mul, Nat.mul_assoc]
  have high : (interval rank).high * den
      = 4 * (significand rank * (2 ^ scale rank * den)) + 2 * (2 ^ scale rank * den) := by
    simp only [interval, units_eq, Nat.one_shiftLeft]
    ring
  have number : num * 1 <<< (unitBits + 2) = 4 * (num * 2 ^ unitBits) := by
    rw [Nat.one_shiftLeft]
    ring
  unfold Interval.holds
  rw [low, high, number]
  simp only [interval, beq_iff_eq]
  split <;> simp

/-! ## Rounding -/

/-- A quotient that is at most half off a natural number rounds to it, if it is
    less than half off or the number is even. -/
theorem roundHalfEven_eq {num den n : Nat} (low : 2 * (n * den) ≤ 2 * num + den)
    (high : 2 * num ≤ 2 * (n * den) + den)
    (odd : n % 2 ≠ 0 → 2 * (n * den) < 2 * num + den ∧ 2 * num < 2 * (n * den) + den)
    (pos : 0 < den) : roundHalfEven num den = n := by
  unfold roundHalfEven
  dsimp only
  by_cases reaches : n * den ≤ num
  · have quotient : num / den = n := Nat.div_eq_of_lt_le reaches (by rw [Nat.succ_mul]; omega)
    have remainder : num % den = num - n * den := by
      rw [Nat.mod_eq_sub_div_mul, quotient]
    rw [quotient, remainder]
    split_ifs <;> omega
  · obtain ⟨n, rfl⟩ : ∃ n', n = n' + 1 := Nat.exists_eq_succ_of_ne_zero (by rintro rfl; simp at reaches)
    have next : (n + 1) * den = n * den + den := Nat.succ_mul ..
    have quotient : num / den = n := Nat.div_eq_of_lt_le (by omega) (by rw [Nat.succ_mul]; omega)
    have remainder : num % den = num - n * den := by
      rw [Nat.mod_eq_sub_div_mul, quotient]
    rw [quotient, remainder]
    split_ifs <;> omega

/-- The scale that a number is rounded at. -/
theorem log2_sub_eq {num den s : Nat} (pos : 0 < den) (high : num < 2 ^ 53 * (2 ^ s * den))
    (low : s = 0 ∨ 2 ^ 52 * (2 ^ s * den) ≤ num) : (num / den).log2 - 52 = s := by
  have upper : num / den < 2 ^ (s + 53) := by
    rw [Nat.div_lt_iff_lt_mul pos]
    calc num < 2 ^ 53 * (2 ^ s * den) := high
      _ = 2 ^ (s + 53) * den := by ring
  have upper : (num / den).log2 < s + 53 := by
    by_cases zero : num / den = 0
    · simp [zero]
    · exact (Nat.log2_lt zero).mpr upper
  obtain rfl | low := low
  · omega
  · have lower : 2 ^ (s + 52) ≤ num / den := by
      rw [Nat.le_div_iff_mul_le pos]
      calc 2 ^ (s + 52) * den = 2 ^ 52 * (2 ^ s * den) := by ring
        _ ≤ num := low
    have nonzero : num / den ≠ 0 := by
      have := Nat.two_pow_pos (s + 52)
      omega
    have := (Nat.le_log2 nonzero).mpr lower
    omega

/-- Rounding at a scale that fits the number. -/
theorem nearestRank_eq {num den s n : Nat} (pos : 0 < den)
    (high : num * 2 ^ unitBits < 2 ^ 53 * (2 ^ s * den))
    (low : s = 0 ∨ 2 ^ 52 * (2 ^ s * den) ≤ num * 2 ^ unitBits)
    (rounds : roundHalfEven (num * 2 ^ unitBits) (2 ^ s * den) = n) :
    nearestRank num den = s * 2 ^ 52 + n := by
  unfold nearestRank
  simp only [Nat.shiftLeft_eq, log2_sub_eq pos high low]
  rw [Nat.mul_comm den, rounds]

section Nearest

variable {rank num den : Nat}

/-- Where the gaps on both sides of the double are equally wide. -/
theorem nearestRank_of_wide (den_pos : 0 < den) (wide : below rank = 2)
    (holds : (interval rank).holds den (1 <<< (unitBits + 2)) num = true) :
    nearestRank num den = rank := by
  rw [holds_iff, wide] at holds
  dsimp only at holds
  have low : 2 * (significand rank * (2 ^ scale rank * den)) ≤
      2 * (num * 2 ^ unitBits) + 2 ^ scale rank * den := by split at holds <;> omega
  have high : 2 * (num * 2 ^ unitBits) ≤
      2 * (significand rank * (2 ^ scale rank * den)) + 2 ^ scale rank * den := by
    split at holds <;> omega
  have room : (significand rank + 1) * (2 ^ scale rank * den) ≤ 2 ^ 53 * (2 ^ scale rank * den) :=
    Nat.mul_le_mul_right _ (significand_lt rank)
  have step_pos : 0 < 2 ^ scale rank * den := Nat.mul_pos (Nat.two_pow_pos _) den_pos
  rw [Nat.succ_mul] at room
  calc nearestRank num den = scale rank * 2 ^ 52 + significand rank := by
        refine nearestRank_eq den_pos (by omega) ?_ (roundHalfEven_eq low high ?_ step_pos)
        · by_cases zero : scale rank = 0
          · exact .inl zero
          · right
            have least : 2 ^ 52 + 1 ≤ significand rank := by
              have := le_significand rank (by omega)
              have : ¬(significand rank = 2 ^ 52 ∧ 0 < scale rank) := by
                intro narrow
                rw [below, if_pos narrow] at wide
                omega
              omega
            have := Nat.mul_le_mul_right (2 ^ scale rank * den) least
            rw [Nat.succ_mul] at this
            omega
        · intro odd
          rw [if_neg odd] at holds
          omega
    _ = rank := rank_eq rank

/-- Above a power of two, where the step below the double is half as wide. What
    is below the double is rounded in the smaller steps. -/
theorem nearestRank_of_narrow (den_pos : 0 < den) (narrow : significand rank = 2 ^ 52)
    (scaled : 0 < scale rank)
    (holds : (interval rank).holds den (1 <<< (unitBits + 2)) num = true) :
    nearestRank num den = rank := by
  obtain ⟨s, hs⟩ : ∃ s, scale rank = s + 1 := Nat.exists_eq_succ_of_ne_zero (by omega)
  have step_pos : 0 < 2 ^ s * den := Nat.mul_pos (Nat.two_pow_pos _) den_pos
  have halves : 2 ^ (s + 1) * den = 2 * (2 ^ s * den) := by ring
  have value := rank_eq rank
  have quarter : below rank = 1 := if_pos ⟨narrow, scaled⟩
  rw [holds_iff, quarter, narrow, hs, halves, if_pos (by decide)] at holds
  rw [narrow, hs] at value
  by_cases reaches : 2 ^ 52 * (2 ^ (s + 1) * den) ≤ num * 2 ^ unitBits
  · calc nearestRank num den = (s + 1) * 2 ^ 52 + 2 ^ 52 := by
          refine nearestRank_eq den_pos ?_ (.inr reaches) (roundHalfEven_eq ?_ ?_ ?_ ?_) <;> omega
      _ = rank := value
  · calc nearestRank num den = s * 2 ^ 52 + 2 ^ 53 := by
          refine nearestRank_eq den_pos ?_ (.inr ?_) (roundHalfEven_eq ?_ ?_ ?_ step_pos) <;> omega
      _ = (s + 1) * 2 ^ 52 + 2 ^ 52 := by ring
      _ = rank := value

/-- **A number in the interval of a double rounds to the double.** -/
theorem nearestRank_of_holds (den_pos : 0 < den)
    (holds : (interval rank).holds den (1 <<< (unitBits + 2)) num = true) :
    nearestRank num den = rank := by
  by_cases narrow : significand rank = 2 ^ 52 ∧ 0 < scale rank
  · exact nearestRank_of_narrow den_pos narrow.1 narrow.2 holds
  · exact nearestRank_of_wide den_pos (if_neg narrow) holds

end Nearest

end Binary64
end Fluxion
