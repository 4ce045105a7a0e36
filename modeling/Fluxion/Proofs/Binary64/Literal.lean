import Fluxion.Binary64.Reading
import Fluxion.Proofs.Binary64.Shortest
/- The print of a fraction literal is read as the fraction (`readsBack`), for numbers without sign
   and below `2 ^ 63`; what is larger has too many digits in front of the point to be read at all.

   A whole number is printed exactly (`readsBack_whole`); any other number by the shortest decimal,
   which rounds to it (`readsBack_places`). Both are digits around a point, and reading them is one
   rounding (`ofDecimal_eq`), since their size is far inside the range in which powers of ten are
   computed. Rounding finds the number again because its print lies in its interval (`ofPlaces_eq`),
   and that the search for the shortest decimal ends there is taken from
   `Fluxion.Proofs.Binary64.Shortest`. No fraction of a source has a sign, as a sign is an operator
   there (`isUnsigned_ofPlaces`). -/
namespace Fluxion
namespace Binary64

/-- The number has no sign. -/
def IsUnsigned : Binary64 → Prop
  | nan => False
  | infinity negative | finite negative _ => negative = false

/-- The number is less than a natural number. -/
def IsBelow (x : Binary64) (bound : Nat) : Prop :=
  match x with
  | nan => False
  | infinity negative => negative = true
  | finite negative rank => negative = true ∨ units rank < bound <<< unitBits

/-- The print of the fraction is digits, a point and digits, and is read as the fraction. -/
def ReadsBack (x : Binary64) : Prop :=
  ∃ whole places, x.literal.toList = whole ++ '.' :: places ∧ whole ≠ [] ∧ places ≠ [] ∧
    (∀ c ∈ whole, c.isDigit = true) ∧ (∀ c ∈ places, c.isDigit = true) ∧
    (ofDigits whole : Int) ≤ Int64.maxValue.toInt ∧ ofPlaces whole places = x

theorem isUnsigned_ofPlaces (whole places : List Char) : (ofPlaces whole places).IsUnsigned := by
  have ranked : ∀ rank, (ofRank false rank).IsUnsigned := by
    intro rank
    rw [ofRank]
    split <;> exact rfl
  unfold ofPlaces ofDecimal
  dsimp only
  split
  · exact ranked 0
  · split
    · exact rfl
    · split <;> exact ranked _

/-! ## Digits around a point -/

theorem ofDigits_toDigits (k : Nat) : ofDigits (Nat.toDigits 10 k) = k := Nat.ofDigitChars_ten_toDigits

theorem ofDigits_append (front back : List Char) :
    ofDigits (front ++ back) = 10 ^ back.length * ofDigits front + ofDigits back := by
  show Nat.ofDigitChars 10 (front ++ back) 0 = _
  rw [Nat.ofDigitChars_append, Nat.ofDigitChars_eq_ofDigitChars_zero]
  rfl

/-- Decimals with places are split at the point, behind as many zeros as it takes. -/
theorem exists_positional (digits : Nat) {places : Nat} (pos : 0 < places) :
    ∃ front back, Decimal.positional ⟨digits, -places⟩ = front ++ '.' :: back ∧ front ≠ [] ∧
      back.length = places ∧ (∀ c ∈ front ++ back, c.isDigit = true) ∧
      ofDigits (front ++ back) = digits := by
  obtain ⟨p, rfl⟩ := Nat.exists_eq_succ_of_ne_zero (Nat.ne_of_gt pos)
  generalize padded_eq : List.replicate (p + 1 + 1 - (Nat.toDigits 10 digits).length) '0'
    ++ Nat.toDigits 10 digits = padded
  have long : p + 1 + 1 ≤ padded.length := by
    rw [← padded_eq, List.length_append, List.length_replicate]
    omega
  refine ⟨padded.take (padded.length - (p + 1)), padded.drop (padded.length - (p + 1)), ?_, ?_, ?_,
    ?_, ?_⟩
  · rw [← padded_eq]
    rfl
  · rw [← List.length_pos_iff, List.length_take]
    omega
  · rw [List.length_drop]
    omega
  · rw [List.take_append_drop, ← padded_eq]
    intro c here
    obtain here | here := List.mem_append.mp here
    · rw [List.eq_of_mem_replicate here]
      rfl
    · exact Nat.isDigit_of_mem_toDigits (by decide) (by decide) here
  · rw [List.take_append_drop, ← padded_eq]
    show Nat.ofDigitChars 10 _ 0 = digits
    rw [Nat.ofDigitChars_append, Nat.ofDigitChars_replicate_zero, Nat.mul_zero,
      Nat.ofDigitChars_ten_toDigits]

theorem length_toDigits_bounds {digits : Nat} (nonzero : digits ≠ 0) :
    digits < 10 ^ (Nat.toDigits 10 digits).length ∧
      10 ^ ((Nat.toDigits 10 digits).length - 1) ≤ digits := by
  have long : 0 < (Nat.toDigits 10 digits).length := Nat.length_toDigits_pos
  constructor
  · exact (Nat.length_toDigits_le_iff (by decide) long).mp (Nat.le_refl _)
  · by_cases one : (Nat.toDigits 10 digits).length = 1
    · rw [one]
      exact Nat.one_le_iff_ne_zero.mpr nonzero
    · refine Nat.le_of_not_lt fun small => ?_
      have := (Nat.length_toDigits_le_iff (by decide) (by omega)).mpr small
      omega

/-- Reading a number that is neither far too large nor far too small is rounding it. -/
theorem ofDecimal_eq {digits places : Nat} (pos : 0 < places) (nonzero : digits ≠ 0)
    (low : 10 ^ places ≤ 2 * (digits * 2 ^ unitBits)) (high : digits ≤ 2 ^ 64 * 10 ^ places) :
    ofDecimal false digits (-places) = nearest false digits (10 ^ places) := by
  obtain ⟨p, rfl⟩ := Nat.exists_eq_succ_of_ne_zero (Nat.ne_of_gt pos)
  obtain ⟨least, most⟩ := length_toDigits_bounds nonzero
  generalize length_eq : (Nat.toDigits 10 digits).length = length at least most
  have not_tiny (k : Nat) (large : unitBits + 1 ≤ 3 * k) : p + 1 < length + k := by
    refine (Nat.pow_lt_pow_iff_right (a := 10) (by decide)).mp ?_
    have units : 2 ^ (unitBits + 1) ≤ 10 ^ k :=
      calc 2 ^ (unitBits + 1) ≤ 2 ^ (3 * k) := Nat.pow_le_pow_right (by decide) large
        _ = (2 ^ 3) ^ k := Nat.pow_mul ..
        _ ≤ 10 ^ k := Nat.pow_le_pow_left (by decide) k
    calc 10 ^ (p + 1) ≤ 2 * (digits * 2 ^ unitBits) := low
      _ = digits * 2 ^ (unitBits + 1) := by ring
      _ < 10 ^ length * 2 ^ (unitBits + 1) := Nat.mul_lt_mul_of_pos_right least (Nat.two_pow_pos _)
      _ ≤ 10 ^ length * 10 ^ k := Nat.mul_le_mul_left _ units
      _ = 10 ^ (length + k) := (Nat.pow_add ..).symm
  have not_huge : length - 1 ≤ 20 + (p + 1) := by
    refine (Nat.pow_le_pow_iff_right (a := 10) (by decide)).mp ?_
    calc 10 ^ (length - 1) ≤ digits := most
      _ ≤ 2 ^ 64 * 10 ^ (p + 1) := high
      _ ≤ 10 ^ 20 * 10 ^ (p + 1) := Nat.mul_le_mul_right _ (by decide)
      _ = 10 ^ (20 + (p + 1)) := (Nat.pow_add ..).symm
  have := not_tiny 400 (by decide)
  unfold ofDecimal
  dsimp only
  rw [length_eq, if_neg (by omega), if_neg (by omega)]
  rfl

/-- A double is read from digits around a point that lie in its interval. -/
theorem ofPlaces_eq {whole places : List Char} {rank : Nat} (pos : 0 < rank)
    (pointed : 0 < places.length) (high : ofDigits (whole ++ places) ≤ 2 ^ 64 * 10 ^ places.length)
    (holds : (interval rank).holds (10 ^ places.length) (1 <<< (unitBits + 2))
      (ofDigits (whole ++ places)) = true) : ofPlaces whole places = ofRank false rank := by
  have one : 0 < 10 ^ places.length := Nat.pow_pos (by decide)
  have low := le_of_holds pos holds
  have nonzero : ofDigits (whole ++ places) ≠ 0 := by
    intro zero
    rw [zero] at low
    omega
  rw [ofPlaces, ofDecimal_eq pointed nonzero low high, nearest, nearestRank_of_holds one holds]

/-- The print of a whole number is read as the number. -/
theorem ofPlaces_whole {rank n : Nat} (exact : units rank = n * 2 ^ unitBits) (small : n < 2 ^ 63) :
    ofPlaces (Nat.toDigits 10 n) ['0'] = ofRank false rank := by
  have digits : ofDigits (Nat.toDigits 10 n ++ ['0']) = 10 * n := by
    rw [ofDigits_append, ofDigits_toDigits]
    rfl
  obtain rfl | pos := Nat.eq_zero_or_pos rank
  · have zero : n = 0 := by
      have : n * 2 ^ unitBits = 0 := exact.symm
      exact (Nat.mul_eq_zero.mp this).resolve_right (Nat.two_pow_pos _).ne'
    rw [zero]
    rfl
  · refine ofPlaces_eq pos Nat.one_pos ?_ ?_ <;> rw [digits]
    · show 10 * n ≤ 2 ^ 64 * 10 ^ 1
      omega
    · refine holds_units pos (Nat.pow_pos (by decide)) ?_
      rw [exact]
      show 10 * n * 2 ^ unitBits = n * 2 ^ unitBits * 10 ^ 1
      ring

section Finite

variable (rank : Fin (2047 <<< 52))

theorem ofRank_val : ofRank false rank = finite false rank := dif_pos rank.isLt

theorem literal_finite : (finite false rank).literal.toList =
    if isWhole rank then Nat.toDigits 10 (units rank / 1 <<< unitBits) ++ ['.', '0']
    else (shortestDecimal rank).positional := String.toList_ofList

theorem readsBack_whole (whole : isWhole rank = true)
    (small : units rank < 2 ^ 63 * 2 ^ unitBits) : (finite false rank).ReadsBack := by
  obtain ⟨n, exact⟩ := isWhole_iff.mp whole
  rw [Nat.mul_comm] at exact
  have bounded : n < 2 ^ 63 := Nat.lt_of_mul_lt_mul_right (exact ▸ small)
  refine ⟨Nat.toDigits 10 n, ['0'], ?_, Nat.toDigits_ne_nil, List.cons_ne_nil _ _,
    fun _ => Nat.isDigit_of_mem_toDigits (by decide) (by decide), List.all_eq_true.mp rfl, ?_, ?_⟩
  · rw [literal_finite, if_pos whole, exact, Nat.one_shiftLeft,
      Nat.mul_div_cancel _ (Nat.two_pow_pos _)]
  · rw [ofDigits_toDigits]
    show (n : Int) ≤ 2 ^ 63 - 1
    omega
  · rw [ofPlaces_whole exact bounded, ofRank_val]

theorem readsBack_places (fraction : ¬isWhole rank = true) : (finite false rank).ReadsBack := by
  have pos : 0 < rank.val := by
    refine Nat.pos_of_ne_zero fun zero => fraction ?_
    rw [zero]
    rfl
  obtain ⟨digits, places, pointed, shortest, holds⟩ := exists_shortestDecimal pos fraction
  obtain ⟨front, back, text, some, length, areDigits, value⟩ := exists_positional digits pointed
  have high := le_of_holds_of_not_isWhole fraction holds
  rw [← length] at pointed holds high
  rw [← value] at holds high
  have front_le : ofDigits front ≤ 2 ^ 53 := by
    rw [ofDigits_append, Nat.mul_comm] at high
    exact Nat.le_of_mul_le_mul_right (Nat.le_trans (Nat.le_add_right ..) high)
      (Nat.pow_pos (by decide))
  refine ⟨front, back, ?_, some, List.length_pos_iff.mp pointed,
    fun c here => areDigits c (List.mem_append_left _ here),
    fun c here => areDigits c (List.mem_append_right _ here), ?_, ?_⟩
  · rw [literal_finite, if_neg fraction, shortest, text]
  · show (ofDigits front : Int) ≤ 2 ^ 63 - 1
    omega
  · rw [ofPlaces_eq pos pointed (by omega) holds, ofRank_val]

end Finite

/-- **A fraction without sign is read back from its print**, if the digits in front of the
    point do not make too large an integer. -/
theorem readsBack {x : Binary64} (unsigned : x.IsUnsigned) (below : x.IsBelow (2 ^ 63)) :
    x.ReadsBack := by
  cases x with
  | nan => exact unsigned.elim
  | infinity negative =>
    rw [show negative = false from unsigned] at below
    cases below
  | finite negative rank =>
    obtain rfl : negative = false := unsigned
    by_cases whole : isWhole rank = true
    · refine readsBack_whole rank whole ?_
      rw [← Nat.shiftLeft_eq]
      exact below.resolve_left nofun
    · exact readsBack_places rank whole

end Binary64
end Fluxion
