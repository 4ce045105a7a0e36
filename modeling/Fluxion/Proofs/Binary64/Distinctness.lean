import Fluxion.Proofs.Binary64.Literal
/- Different fractions have different prints (`eq_of_literal`), which is what makes a printed
   expression tell which one it is of.

   For numbers without sign there are two cases. Numbers with places, and whole numbers that are not
   too large, are read back from what they print as, so their prints tell them apart
   (`ReadsBack.eq_of_literal`). Other whole numbers are printed exactly, and no two doubles are of
   the same size (`units_injective`): a larger scale means a larger number, and at one scale the
   significands differ. A whole number cannot have the print of one that has places, since it would
   be small enough to be read back then (`readsBack_of_literal`).

   With a sign in front nothing changes, infinities are written as words, and what is not a number
   is left out, as there is nothing to tell apart. -/
namespace Fluxion

/-- Two texts that begin with runs of one class of characters and are the same have the same
    run in front. -/
theorem eq_of_runs {p : Char → Bool} {u v r s : List Char} (here : ∀ c ∈ u, p c = true)
    (there : ∀ c ∈ v, p c = true) (stop : ∀ c ∈ r.head?, p c = false)
    (stop' : ∀ c ∈ s.head?, p c = false) (same : u ++ r = v ++ s) : u = v ∧ r = s := by
  have none : ∀ {t : List Char}, (∀ c ∈ t.head?, p c = false) → t.takeWhile p = [] := by
    intro t stops
    cases t with
    | nil => rfl
    | cons c rest => exact List.takeWhile_cons_of_neg (by simp [stops c rfl])
  have runs := congrArg (List.takeWhile p) same
  rw [List.takeWhile_append_of_pos here, List.takeWhile_append_of_pos there, none stop, none stop',
    List.append_nil, List.append_nil] at runs
  subst runs
  exact ⟨rfl, List.append_cancel_left same⟩

namespace Binary64

/-! ## Sizes -/

theorem units_lt_of_scale_lt {r s : Nat} (coarser : scale r < scale s) : units r < units s := by
  have small := significand_lt r
  have large := le_significand s (by omega)
  calc units r = significand r * 2 ^ scale r := units_eq r
    _ < 2 ^ 53 * 2 ^ scale r := Nat.mul_lt_mul_of_pos_right small (Nat.two_pow_pos _)
    _ = 2 ^ 52 * 2 ^ (scale r + 1) := by ring
    _ ≤ 2 ^ 52 * 2 ^ scale s := Nat.mul_le_mul_left _ (Nat.pow_le_pow_right (by decide) coarser)
    _ ≤ significand s * 2 ^ scale s := Nat.mul_le_mul_right _ large
    _ = units s := (units_eq s).symm

theorem units_injective {r s : Nat} (same : units r = units s) : r = s := by
  obtain coarser | scales | finer := Nat.lt_trichotomy (scale r) (scale s)
  · exact absurd same (Nat.ne_of_lt (units_lt_of_scale_lt coarser))
  · have significands : significand r = significand s := by
      rw [units_eq, units_eq, scales] at same
      exact Nat.eq_of_mul_eq_mul_right (Nat.two_pow_pos _) same
    rw [← rank_eq r, ← rank_eq s, scales, significands]
  · exact absurd same (Nat.ne_of_gt (units_lt_of_scale_lt finer))

/-! ## Digits around a point -/

theorem toDigits_injective {m n : Nat} (same : Nat.toDigits 10 m = Nat.toDigits 10 n) : m = n := by
  rw [← ofDigits_toDigits m, same, ofDigits_toDigits]

/-- Digits in front of a point end there. -/
theorem eq_of_pointed {u v r s : List Char} (here : ∀ c ∈ u, c.isDigit = true)
    (there : ∀ c ∈ v, c.isDigit = true) (same : u ++ '.' :: r = v ++ '.' :: s) : u = v ∧ r = s := by
  have stop : ∀ t, ∀ c ∈ ('.' :: t).head?, Char.isDigit c = false := by
    rintro t c ⟨⟩
    rfl
  obtain ⟨front, back⟩ := eq_of_runs here there (stop r) (stop s) same
  exact ⟨front, (List.cons.inj back).2⟩

theorem ReadsBack.eq_of_literal {x y : Binary64} (left : x.ReadsBack) (right : y.ReadsBack)
    (same : x.literal = y.literal) : x = y := by
  obtain ⟨front, back, text, -, -, digits, -, -, read⟩ := left
  obtain ⟨front', back', text', -, -, digits', -, -, read'⟩ := right
  rw [same, text'] at text
  obtain ⟨rfl, rfl⟩ := eq_of_pointed digits' digits text
  rw [← read, read']

theorem literal_of_isWhole {rank : Fin (2047 <<< 52)} (whole : isWhole rank = true) :
    ∃ n, units rank = n * 2 ^ unitBits ∧
      (finite false rank).literal.toList = Nat.toDigits 10 n ++ '.' :: ['0'] := by
  obtain ⟨n, exact⟩ := isWhole_iff.mp whole
  rw [Nat.mul_comm] at exact
  refine ⟨n, exact, ?_⟩
  rw [literal_finite, if_pos whole, exact, Nat.one_shiftLeft, Nat.mul_div_cancel _ (Nat.two_pow_pos _)]

/-- A whole number with the print of one that is not would be small enough to be read back. -/
theorem readsBack_of_literal {x : Binary64} {rank : Fin (2047 <<< 52)} (reads : x.ReadsBack)
    (same : (finite false rank).literal = x.literal) : (finite false rank).ReadsBack := by
  by_cases whole : isWhole rank = true
  · obtain ⟨n, exact, text⟩ := literal_of_isWhole whole
    obtain ⟨front, back, text', -, -, digits, -, bound, -⟩ := reads
    rw [same, text'] at text
    have areDigits : ∀ c ∈ Nat.toDigits 10 n, c.isDigit = true := fun _ =>
      Nat.isDigit_of_mem_toDigits (by decide) (by decide)
    rw [(eq_of_pointed digits areDigits text).1, ofDigits_toDigits] at bound
    have small : n < 2 ^ 63 := by
      have : (n : Int) ≤ 2 ^ 63 - 1 := bound
      omega
    refine readsBack_whole rank whole ?_
    rw [exact]
    exact Nat.mul_lt_mul_of_pos_right small (Nat.two_pow_pos _)
  · exact readsBack_places rank whole

theorem eq_of_literal_unsigned {r s : Fin (2047 <<< 52)}
    (same : (finite false r).literal = (finite false s).literal) : r = s := by
  suffices numbers : finite false r = finite false s by
    cases numbers
    rfl
  by_cases whole : isWhole r = true
  · by_cases whole' : isWhole s = true
    · obtain ⟨m, exact, text⟩ := literal_of_isWhole whole
      obtain ⟨n, exact', text'⟩ := literal_of_isWhole whole'
      rw [same, text'] at text
      rw [toDigits_injective (List.append_cancel_right text)] at exact'
      rw [Fin.ext (units_injective (exact.trans exact'.symm))]
    · have reads := readsBack_places s whole'
      exact (readsBack_of_literal reads same).eq_of_literal reads same
  · have reads := readsBack_places r whole
    exact reads.eq_of_literal (readsBack_of_literal reads same.symm) same

/-- Digits around a point. -/
def IsPointed (text : List Char) : Prop :=
  ∃ front back, text = front ++ '.' :: back ∧ front ≠ [] ∧ ∀ c ∈ front ++ back, c.isDigit = true

theorem isPointed_literal (rank : Fin (2047 <<< 52)) :
    IsPointed (finite false rank).literal.toList := by
  by_cases whole : isWhole rank = true
  · obtain ⟨n, -, text⟩ := literal_of_isWhole whole
    refine ⟨_, _, text, Nat.toDigits_ne_nil, fun c mem => ?_⟩
    obtain inFront | inBack := List.mem_append.mp mem
    · exact Nat.isDigit_of_mem_toDigits (by decide) (by decide) inFront
    · cases List.mem_singleton.mp inBack
      rfl
  · obtain ⟨front, back, text, some, -, digits, digits', -, -⟩ := readsBack_places rank whole
    refine ⟨front, back, text, some, fun c mem => ?_⟩
    exact (List.mem_append.mp mem).elim (digits c) (digits' c)

theorem not_isPointed_inf : ¬IsPointed "inf".toList := by
  rintro ⟨front, back, text, -, -⟩
  have point : '.' ∈ "inf".toList := by
    rw [text]
    simp
  revert point
  decide

/-! ## Signs -/

/-- Whether the number is written with a sign. -/
def isNegative : Binary64 → Bool
  | nan => false
  | infinity negative | finite negative _ => negative

/-- The number without its sign. -/
def magnitude : Binary64 → Binary64
  | nan => nan
  | infinity _ => infinity false
  | finite _ rank => finite false rank

theorem literal_eq (x : Binary64) :
    x.literal.toList = (if x.isNegative then ['-'] else []) ++ x.magnitude.literal.toList := by
  cases x with
  | nan => rfl
  | infinity negative => cases negative <;> rfl
  | finite negative rank =>
    simp only [literal, withSign, String.toList_ofList, magnitude, isNegative]
    rfl

theorem literal_magnitude {x : Binary64} (number : x ≠ nan) :
    IsPointed x.magnitude.literal.toList ∨ x.magnitude.literal.toList = "inf".toList := by
  cases x with
  | nan => exact absurd rfl number
  | infinity negative => exact .inr rfl
  | finite negative rank => exact .inl (isPointed_literal rank)

theorem literal_ne_infinity (rank : Fin (2047 <<< 52)) (negative : Bool) :
    (finite false rank).literal.toList ≠ (infinity negative).magnitude.literal.toList := by
  intro same
  have pointed := isPointed_literal rank
  rw [same] at pointed
  exact not_isPointed_inf pointed

/-- Numbers with the same sign and the same print behind it are the same. -/
theorem eq_of_literal {x y : Binary64} (number : x ≠ nan) (number' : y ≠ nan)
    (sign : x.isNegative = y.isNegative)
    (same : x.magnitude.literal.toList = y.magnitude.literal.toList) : x = y := by
  cases x with
  | nan => exact absurd rfl number
  | infinity negative =>
    cases y with
    | nan => exact absurd rfl number'
    | infinity negative' => rw [show negative = negative' from sign]
    | finite negative' rank => exact absurd same.symm (literal_ne_infinity rank negative)
  | finite negative rank =>
    cases y with
    | nan => exact absurd rfl number'
    | infinity negative' => exact absurd same (literal_ne_infinity rank negative')
    | finite negative' rank' =>
      rw [show negative = negative' from sign, eq_of_literal_unsigned (String.toList_inj.mp same)]

end Binary64
end Fluxion
