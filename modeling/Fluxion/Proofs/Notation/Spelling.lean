import Fluxion.Proofs.Notation.Lexing
import Fluxion.Proofs.Notation.Markup
/- Leaves in LaTeX. An integer or a fraction is a word with a sign or without, and an identifier is
   a word without one (`IsSpelled.exists_word`). Words are all that a reader of LaTeX sees of the
   leaves, so it must be shown that they tell the leaves apart.

   Different leaves have different words (`IsSpelled.eq_of_latex`). Integers differ in their digits
   (`decimal_injective`), fractions in theirs, which takes what is known of the prints of doubles,
   and identifiers in their letters, since a subscript can be put back behind its first letter in
   one way only (`identifier_injective`). Across the sorts, only a fraction has a point or is
   infinite, and only an identifier begins with a letter that nothing but a subscript follows. A
   fraction that is no number is left out. -/
namespace Fluxion

open Token

namespace Phrase

/-! ## Words -/

theorem identifier_injective {s t : String} (same : identifier s = identifier t) : s = t := by
  rw [← String.toList_inj]
  rw [identifier, identifier] at same
  revert same
  cases s.toList with
  | nil =>
    match t.toList with
    | [] | [_] | _ :: _ :: _ => simp
  | cons c rest =>
    cases rest with
    | nil =>
      match t.toList with
      | [] | [_] | _ :: _ :: _ => simp
    | cons d rest =>
      match t.toList with
      | [] | [_] | _ :: _ :: _ => simp

theorem isWord_identifier {name : String} (letters : IsIdentifier name.toList) :
    IsWord (identifier name) := by
  obtain ⟨first, rest, text, letter, others⟩ := letters
  have here : ∀ c ∈ [first], isWordChar c = true := by
    intro c mem
    rw [List.mem_singleton.mp mem, isWordChar, isAlphanum_iff.mpr (.inl letter), Bool.true_or]
  rw [identifier, text]
  cases rest with
  | nil => exact ⟨[first], [], rfl, nofun, here, .inl rfl⟩
  | cons next rest => exact ⟨[first], _, rfl, nofun, here, .inr ⟨next :: rest, rfl, others⟩⟩

theorem isWord_of_chars {text : List Char} (some : text ≠ []) (chars : ∀ c ∈ text, isWordChar c = true) :
    IsWord text :=
  ⟨text, [], (List.append_nil _).symm, some, chars, .inl rfl⟩

theorem isWordChar_of_isDigit {c : Char} (digit : c.isDigit = true) : isWordChar c = true := by
  rw [isWordChar, isAlphanum_iff.mpr (.inr digit), Bool.true_or]

theorem isWord_toDigits (n : Nat) : IsWord (Nat.toDigits 10 n) :=
  isWord_of_chars Nat.toDigits_ne_nil fun _ mem =>
    isWordChar_of_isDigit (Nat.isDigit_of_mem_toDigits (by decide) (by decide) mem)

theorem isWord_magnitude {x : Binary64} (number : x ≠ .nan) :
    IsWord x.magnitude.literal.toList := by
  obtain ⟨front, back, text, -, digits⟩ | infinite := Binary64.literal_magnitude number
  · rw [text]
    refine isWord_of_chars (by simp) fun c mem => ?_
    obtain inFront | inBack := List.mem_append.mp mem
    · exact isWordChar_of_isDigit (digits c (List.mem_append_left _ inFront))
    · obtain rfl | inBack := List.mem_cons.mp inBack
      · rfl
      · exact isWordChar_of_isDigit (digits c (List.mem_append_right _ inBack))
  · rw [infinite]
    refine isWord_of_chars nofun fun c mem => ?_
    have letter : c = 'i' ∨ c = 'n' ∨ c = 'f' := by simpa using mem
    obtain rfl | rfl | rfl := letter <;> decide

/-- The phrase of a leaf: an integer, a fraction that is a number, or an identifier. -/
def IsSpelled : Phrase → Prop
  | integer _ => True
  | fraction x => x ≠ .nan
  | name text => IsIdentifier text.toList
  | absent | operation .. => False

variable {p q : Phrase}

theorem IsSpelled.exists_word (spelled : p.IsSpelled) :
    ∃ signed, ∃ w : Word, p.latex = signText signed ++ w.text := by
  cases p with
  | integer n =>
    cases value : n.toInt with
    | ofNat k => exact ⟨false, ⟨_, isWord_toDigits k⟩, by rw [latex, value]; rfl⟩
    | negSucc k => exact ⟨true, ⟨_, isWord_toDigits (k + 1)⟩, by rw [latex, value]; rfl⟩
  | fraction x => exact ⟨x.isNegative, ⟨_, isWord_magnitude spelled⟩, x.literal_eq⟩
  | name text => exact ⟨false, ⟨_, isWord_identifier spelled⟩, rfl⟩
  | absent | operation => exact spelled.elim

/-! ## Different leaves -/

theorem mem_decimal {n : Int} {c : Char} (mem : c ∈ decimal n) : c = '-' ∨ c.isDigit = true := by
  cases n with
  | ofNat k => exact .inr (Nat.isDigit_of_mem_toDigits (by decide) (by decide) mem)
  | negSucc k =>
    obtain rfl | digit := List.mem_cons.mp mem
    · exact .inl rfl
    · exact .inr (Nat.isDigit_of_mem_toDigits (by decide) (by decide) digit)

theorem decimal_injective {m n : Int} (same : decimal m = decimal n) : m = n := by
  have noSign : ∀ i j, Nat.toDigits 10 i ≠ '-' :: Nat.toDigits 10 j := by
    intro i j same
    have minus : '-' ∈ Nat.toDigits 10 i := by simp [same]
    cases Nat.isDigit_of_mem_toDigits (by decide) (by decide) minus
  cases m with
  | ofNat i =>
    cases n with
    | ofNat j => exact congrArg Int.ofNat (Binary64.toDigits_injective same)
    | negSucc j => exact absurd same (noSign _ _)
  | negSucc i =>
    cases n with
    | ofNat j => exact absurd same.symm (noSign _ _)
    | negSucc j =>
      have successors := Binary64.toDigits_injective (List.cons.inj same).2
      exact congrArg Int.negSucc (Nat.succ.inj successors)

/-- The characters of a fraction are not those of an integer, nor is it an identifier. -/
theorem literal_cases {x : Binary64} (number : x ≠ .nan) :
    '.' ∈ x.literal.toList ∨ x.literal.toList = "inf".toList ∨ x.literal.toList = "-inf".toList := by
  have text := x.literal_eq
  obtain ⟨front, back, pointed, -, -⟩ | infinite := Binary64.literal_magnitude number
  · left
    rw [text, pointed]
    simp
  · rw [infinite] at text
    cases sign : x.isNegative with
    | false => exact .inr (.inl (by rw [text, sign]; rfl))
    | true => exact .inr (.inr (by rw [text, sign]; rfl))

theorem integer_ne_fraction {n : Int64} {x : Binary64} (number : x ≠ .nan) :
    (integer n).latex ≠ (fraction x).latex := by
  intro same
  have here : ∀ c ∈ x.literal.toList, c = '-' ∨ c.isDigit = true := by
    intro c mem
    rw [show x.literal.toList = decimal n.toInt from same.symm] at mem
    exact mem_decimal mem
  obtain pointed | infinite | infinite := literal_cases number
  · exact absurd (here '.' pointed) (by decide)
  · exact absurd (here 'n' (by rw [infinite]; decide)) (by decide)
  · exact absurd (here 'n' (by rw [infinite]; decide)) (by decide)

/-- An identifier begins with a letter, and what comes next is a subscript. -/
theorem identifier_cases {name : String} (letters : IsIdentifier name.toList) :
    ∃ first sub, identifier name = first :: sub ∧ first.isAlpha = true ∧
      (∀ c ∈ sub.head?, c = '_') ∧ ∀ c ∈ sub, c.isAlphanum = true ∨ c ∈ ['_', '\x7b', '\x7d'] := by
  obtain ⟨first, rest, text, letter, others⟩ := letters
  rw [identifier, text]
  cases rest with
  | nil => exact ⟨first, [], rfl, letter, nofun, nofun⟩
  | cons next rest =>
    refine ⟨first, '_' :: '\x7b' :: (next :: rest ++ ['\x7d']), rfl, letter, ?_, fun c mem => ?_⟩
    · rintro c ⟨⟩
      rfl
    · obtain rfl | mem := List.mem_cons.mp mem
      · exact .inr (by decide)
      · obtain rfl | mem := List.mem_cons.mp mem
        · exact .inr (by decide)
        · obtain inner | close := List.mem_append.mp mem
          · exact .inl (others c inner)
          · exact .inr (by rw [List.mem_singleton.mp close]; decide)

theorem integer_ne_name {n : Int64} {text : String} (letters : IsIdentifier text.toList) :
    (integer n).latex ≠ (name text).latex := by
  intro same
  obtain ⟨first, sub, identified, letter, -, -⟩ := identifier_cases letters
  have mem : first ∈ decimal n.toInt := by
    rw [show decimal n.toInt = identifier text from same, identified]
    exact List.mem_cons_self
  obtain rfl | digit := mem_decimal mem
  · cases letter
  · rw [isDigit_eq_false letter] at digit
    cases digit

theorem fraction_ne_name {x : Binary64} (number : x ≠ .nan) {text : String}
    (letters : IsIdentifier text.toList) : (fraction x).latex ≠ (name text).latex := by
  intro same
  obtain ⟨first, sub, identified, letter, next, marks⟩ := identifier_cases letters
  have chars : x.literal.toList = first :: sub := same.trans identified
  obtain pointed | infinite | infinite := literal_cases number
  · rw [chars] at pointed
    obtain rfl | mem := List.mem_cons.mp pointed
    · cases letter
    · exact absurd (marks '.' mem) (by decide)
  · rw [chars] at infinite
    cases infinite
    exact absurd (next 'n' rfl) (by decide)
  · rw [chars] at infinite
    cases infinite
    cases letter

theorem eq_of_fraction {x y : Binary64} (number : x ≠ .nan) (number' : y ≠ .nan)
    (same : (fraction x).latex = (fraction y).latex) : x = y := by
  let word (z : Binary64) (number : z ≠ .nan) : Word := ⟨_, isWord_magnitude number⟩
  have text (z : Binary64) (number : z ≠ .nan) :
      (fraction z).latex = signText z.isNegative ++ ((word z number).text ++ []) := by
    rw [List.append_nil]
    exact z.literal_eq
  rw [text x number, text y number'] at same
  obtain ⟨sign, magnitude⟩ := Markup.signed_eq same
  rw [List.append_nil, List.append_nil] at magnitude
  exact Binary64.eq_of_literal number number' sign magnitude

/-- Leaves are told apart. -/
theorem IsSpelled.eq_of_latex (spelled : p.IsSpelled) (spelled' : q.IsSpelled)
    (same : p.latex = q.latex) : p = q := by
  cases p with
  | integer n =>
    cases q with
    | integer m => exact congrArg integer (Int64.toInt_inj.mp (decimal_injective same))
    | fraction y => exact absurd same (integer_ne_fraction spelled')
    | name text => exact absurd same (integer_ne_name spelled')
    | absent | operation => exact spelled'.elim
  | fraction x =>
    cases q with
    | integer m => exact absurd same.symm (integer_ne_fraction spelled)
    | fraction y => exact congrArg fraction (eq_of_fraction spelled spelled' same)
    | name text => exact absurd same (fraction_ne_name spelled spelled')
    | absent | operation => exact spelled'.elim
  | name text =>
    cases q with
    | integer m => exact absurd same.symm (integer_ne_name spelled)
    | fraction y => exact absurd same.symm (fraction_ne_name spelled' spelled)
    | name text' => exact congrArg name (identifier_injective same)
    | absent | operation => exact spelled'.elim
  | absent | operation => exact spelled.elim

end Phrase
end Fluxion
