import Fluxion.Operator
import Fluxion.Token
/- Tokens of text that is put together from words and marks. A word is cut off where no letter and
   no digit follows (`Apart`), and a mark everywhere, so the tokens of a word or a mark in front of
   other text are one token and the tokens of that text (`scan_word`, `scan_digits`, `scan_mark`).
   This is what makes it possible to tell the tokens of a printed expression without scanning it.

   In the other direction, what a name token holds is an identifier (`isIdentifier_of_mem`), and
   what any token holds is a run of its kind (`exists_run_of_mem`). An identifier is a letter with
   letters and digits behind it (`IsIdentifier`), and a free name is one that is not the name of a
   function (`IsFreeName`). Letters and digits are those of ASCII throughout. -/
namespace Fluxion
namespace Token

/-- A letter with letters and digits behind it. -/
def IsIdentifier (word : List Char) : Prop :=
  ∃ first rest, word = first :: rest ∧ first.isAlpha = true ∧ ∀ c ∈ rest, c.isAlphanum = true

/-- The word is read as a name, and not as that of a function. -/
def IsFreeName (name : String) : Prop :=
  IsIdentifier name.toList ∧ Elementary.ofName? name = none

/-- A text that no word in front of it goes on with. -/
def Apart (text : List Char) : Prop := ∀ c ∈ text.head?, c.isAlphanum = false

theorem apart_nil : Apart [] := nofun

theorem apart_cons {c : Char} (mark : c.isAlphanum = false) (rest : List Char) : Apart (c :: rest) := by
  intro x here
  cases here
  exact mark

/-! ## Classes of characters -/

theorem isAlphanum_iff {c : Char} :
    c.isAlphanum = true ↔ c.isAlpha = true ∨ c.isDigit = true := by
  rw [Char.isAlphanum, Bool.or_eq_true]

theorem isBlankChar_eq_false {c : Char} (word : c.isAlphanum = true) : isBlankChar c = false := by
  rw [← Bool.not_eq_true]
  intro blank
  simp only [isBlankChar, Bool.or_eq_true, beq_iff_eq] at blank
  obtain ((rfl | rfl) | rfl) | rfl := blank <;> cases word

theorem isDigit_eq_false {c : Char} (letter : c.isAlpha = true) : c.isDigit = false := by
  have inAlphabet : (decide (c.val ≥ 65 ∧ c.val ≤ 90) || (c.val ≥ 97 && c.val ≤ 122)) = true := letter
  show (c.val ≥ 48 && c.val ≤ 57) = false
  grind

theorem ofFirst_letter {c : Char} (letter : c.isAlpha = true) : Kind.ofFirst c = .name := by
  have noBlank := isBlankChar_eq_false (isAlphanum_iff.mpr (.inl letter))
  simp [Kind.ofFirst, noBlank, isDigit_eq_false letter, letter]

theorem ofFirst_digit {c : Char} (digit : c.isDigit = true) : Kind.ofFirst c = .digits := by
  have noBlank := isBlankChar_eq_false (isAlphanum_iff.mpr (.inr digit))
  simp [Kind.ofFirst, noBlank, digit]

theorem isAlpha_of_ofFirst {c : Char} (name : Kind.ofFirst c = .name) : c.isAlpha = true := by
  unfold Kind.ofFirst at name
  split at name
  · cases name
  · split at name
    · cases name
    · split at name
      · assumption
      · unfold Kind.ofMark at name
        split at name <;> cases name

/-! ## Words and marks -/

/-- A run of characters in front of a text that it does not go on with is one token. -/
theorem scan_run_eq (start : Nat) (c : Char) (run rest : List Char)
    (goesOn : ∀ x ∈ run, (Kind.ofFirst c).goesOn x = true)
    (stops : ∀ x ∈ rest.head?, (Kind.ofFirst c).goesOn x = false) :
    let token : Token := ⟨Kind.ofFirst c, String.ofList (c :: run), start⟩
    scan start (c :: run ++ rest) = token :: scan token.stop rest := by
  have taken : rest.takeWhile (Kind.ofFirst c).goesOn = [] ∧
      rest.dropWhile (Kind.ofFirst c).goesOn = rest := by
    cases rest with
    | nil => exact ⟨rfl, rfl⟩
    | cons x rest =>
      have ends := stops x rfl
      exact ⟨List.takeWhile_cons_of_neg (by simp [ends]), List.dropWhile_cons_of_neg (by simp [ends])⟩
  intro token
  rw [List.cons_append, scan, List.takeWhile_append_of_pos goesOn,
    List.dropWhile_append_of_pos goesOn, taken.1, taken.2, List.append_nil]

theorem scan_run (start : Nat) (c : Char) (run rest : List Char)
    (goesOn : ∀ x ∈ run, (Kind.ofFirst c).goesOn x = true)
    (stops : ∀ x ∈ rest.head?, (Kind.ofFirst c).goesOn x = false) :
    ∃ stop, scan start (c :: run ++ rest) =
      ⟨Kind.ofFirst c, String.ofList (c :: run), start⟩ :: scan stop rest :=
  ⟨_, scan_run_eq start c run rest goesOn stops⟩

theorem scan_word (start : Nat) {word rest : List Char} (identifier : IsIdentifier word)
    (apart : Apart rest) :
    ∃ stop, scan start (word ++ rest) = ⟨.name, String.ofList word, start⟩ :: scan stop rest := by
  obtain ⟨first, run, rfl, letter, alphanum⟩ := identifier
  have kind := ofFirst_letter letter
  have scanned := scan_run start first run rest
    (by rw [kind]; exact alphanum) (by rw [kind]; exact apart)
  rwa [kind] at scanned

theorem scan_digits (start : Nat) {digits rest : List Char} (there : digits ≠ [])
    (allDigits : ∀ c ∈ digits, c.isDigit = true) (apart : Apart rest) :
    ∃ stop, scan start (digits ++ rest) = ⟨.digits, String.ofList digits, start⟩ :: scan stop rest := by
  cases digits with
  | nil => exact absurd rfl there
  | cons first run =>
    have kind := ofFirst_digit (allDigits first List.mem_cons_self)
    have scanned := scan_run start first run rest
      (by rw [kind]; exact fun x mem => allDigits x (List.mem_cons_of_mem first mem))
      (by
        rw [kind]
        intro x here
        have noWord := apart x here
        rw [Char.isAlphanum, Bool.or_eq_false_iff] at noWord
        exact noWord.2)
    rwa [kind] at scanned

theorem scan_mark (start : Nat) {c : Char} {kind : Kind} (mark : Kind.ofFirst c = kind)
    (alone : ∀ x, kind.goesOn x = false) (rest : List Char) :
    ∃ stop, scan start (c :: rest) = ⟨kind, String.ofList [c], start⟩ :: scan stop rest := by
  subst mark
  exact scan_run start c [] rest nofun fun x _ => alone x

/-- A mark is a token wherever it stands. -/
theorem exists_scan_suffix {c : Char} (alone : ∀ kind : Kind, kind.goesOn c = false)
    (front rest : List Char) (start : Nat) :
    ∃ stop, scan stop (c :: rest) <:+ scan start (front ++ c :: rest) := by
  generalize text_eq : front ++ c :: rest = text
  fun_induction scan start text generalizing front with
  | case1 => cases front <;> cases text_eq
  | case2 start first tail kind token ih =>
    cases front with
    | nil =>
      cases text_eq
      have scanned : scan start (c :: rest) =
          token :: scan token.stop (rest.dropWhile kind.goesOn) := by rw [scan]
      exact ⟨start, scanned ▸ List.suffix_rfl⟩
    | cons first' front =>
      obtain ⟨rfl, rfl⟩ := List.cons.inj text_eq
      have stops : front.dropWhile kind.goesOn ++ c :: rest =
          (front ++ c :: rest).dropWhile kind.goesOn := by
        rw [List.dropWhile_append]
        split
        next run =>
          rw [List.isEmpty_iff.mp run, List.dropWhile_cons_of_neg (by simp [alone]), List.nil_append]
        next => rfl
      obtain ⟨stop, behind⟩ := ih _ stops
      exact ⟨stop, behind.trans (List.suffix_cons _ _)⟩

/-! ## What tokens hold -/

/-- The text of a token is a run of its kind. -/
theorem exists_run_of_mem {start : Nat} {text : List Char} {token : Token}
    (mem : token ∈ scan start text) :
    ∃ first run, token.text.toList = first :: run ∧ Kind.ofFirst first = token.kind ∧
      ∀ c ∈ run, token.kind.goesOn c = true := by
  fun_induction scan start text with
  | case1 => cases mem
  | case2 start c rest kind here ih =>
    obtain rfl | later := List.mem_cons.mp mem
    · exact ⟨c, _, String.toList_ofList, rfl, List.all_eq_true.mp List.all_takeWhile⟩
    · exact ih later

theorem isIdentifier_of_mem {start : Nat} {text : List Char} {token : Token}
    (mem : token ∈ scan start text) (name : token.kind = .name) :
    IsIdentifier token.text.toList := by
  obtain ⟨first, run, text_eq, kind, goesOn⟩ := exists_run_of_mem mem
  rw [name] at kind goesOn
  exact ⟨first, run, text_eq, isAlpha_of_ofFirst kind, goesOn⟩

end Token
end Fluxion
