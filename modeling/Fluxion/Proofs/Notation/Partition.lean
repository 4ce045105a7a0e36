import Fluxion.Proofs.Definition.Positions
import Mathlib.Data.List.Chain
/- What makes a list of tokens the tokens of a text, without a word on scanning. Every kind of token
   has a pattern, given as the texts that it takes (`Kind.Takes`), and a lexeme of a kind is what
   its pattern takes and no other has a better claim to (`Kind.IsLexeme`): symbols give way to all
   other kinds. The lexemes of a kind are the runs that scanning cuts off (`isLexeme_iff_isRun`).

   Lexemes that follow each other directly stay apart if none absorbs the next one (`AreApart`),
   which is a matter of their kinds alone (`goesOn_eq_absorbs`): digits behind a name would belong
   to it. So tokens that hold lexemes, lie end to end and stay apart are those of the text that they
   make up, and the tokens of a text are of this form (`scan_eq_iff`). There is one such list for
   each text. -/
namespace Fluxion
namespace Token

/-! ## Patterns -/

namespace Kind

/-- The character that is a token of this kind by itself. -/
def mark? : Kind → Option Char
  | plus => some '+'
  | minus => some '-'
  | star => some '*'
  | slash => some '/'
  | caret => some '^'
  | equals => some '='
  | openParen => some '('
  | closeParen => some ')'
  | dot => some '.'
  | comma => some ','
  | _ => none

/-- The pattern of a kind, as the texts that it takes. A symbol is any character but a line feed. -/
def Takes : Kind → List Char → Prop
  | blank, text => text ≠ [] ∧ ∀ c ∈ text, c ∈ [' ', '\t', '\n', '\r']
  | digits, text => text ≠ [] ∧ ∀ c ∈ text, c.isDigit = true
  | name, text => IsIdentifier text
  | symbol, text => ∃ c, text = [c] ∧ c ≠ '\n'
  | kind, text => ∃ c, kind.mark? = some c ∧ text = [c]

/-- Which pattern counts where several take the same text: symbols give way to all others. -/
def priority : Kind → Nat
  | symbol => 0
  | _ => 1

/-- The pattern of the kind takes the text, and none of higher priority does. -/
def IsLexeme (kind : Kind) (text : List Char) : Prop :=
  kind.Takes text ∧ ∀ other : Kind, other.Takes text → other.priority ≤ kind.priority

/-- A character that begins tokens of the kind, with characters that the kind goes on with. -/
def IsRun (kind : Kind) (text : List Char) : Prop :=
  ∃ first run, text = first :: run ∧ ofFirst first = kind ∧ ∀ c ∈ run, kind.goesOn c = true

variable {kind : Kind} {c : Char} {text : List Char}

theorem isBlankChar_iff : isBlankChar c = true ↔ c ∈ [' ', '\t', '\n', '\r'] := by
  simp [isBlankChar, or_assoc]

/-- A character is of one of four classes, which settles the kind of a token that it begins. -/
theorem ofFirst_cases (c : Char) :
    (isBlankChar c = true ∧ ofFirst c = blank) ∨ (c.isDigit = true ∧ ofFirst c = digits) ∨
      (c.isAlpha = true ∧ ofFirst c = name) ∨
      (isBlankChar c = false ∧ c.isAlphanum = false ∧ ofFirst c = ofMark c) := by
  by_cases isBlank : isBlankChar c = true
  · exact .inl ⟨isBlank, by simp [ofFirst, isBlank]⟩
  · by_cases digit : c.isDigit = true
    · exact .inr (.inl ⟨digit, ofFirst_digit digit⟩)
    · by_cases letter : c.isAlpha = true
      · exact .inr (.inr (.inl ⟨letter, ofFirst_letter letter⟩))
      · rw [Bool.not_eq_true] at isBlank digit letter
        have other : c.isAlphanum = false := by rw [Char.isAlphanum, letter, digit]; rfl
        refine .inr (.inr (.inr ⟨isBlank, other, ?_⟩))
        simp [ofFirst, isBlank, digit, letter]

theorem mark?_ofMark (c : Char) : (ofMark c).mark? = some c ∨ ofMark c = symbol := by
  unfold ofMark
  split <;> simp [mark?]

theorem ofMark_ne (c : Char) : ofMark c ≠ blank ∧ ofMark c ≠ digits ∧ ofMark c ≠ name := by
  unfold ofMark
  split <;> simp

theorem ofFirst_eq_blank_iff : ofFirst c = blank ↔ isBlankChar c = true := by
  constructor
  · intro kind
    rcases ofFirst_cases c with ⟨isBlank, -⟩ | ⟨-, other⟩ | ⟨-, other⟩ | ⟨-, -, other⟩
    · exact isBlank
    · rw [kind] at other; cases other
    · rw [kind] at other; cases other
    · exact absurd (other.symm.trans kind) (ofMark_ne c).1
  · intro isBlank
    simp [ofFirst, isBlank]

theorem ofFirst_eq_digits_iff : ofFirst c = digits ↔ c.isDigit = true := by
  constructor
  · intro kind
    rcases ofFirst_cases c with ⟨-, other⟩ | ⟨digit, -⟩ | ⟨-, other⟩ | ⟨-, -, other⟩
    · rw [kind] at other; cases other
    · exact digit
    · rw [kind] at other; cases other
    · exact absurd (other.symm.trans kind) (ofMark_ne c).2.1
  · exact ofFirst_digit

theorem ofFirst_eq_name_iff : ofFirst c = name ↔ c.isAlpha = true :=
  ⟨isAlpha_of_ofFirst, ofFirst_letter⟩

theorem ofFirst_of_mark? (mark : kind.mark? = some c) : ofFirst c = kind := by
  cases kind <;> cases mark <;> decide

theorem mark?_of_ofFirst (begins : ofFirst c = kind) (isMark : kind.mark?.isSome = true) :
    kind.mark? = some c := by
  subst begins
  rcases ofFirst_cases c with ⟨-, same⟩ | ⟨-, same⟩ | ⟨-, same⟩ | ⟨-, -, same⟩
  · rw [same] at isMark; cases isMark
  · rw [same] at isMark; cases isMark
  · rw [same] at isMark; cases isMark
  · rw [same] at isMark ⊢
    rcases mark?_ofMark c with mark | symbol
    · exact mark
    · rw [symbol] at isMark; cases isMark

theorem isRun_singleton (alone : ∀ x, kind.goesOn x = false) :
    kind.IsRun text ↔ ∃ c, text = [c] ∧ ofFirst c = kind := by
  constructor
  · rintro ⟨first, run, rfl, begins, goesOn⟩
    have empty : run = [] := by
      apply List.eq_nil_iff_forall_not_mem.mpr
      intro x mem
      have more := goesOn x mem
      rw [alone x] at more
      cases more
    rw [empty]
    exact ⟨first, rfl, begins⟩
  · rintro ⟨c, rfl, begins⟩
    exact ⟨c, [], rfl, begins, nofun⟩

theorem isRun_iff_forall {p : Char → Bool} (begins : ∀ c, ofFirst c = kind ↔ p c = true)
    (goesOn : ∀ c, kind.goesOn c = p c) :
    kind.IsRun text ↔ text ≠ [] ∧ ∀ c ∈ text, p c = true := by
  constructor
  · rintro ⟨first, run, rfl, first_eq, more⟩
    refine ⟨List.cons_ne_nil first run, ?_⟩
    intro c mem
    rcases List.mem_cons.mp mem with rfl | mem
    · exact (begins c).mp first_eq
    · rw [← goesOn c]
      exact more c mem
  · rintro ⟨there, all⟩
    obtain ⟨first, run, rfl⟩ := List.exists_cons_of_ne_nil there
    refine ⟨first, run, rfl, (begins first).mpr (all first List.mem_cons_self), ?_⟩
    intro c mem
    rw [goesOn c]
    exact all c (List.mem_cons_of_mem first mem)

/-- The runs of a kind are what its pattern takes, but for symbols. -/
theorem isRun_iff_takes (other : kind ≠ symbol) : kind.IsRun text ↔ kind.Takes text := by
  cases kind with
  | blank =>
    rw [isRun_iff_forall (fun c => ofFirst_eq_blank_iff) fun c => rfl]
    simp only [isBlankChar_iff, Takes]
  | digits => exact isRun_iff_forall (fun c => ofFirst_eq_digits_iff) fun c => rfl
  | name =>
    simp only [IsRun, Takes, IsIdentifier, ofFirst_eq_name_iff]
    rfl
  | symbol => exact absurd rfl other
  | _ =>
    rw [isRun_singleton fun _ => rfl]
    constructor
    · rintro ⟨c, text_eq, begins⟩
      exact ⟨c, mark?_of_ofFirst begins rfl, text_eq⟩
    · rintro ⟨c, mark, text_eq⟩
      exact ⟨c, text_eq, ofFirst_of_mark? mark⟩

theorem isRun_symbol : symbol.IsRun text ↔ ∃ c, text = [c] ∧ ofFirst c = symbol :=
  isRun_singleton fun _ => rfl

/-- A run of any kind is taken by the pattern of the kind. -/
theorem IsRun.takes (run : kind.IsRun text) : kind.Takes text := by
  by_cases other : kind = symbol
  · subst other
    obtain ⟨c, text_eq, begins⟩ := isRun_symbol.mp run
    refine ⟨c, text_eq, ?_⟩
    rintro rfl
    cases begins
  · exact (isRun_iff_takes other).mp run

theorem priority_le (kind : Kind) : kind.priority ≤ 1 := by
  cases kind <;> decide

theorem priority_of_ne_symbol (other : kind ≠ symbol) : kind.priority = 1 := by
  cases kind <;> first | rfl | exact absurd rfl other

/-- The lexemes of a kind are its runs: a symbol is a character that begins nothing else. -/
theorem isLexeme_iff_isRun : kind.IsLexeme text ↔ kind.IsRun text := by
  constructor
  · rintro ⟨takes, first⟩
    by_cases other : kind = symbol
    · subst other
      obtain ⟨c, rfl, -⟩ := takes
      rw [isRun_symbol]
      refine ⟨c, rfl, ?_⟩
      by_contra begins
      have stronger := first (ofFirst c) (IsRun.takes ⟨c, [], rfl, rfl, nofun⟩)
      rw [priority_of_ne_symbol begins] at stronger
      exact absurd stronger (by decide)
    · exact (isRun_iff_takes other).mpr takes
  · intro run
    refine ⟨run.takes, ?_⟩
    intro rival takes
    by_cases other : kind = symbol
    · subst other
      by_cases same : rival = symbol
      · rw [same]
      -- A stronger pattern would have begun with the same character.
      · obtain ⟨c, rfl, begins⟩ := isRun_symbol.mp run
        obtain ⟨c', more, text_eq, begins', -⟩ := (isRun_iff_takes same).mpr takes
        cases text_eq
        exact absurd (begins'.symm.trans begins) same
    · rw [priority_of_ne_symbol other]
      exact priority_le rival

/-- Whatever pattern takes a text, the kind of the first character goes on with all others. -/
theorem Takes.goesOn {first : Char} {run : List Char} (takes : kind.Takes (first :: run)) :
    ∀ c ∈ run, (ofFirst first).goesOn c = true := by
  by_cases other : kind = symbol
  · subst other
    obtain ⟨c, text_eq, -⟩ := takes
    cases text_eq
    exact nofun
  · obtain ⟨c, more, text_eq, begins, goesOn⟩ := (isRun_iff_takes other).mpr takes
    cases text_eq
    rw [begins]
    exact goesOn

/-! ## Neighbours -/

/-- Whether a token of the one kind takes in a token of the other that stands directly behind it. -/
def absorbs : Kind → Kind → Bool
  | blank, blank | digits, digits | name, name | name, digits => true
  | _, _ => false

/-- A token goes on with a character if it absorbs what the character begins. -/
theorem goesOn_eq_absorbs (kind : Kind) (c : Char) : kind.goesOn c = kind.absorbs (ofFirst c) := by
  have blank_iff := @ofFirst_eq_blank_iff c
  have digits_iff := @ofFirst_eq_digits_iff c
  have name_iff := @ofFirst_eq_name_iff c
  have letter_or_digit := @isAlphanum_iff c
  rw [Bool.eq_iff_iff]
  generalize ofFirst c = begun at blank_iff digits_iff name_iff ⊢
  cases kind with
  | blank => cases begun <;> simp_all [goesOn, absorbs]
  | digits => cases begun <;> simp_all [goesOn, absorbs]
  | name => cases begun <;> simp_all [goesOn, absorbs]
  | _ => cases begun <;> simp [goesOn, absorbs]

end Kind

/-- No token takes in the one directly behind it. -/
def AreApart (tokens : List Token) : Prop :=
  (tokens.map (·.kind)).IsChain fun kind next => kind.absorbs next = false

/-- Each token starts where the one before it stops, and the first one at the given offset. -/
def AreContiguous : Nat → List Token → Prop
  | _, [] => True
  | start, t :: rest => t.start = start ∧ AreContiguous t.stop rest

/-- The tokens with new offsets, by which they lie end to end. -/
def place : Nat → List Token → List Token
  | _, [] => []
  | start, t :: rest => { t with start } :: place (start + t.text.utf8ByteSize) rest

/-- The tokens hold lexemes of their kinds, stay apart and lie end to end, and make up the text. -/
structure IsPartition (start : Nat) (text : List Char) (tokens : List Token) : Prop where
  texts : texts tokens = text
  contiguous : AreContiguous start tokens
  lexemes : ∀ t ∈ tokens, t.kind.IsLexeme t.text.toList
  apart : AreApart tokens

variable {start : Nat} {text : List Char} {t : Token} {tokens : List Token}

theorem place_of_areContiguous (contiguous : AreContiguous start tokens) :
    place start tokens = tokens := by
  induction tokens generalizing start with
  | nil => rfl
  | cons t rest ih =>
    obtain ⟨rfl, behind⟩ := contiguous
    rw [place]
    exact congrArg (t :: ·) (ih behind)

theorem map_place (start : Nat) (tokens : List Token) :
    (place start tokens).map (fun t => (t.kind, t.text)) = tokens.map fun t => (t.kind, t.text) := by
  induction tokens generalizing start with
  | nil => rfl
  | cons t rest ih => exact congrArg ((t.kind, t.text) :: ·) (ih _)

/-- The character behind a token begins the next one, which the token does not absorb. -/
theorem AreApart.goesOn_eq_false (lexemes : ∀ u ∈ tokens, u.kind.IsLexeme u.text.toList)
    (apart : AreApart (t :: tokens)) : ∀ c ∈ (texts tokens).head?, t.kind.goesOn c = false := by
  intro c here
  cases tokens with
  | nil => cases here
  | cons u rest =>
    obtain ⟨first, run, chars, begins, -⟩ :=
      Kind.isLexeme_iff_isRun.mp (lexemes u List.mem_cons_self)
    rw [texts, List.flatMap_cons, chars] at here
    cases here
    rw [Kind.goesOn_eq_absorbs, begins, (List.isChain_cons_cons.mp apart).1]

/-- Lexemes that stay apart are found again in the text that they make up. -/
theorem scan_texts_eq (start : Nat) (lexemes : ∀ t ∈ tokens, t.kind.IsLexeme t.text.toList)
    (apart : AreApart tokens) : scan start (texts tokens) = place start tokens := by
  induction tokens generalizing start with
  | nil => rw [texts, List.flatMap_nil, scan, place]
  | cons t rest ih =>
    obtain ⟨first, run, chars, begins, goesOn⟩ :=
      Kind.isLexeme_iff_isRun.mp (lexemes t List.mem_cons_self)
    have behind : ∀ u ∈ rest, u.kind.IsLexeme u.text.toList :=
      fun u mem => lexemes u (List.mem_cons_of_mem t mem)
    have stops := apart.goesOn_eq_false behind
    rw [← begins] at goesOn stops
    have scanned := scan_run_eq start first run (texts rest) goesOn stops
    have token : (⟨Kind.ofFirst first, String.ofList (first :: run), start⟩ : Token) =
        { t with start } := by
      rw [begins, ← chars, String.ofList_toList]
    rw [token] at scanned
    rw [texts, List.flatMap_cons, chars, place]
    exact scanned.trans (congrArg _ (ih _ behind apart.tail))

theorem isPartition_scan (start : Nat) (text : List Char) :
    IsPartition start text (scan start text) where
  texts := scan_texts start text
  contiguous := by
    fun_induction scan start text with
    | case1 => trivial
    | case2 start c rest kind token ih => exact ⟨rfl, ih⟩
  lexemes t mem := Kind.isLexeme_iff_isRun.mpr (exists_run_of_mem mem)
  apart := by
    fun_induction scan start text with
    | case1 => exact .nil
    | case2 start c rest kind token ih =>
      rw [AreApart, List.map_cons, List.isChain_cons]
      refine ⟨?_, ih⟩
      intro next here
      -- The next token begins with the character that the run has stopped at.
      have stops := List.head?_dropWhile_not kind.goesOn rest
      cases left : rest.dropWhile kind.goesOn with
      | nil =>
        rw [left, scan] at here
        cases here
      | cons d others =>
        rw [left] at stops
        rw [left, scan] at here
        cases here
        exact (Kind.goesOn_eq_absorbs kind d).symm.trans stops

/-- The tokens of a text are the one way of parting it into lexemes that stay apart. -/
theorem scan_eq_iff : scan start text = tokens ↔ IsPartition start text tokens := by
  constructor
  · rintro rfl
    exact isPartition_scan start text
  · rintro ⟨rfl, contiguous, lexemes, apart⟩
    rw [scan_texts_eq start lexemes apart, place_of_areContiguous contiguous]

end Token
end Fluxion
