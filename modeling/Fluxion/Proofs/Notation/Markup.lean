import Fluxion.Phrase
import Fluxion.Proofs.Binary64.Distinctness
/- Unique readability of LaTeX. A markup is what a printed expression is to a reader who knows no
   names and no numbers: words, signs and what encloses what. The text of a markup can be read back,
   whatever stands behind it (`Markup.eq_of_append`), as long as that does not go on with the last
   word or raise it to a power (`EndsMarkup`).

   The induction is on the size of the markup (`ReadBelow`), since a sign may have to be taken off a
   part before it can be compared. What a text begins with tells the kinds of markup apart
   (`Markup.head_eq`), but for three cases: a word may be the base of a power, so may a group, and a
   brace may open a change of sign or an operation whose left operand has a sign. In the last case
   what follows the operand decides (`ReadBelow.negation_ne_joined`). -/
namespace Fluxion

open Phrase

/-! ## Words -/

/-- The characters of numbers and names. -/
def isWordChar (c : Char) : Bool := c.isAlphanum || c == '.'

/-- A run of letters, digits and points, with a subscript of letters and digits or without. -/
def IsWord (text : List Char) : Prop :=
  ∃ run sub, text = run ++ sub ∧ run ≠ [] ∧ (∀ c ∈ run, isWordChar c = true) ∧
    (sub = [] ∨ ∃ tail, sub = '_' :: '\x7b' :: (tail ++ ['\x7d']) ∧ ∀ c ∈ tail, c.isAlphanum = true)

/-- The print of a number without its sign, or of a name. -/
@[ext]
structure Word where
  text : List Char
  isWord : IsWord text

/-- A text that no word in front of it goes on with. -/
def EndsWord (text : List Char) : Prop := ∀ c ∈ text.head?, isWordChar c = false ∧ c ≠ '_'

/-- A text that no markup in front of it goes on with. -/
def EndsMarkup (text : List Char) : Prop :=
  ∀ c ∈ text.head?, isWordChar c = false ∧ c ≠ '_' ∧ c ≠ '^'

variable {r s : List Char}

theorem EndsMarkup.endsWord (ends : EndsMarkup r) : EndsWord r :=
  fun c here => ⟨(ends c here).1, (ends c here).2.1⟩

theorem endsMarkup_cons {c : Char} (mark : isWordChar c = false) (noSub : c ≠ '_') (noPower : c ≠ '^')
    (rest : List Char) : EndsMarkup (c :: rest) := by
  intro x here
  cases here
  exact ⟨mark, noSub, noPower⟩

theorem endsMarkup_brace (rest : List Char) : EndsMarkup ('\x7d' :: rest) :=
  endsMarkup_cons (by decide) (by decide) (by decide) rest

theorem endsMarkup_right (rest : List Char) : EndsMarkup ("\\right)".toList ++ rest) :=
  endsMarkup_cons (by decide) (by decide) (by decide) _

theorem endsWord_caret (rest : List Char) : EndsWord ('^' :: rest) := by
  rintro c ⟨⟩
  decide

/-- Neither a subscript nor what follows a word begins like a run. -/
theorem stops_of_subscript {sub : List Char} (ends : EndsWord r)
    (subscript : sub = [] ∨ ∃ tail, sub = '_' :: '\x7b' :: (tail ++ ['\x7d']) ∧
      ∀ c ∈ tail, c.isAlphanum = true) :
    ∀ c ∈ (sub ++ r).head?, isWordChar c = false := by
  intro c here
  obtain rfl | ⟨tail, rfl, -⟩ := subscript
  · exact (ends c here).1
  · cases here
    decide

/-- Words are read back from a text that goes on with something else. -/
theorem IsWord.eq_of_append {text text' : List Char} (word : IsWord text) (word' : IsWord text')
    (ends : EndsWord r) (stops : EndsWord s) (same : text ++ r = text' ++ s) :
    text = text' ∧ r = s := by
  obtain ⟨run, sub, rfl, -, chars, subscript⟩ := word
  obtain ⟨run', sub', rfl, -, chars', subscript'⟩ := word'
  rw [List.append_assoc, List.append_assoc] at same
  obtain ⟨rfl, after⟩ := eq_of_runs chars chars' (stops_of_subscript ends subscript)
    (stops_of_subscript stops subscript') same
  obtain rfl | ⟨tail, rfl, inner⟩ := subscript
  · obtain rfl | ⟨tail', rfl, -⟩ := subscript'
    · exact ⟨rfl, after⟩
    · subst after
      exact absurd rfl (ends '_' rfl).2
  · obtain rfl | ⟨tail', rfl, inner'⟩ := subscript'
    · subst after
      exact absurd rfl (stops '_' rfl).2
    · simp only [List.cons_append, List.append_assoc, List.cons.injEq, true_and] at after
      have close : ∀ t, ∀ c ∈ (['\x7d'] ++ t).head?, Char.isAlphanum c = false := by
        rintro t c ⟨⟩
        decide
      obtain ⟨rfl, rest⟩ := eq_of_runs inner inner' (close r) (close s) after
      exact ⟨rfl, (List.cons.inj rest).2⟩

theorem Word.eq_of_append {w w' : Word} (ends : EndsWord r) (ends' : EndsWord s)
    (same : w.text ++ r = w'.text ++ s) : w = w' ∧ r = s := by
  obtain ⟨text, rest⟩ := w.isWord.eq_of_append w'.isWord ends ends' same
  exact ⟨Word.ext text, rest⟩

/-! ## Markup -/

/-- An expression in LaTeX. The base of a power is a word or stands in parentheses. -/
inductive Markup where
  | word (signed : Bool) (word : Word)
  | power (signed : Bool) (base : Word) (exponent : Markup)
  | groupPower (base exponent : Markup)
  | fraction (numerator denominator : Markup)
  | root (radicand : Markup)
  | call (f : Elementary) (noRoot : f ≠ .sqrt) (wrap : Bool) (argument : Markup)
  | negation (wrap : Bool) (operand : Markup)
  | joined (op : BinaryOp) (inline : op ≠ .div ∧ op ≠ .pow) (wrapLeft : Bool) (left : Markup)
    (wrapRight : Bool) (right : Markup)

/-- A minus, or none. -/
def signText (signed : Bool) : List Char := if signed then ['-'] else []

namespace Markup

def text : Markup → List Char
  | word signed w => signText signed ++ w.text
  | power signed base exponent => signText signed ++ (base.text ++ '^' :: braced exponent.text)
  | groupPower base exponent => wrappedLatex true base.text ++ '^' :: braced exponent.text
  | fraction numerator denominator =>
    "\\frac".toList ++ (braced numerator.text ++ braced denominator.text)
  | root radicand => "\\sqrt".toList ++ braced radicand.text
  | call f _ wrap argument => braced (f.latex.toList ++ braced (wrappedLatex wrap argument.text))
  | negation wrap operand => braced ('-' :: wrappedLatex wrap operand.text)
  | joined op _ wrapLeft left wrapRight right =>
    braced (wrappedLatex wrapLeft left.text ++ (op.latex.toList ++ wrappedLatex wrapRight right.text))

section
variable (m m' : Markup)

-- The equations that a rewriting by `text` derives take seconds, since they evaluate the commands.
theorem text_word (signed : Bool) (w : Word) : (word signed w).text = signText signed ++ w.text := rfl

theorem text_power (signed : Bool) (w : Word) :
    (power signed w m).text = signText signed ++ (w.text ++ '^' :: braced m.text) := rfl

theorem text_groupPower :
    (groupPower m m').text = wrappedLatex true m.text ++ '^' :: braced m'.text := rfl

theorem text_fraction :
    (fraction m m').text = "\\frac".toList ++ (braced m.text ++ braced m'.text) := rfl

theorem text_root : (root m).text = "\\sqrt".toList ++ braced m.text := rfl

theorem braced_call {f : Elementary} (noRoot : f ≠ .sqrt) (wrap : Bool) :
    (call f noRoot wrap m).text = braced (f.latex.toList ++ braced (wrappedLatex wrap m.text)) := rfl

theorem braced_negation (wrap : Bool) :
    (negation wrap m).text = braced ('-' :: wrappedLatex wrap m.text) := rfl

theorem braced_joined {op : BinaryOp} (inline : op ≠ .div ∧ op ≠ .pow) (wrap wrap' : Bool) :
    (joined op inline wrap m wrap' m').text =
      braced (wrappedLatex wrap m.text ++ (op.latex.toList ++ wrappedLatex wrap' m'.text)) := rfl

end

/-- The number of parts. -/
def size : Markup → Nat
  | word .. => 1
  | power _ _ m | root m | call _ _ _ m | negation _ m => m.size + 1
  | groupPower m n | fraction m n | joined _ _ _ m _ n => m.size + n.size + 1

/-! ## What a text begins with -/

/-- The beginning of a text. -/
inductive Head where
  | word | minus | group | fraction | root | command | brace
  deriving DecidableEq

def Head.of : List Char → Head
  | '\\' :: 'l' :: 'e' :: _ => group
  | '\\' :: 'f' :: _ => fraction
  | '\\' :: 's' :: 'q' :: _ => root
  | '\\' :: _ => command
  | '\x7b' :: _ => brace
  | '-' :: _ => minus
  | _ => word

/-- The beginning of a markup. -/
def head : Markup → Head
  | word signed _ | power signed .. => if signed then .minus else .word
  | groupPower .. => .group
  | fraction .. => .fraction
  | root .. => .root
  | call .. | negation .. | joined .. => .brace

theorem head_word (w : Word) (r : List Char) : Head.of (w.text ++ r) = .word := by
  obtain ⟨text, run, sub, rfl, some, chars, -⟩ := w
  cases run with
  | nil => exact absurd rfl some
  | cons c run =>
    have word := chars c List.mem_cons_self
    -- No mark that begins another markup is a character of a word.
    have mark : ∀ d, isWordChar d = false → c ≠ d := by
      rintro d none rfl
      exact absurd word (by simp [none])
    have notBackslash := mark '\\' (by decide)
    have notBrace := mark '\x7b' (by decide)
    have notMinus := mark '-' (by decide)
    simp [Head.of, notBackslash, notBrace, notMinus]

theorem head_signed (signed : Bool) (w : Word) (r : List Char) :
    Head.of (signText signed ++ (w.text ++ r)) = if signed then .minus else .word := by
  cases signed with
  | false => exact head_word w r
  | true => rfl

theorem head_eq (m : Markup) (r : List Char) : Head.of (m.text ++ r) = m.head := by
  cases m with
  | word signed w =>
    have chars : (word signed w).text ++ r = signText signed ++ (w.text ++ r) :=
      List.append_assoc _ _ _
    exact (congrArg Head.of chars).trans (head_signed signed w r)
  | power signed base exponent =>
    have chars : (power signed base exponent).text ++ r =
        signText signed ++ (base.text ++ ('^' :: braced exponent.text ++ r)) := by
      rw [text_power, List.append_assoc, List.append_assoc]
    exact (congrArg Head.of chars).trans (head_signed signed base _)
  | groupPower | fraction | root | call | negation | joined => rfl

theorem head_wrapped (wrap : Bool) (m : Markup) (r : List Char) :
    Head.of (wrappedLatex wrap m.text ++ r) = if wrap then .group else m.head := by
  cases wrap with
  | false => exact m.head_eq r
  | true => rfl

theorem head_command {f : Elementary} (noRoot : f ≠ .sqrt) (r : List Char) :
    Head.of (f.latex.toList ++ r) = .command := by
  cases f <;> first | rfl | exact absurd rfl noRoot

theorem head_ne_command (m : Markup) : m.head ≠ .command := by
  cases m with
  | word signed | power signed => cases signed <;> exact nofun
  | groupPower | fraction | root | call | negation | joined => exact nofun

/-! ## Reading -/

/-- Markups of less than a given size are read back from their texts. -/
def ReadBelow (n : Nat) : Prop :=
  ∀ (m m' : Markup) (r s : List Char), m.size < n → EndsMarkup r → EndsMarkup s →
    m.text ++ r = m'.text ++ s → m = m' ∧ r = s

variable {n : Nat} {m m' : Markup}

theorem ReadBelow.braced (read : ReadBelow n) (small : m.size < n)
    (same : braced m.text ++ r = braced m'.text ++ s) : m = m' ∧ r = s := by
  simp only [Phrase.braced, List.cons_append, List.append_assoc, List.cons.injEq, true_and,
    List.nil_append] at same
  obtain ⟨rfl, rest⟩ := read m m' _ _ small (endsMarkup_brace r) (endsMarkup_brace s) same
  exact ⟨rfl, (List.cons.inj rest).2⟩

theorem wrappedLatex_true (text : List Char) :
    wrappedLatex true text = "\\left(".toList ++ (text ++ "\\right)".toList) := by
  rw [wrappedLatex, if_pos rfl, List.append_assoc]

/-- Groups are read up to their end. -/
theorem ReadBelow.group (read : ReadBelow n) (small : m.size < n)
    (same : wrappedLatex true m.text ++ r = wrappedLatex true m'.text ++ s) : m = m' ∧ r = s := by
  rw [wrappedLatex_true, wrappedLatex_true, List.append_assoc, List.append_assoc, List.append_assoc,
    List.append_assoc] at same
  obtain ⟨rfl, rest⟩ := read m m' _ _ small (endsMarkup_right r) (endsMarkup_right s)
    (List.append_cancel_left same)
  exact ⟨rfl, List.append_cancel_left rest⟩

/-- A group is no power if nothing is raised behind it. -/
theorem ReadBelow.group_ne (read : ReadBelow n) {base exponent : Markup} (small : m.size < n ∨ base.size < n)
    (ends : EndsMarkup r) :
    wrappedLatex true m.text ++ r ≠ (groupPower base exponent).text ++ s := by
  intro same
  rw [text_groupPower, List.append_assoc] at same
  have rest : r = '^' :: Phrase.braced exponent.text ++ s := by
    obtain small | small := small
    · exact (read.group small same).2
    · exact (read.group small same.symm).2.symm
  subst rest
  exact absurd rfl (ends '^' rfl).2.2

theorem ReadBelow.wrapped (read : ReadBelow n) (small : m.size < n) {wrap wrap' : Bool}
    (ends : EndsMarkup r) (ends' : EndsMarkup s)
    (same : wrappedLatex wrap m.text ++ r = wrappedLatex wrap' m'.text ++ s) :
    wrap = wrap' ∧ m = m' ∧ r = s := by
  have heads := congrArg Head.of same
  rw [head_wrapped, head_wrapped] at heads
  cases wrap with
  | true =>
    cases wrap' with
    | true => exact ⟨rfl, read.group small same⟩
    | false =>
      -- Only a power of a group begins like a group.
      cases m' with
      | groupPower base exponent => exact absurd same (read.group_ne (.inl small) ends)
      | word signed | power signed => cases signed <;> cases heads
      | fraction | root | call | negation | joined => cases heads
  | false =>
    cases wrap' with
    | true =>
      cases m with
      | groupPower base exponent =>
        refine absurd same.symm (read.group_ne (.inr ?_) ends')
        rw [size] at small
        omega
      | word signed | power signed => cases signed <;> cases heads
      | fraction | root | call | negation | joined => cases heads
    | false => exact ⟨rfl, read m m' r s small ends ends' same⟩

theorem signed_eq {signed signed' : Bool} {w w' : Word}
    (same : signText signed ++ (w.text ++ r) = signText signed' ++ (w'.text ++ s)) :
    signed = signed' ∧ w.text ++ r = w'.text ++ s := by
  have heads := congrArg Head.of same
  rw [head_signed, head_signed] at heads
  have signs : signed = signed' := by
    cases signed <;> cases signed' <;> first | rfl | cases heads
  subst signs
  exact ⟨rfl, List.append_cancel_left same⟩

/-- The names of functions differ before any brace. -/
theorem latex_eq {f f' : Elementary}
    (same : f.latex.toList ++ '\x7b' :: r = f'.latex.toList ++ '\x7b' :: s) : f = f' ∧ r = s := by
  have letters : ∀ (f : Elementary) (t : List Char),
      (f.latex.toList ++ '\x7b' :: t).takeWhile (· != '\x7b') =
        f.latex.toList.takeWhile (· != '\x7b') := by
    intro f t
    cases f <;> rfl
  have names := congrArg (List.takeWhile (· != '\x7b')) same
  rw [letters, letters] at names
  have functions : f = f' := by
    revert names
    cases f <;> cases f' <;> decide
  subst functions
  exact ⟨rfl, (List.cons.inj (List.append_cancel_left same)).2⟩

/-- The sign of an operation that is written between its operands ends the left one. -/
theorem endsMarkup_latex {op : BinaryOp} (inline : op ≠ .div ∧ op ≠ .pow) (t : List Char) :
    EndsMarkup (op.latex.toList ++ t) := by
  cases op with
  | add | sub | mul => exact endsMarkup_cons (by decide) (by decide) (by decide) _
  | div => exact absurd rfl inline.1
  | pow => exact absurd rfl inline.2

theorem latex_op_eq {op op' : BinaryOp} (inline : op ≠ .div ∧ op ≠ .pow)
    (inline' : op' ≠ .div ∧ op' ≠ .pow) (same : op.latex.toList ++ r = op'.latex.toList ++ s) :
    op = op' ∧ r = s := by
  have signs : op = op' := by
    cases op <;> cases op' <;> simp_all [BinaryOp.latex]
  subst signs
  exact ⟨rfl, List.append_cancel_left same⟩

theorem latex_ne_brace {op : BinaryOp} (inline : op ≠ .div ∧ op ≠ .pow) :
    '\x7d' :: r ≠ op.latex.toList ++ s := by
  cases op with
  | add | sub | mul => exact nofun
  | div => exact absurd rfl inline.1
  | pow => exact absurd rfl inline.2

/-! ## Braces -/

/-- What stands in the braces of a call, of a change of sign and of an operation. -/
theorem text_call {f : Elementary} (noRoot : f ≠ .sqrt) (wrap : Bool) (m : Markup) (r : List Char) :
    (call f noRoot wrap m).text ++ r = '\x7b' :: (f.latex.toList ++
      '\x7b' :: (wrappedLatex wrap m.text ++ '\x7d' :: '\x7d' :: r)) := by
  simp [braced_call, Phrase.braced]

theorem text_negation (wrap : Bool) (m : Markup) (r : List Char) :
    (negation wrap m).text ++ r =
      '\x7b' :: '-' :: (wrappedLatex wrap m.text ++ '\x7d' :: r) := by
  simp [braced_negation, Phrase.braced]

theorem text_joined {op : BinaryOp} (inline : op ≠ .div ∧ op ≠ .pow) (wrap wrap' : Bool)
    (m m' : Markup) (r : List Char) : (joined op inline wrap m wrap' m').text ++ r =
      '\x7b' :: (wrappedLatex wrap m.text ++
        (op.latex.toList ++ (wrappedLatex wrap' m'.text ++ '\x7d' :: r))) := by
  simp [braced_joined, Phrase.braced]

/-- A word, or a power of one, with the other sign. -/
def opposite : Markup → Markup
  | word signed w => word (!signed) w
  | power signed base exponent => power (!signed) base exponent
  | m => m

@[simp]
theorem size_opposite (m : Markup) : m.opposite.size = m.size := by
  cases m <;> rfl

/-- A minus is the sign of a word or of the base of a power. -/
theorem text_of_minus (minus : m.head = .minus) : m.text = '-' :: m.opposite.text := by
  cases m with
  | word signed | power signed =>
    cases signed with
    | false => cases minus
    | true => rfl
  | groupPower | fraction | root | call | negation | joined => cases minus

/-- A change of sign is told from an operation by what follows the operand with the minus. -/
theorem ReadBelow.negation_ne_joined (read : ReadBelow n) {wrap wrapLeft wrapRight : Bool}
    {operand left right : Markup} {op : BinaryOp} {inline : op ≠ .div ∧ op ≠ .pow}
    (small : operand.size < n ∨ left.size < n) :
    (negation wrap operand).text ++ r ≠ (joined op inline wrapLeft left wrapRight right).text ++ s := by
  intro same
  rw [text_negation, text_joined] at same
  replace same := (List.cons.inj same).2
  have heads := congrArg Head.of same
  rw [head_wrapped] at heads
  cases wrapLeft with
  | true => cases heads
  | false =>
    have left_eq : wrappedLatex false left.text = '-' :: wrappedLatex false left.opposite.text :=
      text_of_minus heads.symm
    rw [left_eq, List.cons_append] at same
    replace same := (List.cons.inj same).2
    have ends := endsMarkup_brace r
    have ends' := endsMarkup_latex inline (wrappedLatex wrapRight right.text ++ '\x7d' :: s)
    obtain small | small := small
    · exact latex_ne_brace inline (read.wrapped small ends ends' same).2.2
    · rw [← size_opposite] at small
      exact latex_ne_brace inline (read.wrapped small ends' ends same.symm).2.2.symm

/-- A call is told from a change of sign and from an operation by the name of the function. -/
theorem call_ne_negation {f : Elementary} (noRoot : f ≠ .sqrt) {wrap wrap' : Bool}
    {argument operand : Markup} :
    (call f noRoot wrap argument).text ++ r ≠ (negation wrap' operand).text ++ s := by
  intro same
  rw [text_call, text_negation] at same
  have heads := congrArg Head.of (List.cons.inj same).2
  rw [head_command noRoot] at heads
  cases heads

theorem call_ne_joined {f : Elementary} (noRoot : f ≠ .sqrt) {wrap wrapLeft wrapRight : Bool}
    {argument left right : Markup} {op : BinaryOp} {inline : op ≠ .div ∧ op ≠ .pow} :
    (call f noRoot wrap argument).text ++ r ≠
      (joined op inline wrapLeft left wrapRight right).text ++ s := by
  intro same
  rw [text_call, text_joined] at same
  have heads := congrArg Head.of (List.cons.inj same).2
  rw [head_command noRoot, head_wrapped] at heads
  cases wrapLeft with
  | true => cases heads
  | false => exact left.head_ne_command heads.symm

/-! ## Unique readability -/

section
variable {m₁ m₂ m₁' m₂' : Markup} {w w' : Word} {signed signed' wrap₁ wrap₂ wrap₁' wrap₂' : Bool}

theorem word_eq (ends : EndsMarkup r) (ends' : EndsMarkup s)
    (same : (word signed w).text ++ r = (word signed' w').text ++ s) :
    word signed w = word signed' w' ∧ r = s := by
  rw [text_word, text_word, List.append_assoc, List.append_assoc] at same
  obtain ⟨rfl, words⟩ := signed_eq same
  obtain ⟨rfl, rest⟩ := Word.eq_of_append ends.endsWord ends'.endsWord words
  exact ⟨rfl, rest⟩

theorem word_ne_power (ends : EndsMarkup r) :
    (word signed w).text ++ r ≠ (power signed' w' m).text ++ s := by
  intro same
  rw [text_word, text_power, List.append_assoc, List.append_assoc, List.append_assoc] at same
  obtain ⟨-, rfl⟩ := Word.eq_of_append ends.endsWord (endsWord_caret _) (signed_eq same).2
  exact absurd rfl (ends '^' rfl).2.2

/-- The base of a power is read up to the exponent. -/
theorem ReadBelow.power_eq (read : ReadBelow n) (small : m.size < n)
    (same : (power signed w m).text ++ r = (power signed' w' m').text ++ s) :
    power signed w m = power signed' w' m' ∧ r = s := by
  rw [text_power, text_power, List.append_assoc, List.append_assoc, List.append_assoc,
    List.append_assoc] at same
  obtain ⟨rfl, words⟩ := signed_eq same
  obtain ⟨rfl, powers⟩ := Word.eq_of_append (endsWord_caret _) (endsWord_caret _) words
  obtain ⟨rfl, rest⟩ := read.braced small (List.cons.inj powers).2
  exact ⟨rfl, rest⟩

theorem ReadBelow.groupPower_eq (read : ReadBelow n) (small : m₁.size < n) (small' : m₂.size < n)
    (same : (groupPower m₁ m₂).text ++ r = (groupPower m₁' m₂').text ++ s) :
    groupPower m₁ m₂ = groupPower m₁' m₂' ∧ r = s := by
  rw [text_groupPower, text_groupPower, List.append_assoc, List.append_assoc] at same
  obtain ⟨rfl, powers⟩ := read.group small same
  obtain ⟨rfl, rest⟩ := read.braced small' (List.cons.inj powers).2
  exact ⟨rfl, rest⟩

theorem ReadBelow.fraction_eq (read : ReadBelow n) (small : m₁.size < n) (small' : m₂.size < n)
    (same : (fraction m₁ m₂).text ++ r = (fraction m₁' m₂').text ++ s) :
    fraction m₁ m₂ = fraction m₁' m₂' ∧ r = s := by
  simp only [text_fraction, List.append_assoc] at same
  obtain ⟨rfl, under⟩ := read.braced small (List.append_cancel_left same)
  obtain ⟨rfl, rest⟩ := read.braced small' under
  exact ⟨rfl, rest⟩

theorem ReadBelow.root_eq (read : ReadBelow n) (small : m.size < n)
    (same : (root m).text ++ r = (root m').text ++ s) : root m = root m' ∧ r = s := by
  simp only [text_root, List.append_assoc] at same
  obtain ⟨rfl, rest⟩ := read.braced small (List.append_cancel_left same)
  exact ⟨rfl, rest⟩

theorem ReadBelow.call_eq (read : ReadBelow n) (small : m.size < n) {f f' : Elementary}
    {noRoot : f ≠ .sqrt} {noRoot' : f' ≠ .sqrt}
    (same : (call f noRoot wrap₁ m).text ++ r = (call f' noRoot' wrap₁' m').text ++ s) :
    call f noRoot wrap₁ m = call f' noRoot' wrap₁' m' ∧ r = s := by
  rw [text_call, text_call] at same
  obtain ⟨rfl, inner⟩ := latex_eq (List.cons.inj same).2
  obtain ⟨rfl, rfl, rest⟩ := read.wrapped small (endsMarkup_brace _) (endsMarkup_brace _) inner
  exact ⟨rfl, (List.cons.inj (List.cons.inj rest).2).2⟩

theorem ReadBelow.negation_eq (read : ReadBelow n) (small : m.size < n)
    (same : (negation wrap₁ m).text ++ r = (negation wrap₁' m').text ++ s) :
    negation wrap₁ m = negation wrap₁' m' ∧ r = s := by
  rw [text_negation, text_negation] at same
  obtain ⟨rfl, rfl, rest⟩ := read.wrapped small (endsMarkup_brace _) (endsMarkup_brace _)
    (List.cons.inj (List.cons.inj same).2).2
  exact ⟨rfl, (List.cons.inj rest).2⟩

/-- The left operand is read up to the sign, the right one up to the brace. -/
theorem ReadBelow.joined_eq (read : ReadBelow n) (small : m₁.size < n) (small' : m₂.size < n)
    {op op' : BinaryOp} {inline : op ≠ .div ∧ op ≠ .pow} {inline' : op' ≠ .div ∧ op' ≠ .pow}
    (same : (joined op inline wrap₁ m₁ wrap₂ m₂).text ++ r =
      (joined op' inline' wrap₁' m₁' wrap₂' m₂').text ++ s) :
    joined op inline wrap₁ m₁ wrap₂ m₂ = joined op' inline' wrap₁' m₁' wrap₂' m₂' ∧ r = s := by
  rw [text_joined, text_joined] at same
  obtain ⟨rfl, rfl, signs⟩ := read.wrapped small (endsMarkup_latex inline _)
    (endsMarkup_latex inline' _) (List.cons.inj same).2
  obtain ⟨rfl, inner⟩ := latex_op_eq inline inline' signs
  obtain ⟨rfl, rfl, rest⟩ := read.wrapped small' (endsMarkup_brace _) (endsMarkup_brace _) inner
  exact ⟨rfl, (List.cons.inj rest).2⟩

end

theorem ReadBelow.next (read : ReadBelow n) : ReadBelow (n + 1) := by
  intro m m' r s small ends ends' same
  have heads := congrArg Head.of same
  rw [head_eq, head_eq] at heads
  cases m with
  | word signed w =>
    cases m' with
    | word => exact word_eq ends ends' same
    | power => exact absurd same (word_ne_power ends)
    | groupPower | fraction | root | call | negation | joined => cases signed <;> cases heads
  | power signed base exponent =>
    cases m' with
    | word => exact absurd same.symm (word_ne_power ends')
    | power => exact read.power_eq (by simp only [size] at small; omega) same
    | groupPower | fraction | root | call | negation | joined => cases signed <;> cases heads
  | groupPower base exponent =>
    rw [size] at small
    cases m' with
    | groupPower => exact read.groupPower_eq (by omega) (by omega) same
    | word signed | power signed => cases signed <;> cases heads
    | fraction | root | call | negation | joined => cases heads
  | fraction numerator denominator =>
    rw [size] at small
    cases m' with
    | fraction => exact read.fraction_eq (by omega) (by omega) same
    | word signed | power signed => cases signed <;> cases heads
    | groupPower | root | call | negation | joined => cases heads
  | root radicand =>
    rw [size] at small
    cases m' with
    | root => exact read.root_eq (by omega) same
    | word signed | power signed => cases signed <;> cases heads
    | groupPower | fraction | call | negation | joined => cases heads
  | call f noRoot wrap argument =>
    rw [size] at small
    cases m' with
    | call => exact read.call_eq (by omega) same
    | negation => exact absurd same (call_ne_negation noRoot)
    | joined => exact absurd same (call_ne_joined noRoot)
    | word signed | power signed => cases signed <;> cases heads
    | groupPower | fraction | root => cases heads
  | negation wrap operand =>
    rw [size] at small
    cases m' with
    | call f' noRoot' => exact absurd same.symm (call_ne_negation noRoot')
    | negation => exact read.negation_eq (by omega) same
    | joined => exact absurd same (read.negation_ne_joined (.inl (by omega)))
    | word signed | power signed => cases signed <;> cases heads
    | groupPower | fraction | root => cases heads
  | joined op inline wrapLeft left wrapRight right =>
    rw [size] at small
    cases m' with
    | call f' noRoot' => exact absurd same.symm (call_ne_joined noRoot')
    | negation => exact absurd same.symm (read.negation_ne_joined (.inr (by omega)))
    | joined => exact read.joined_eq (by omega) (by omega) same
    | word signed | power signed => cases signed <;> cases heads
    | groupPower | fraction | root => cases heads

theorem readBelow (n : Nat) : ReadBelow n := by
  induction n with
  | zero => exact fun _ _ _ _ small => absurd small (Nat.not_lt_zero _)
  | succ n ih => exact ih.next

/-- A markup is read back from a text that goes on with something else. -/
theorem eq_of_append (ends : EndsMarkup r) (ends' : EndsMarkup s) (same : m.text ++ r = m'.text ++ s) :
    m = m' ∧ r = s :=
  readBelow _ m m' r s (Nat.lt_succ_self _) ends ends' same

/-- Different markups have different texts. -/
theorem text_injective (same : m.text = m'.text) : m = m' := by
  have none : EndsMarkup [] := nofun
  exact (eq_of_append none none (by rw [same])).1

end Markup
end Fluxion
