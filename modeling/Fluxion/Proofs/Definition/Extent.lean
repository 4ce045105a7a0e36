import Fluxion.Proofs.Definition.Leaves
import Fluxion.Proofs.Notation.LongestMatch
/- Which tokens a term reaches over. Parentheses around a term do not belong to it, so its tokens
   are only some of those that it was derived from: `Covers` says which run of tokens goes from the
   first token of a term to its last one, and every derived term covers a run of the tokens derived
   (`Derives.exists_covers`). Behind the left operand of a chain there may be more tokens, such as a
   closing parenthesis, and `Part.Follows` allows for them.

   Tokens lie end to end, so the span of a term is that of its run (`Covers.span_eq`). What stands
   between the parentheses of a call is balanced (`Derives.balances`), which makes the closing one
   the counterpart of the opening one. Terms are all this is about; trees and slots come with
   `Fluxion.Proofs.Function.SourceSpans`. -/
namespace Fluxion

open Token

namespace Token

variable {start : Nat} {xs ys : List Token}

theorem texts_cons (t : Token) (rest : List Token) :
    texts (t :: rest) = t.text.toList ++ texts rest := List.flatMap_cons

theorem texts_append (xs ys : List Token) : texts (xs ++ ys) = texts xs ++ texts ys :=
  List.flatMap_append

/-- A token in front takes up the bytes up to its end. -/
theorem add_bytes_texts_cons (t : Token) (rest : List Token) :
    t.start + bytes (texts (t :: rest)) = t.stop + bytes (texts rest) := by
  rw [texts_cons, bytes_append, ← Nat.add_assoc]
  congr 1
  rw [bytes, String.ofList_toList, stop]

theorem areContiguous_append : AreContiguous start (xs ++ ys) ↔
    AreContiguous start xs ∧ AreContiguous (start + bytes (texts xs)) ys := by
  induction xs generalizing start with
  | nil => simp [AreContiguous, texts, bytes]
  | cons t rest ih =>
    rw [List.cons_append, AreContiguous, AreContiguous, ih, and_assoc]
    refine and_congr_right fun first => and_congr_right fun _ => ?_
    rw [← first, add_bytes_texts_cons]

/-- Tokens that lie end to end reach as far as their last one. -/
theorem stop_eq_of_areContiguous {last : Token} (contiguous : AreContiguous start (xs ++ [last])) :
    last.stop = start + bytes (texts (xs ++ [last])) := by
  obtain ⟨-, here, -⟩ := areContiguous_append.mp contiguous
  rw [texts_append, bytes_append, ← Nat.add_assoc, ← here, add_bytes_texts_cons]
  rfl

end Token

namespace Grammar

variable {a b c : List Token} {p : Part} {t : Term}

/-! ## Parentheses -/

/-- The parentheses among the tokens open and close in pairs. -/
inductive IsBalanced : List Token → Prop where
  | nil : IsBalanced []
  | plain {t : Token} {rest : List Token} (noOpening : t.kind ≠ .openParen)
      (noClosing : t.kind ≠ .closeParen) (balanced : IsBalanced rest) : IsBalanced (t :: rest)
  | pair {opening closing : Token} {inner rest : List Token} (opens : opening.kind = .openParen)
      (closes : closing.kind = .closeParen) (within : IsBalanced inner)
      (behind : IsBalanced rest) : IsBalanced (opening :: inner ++ closing :: rest)

theorem IsBalanced.append {xs ys : List Token} (first : IsBalanced xs) (second : IsBalanced ys) :
    IsBalanced (xs ++ ys) := by
  induction first with
  | nil => exact second
  | plain noOpening noClosing _ ih => exact .plain noOpening noClosing ih
  | pair opens closes within _ _ ih =>
    rw [List.append_assoc]
    exact .pair opens closes within ih

theorem isBalanced_of_blanks {blanks : List Token} (blank : ∀ t ∈ blanks, t.isBlank) :
    IsBalanced blanks := by
  induction blanks with
  | nil => exact .nil
  | cons t rest ih =>
    have kind : t.kind = .blank := eq_of_beq (blank t List.mem_cons_self)
    exact .plain (by simp [kind]) (by simp [kind]) (ih fun u mem => blank u (List.mem_cons_of_mem t mem))

/-- From one place to another, all parentheses are paired. -/
def Balances (a b : List Token) : Prop := ∃ part, a = part ++ b ∧ IsBalanced part

theorem Balances.trans (first : Balances a b) (second : Balances b c) : Balances a c := by
  obtain ⟨early, rfl, balanced⟩ := first
  obtain ⟨late, rfl, balanced'⟩ := second
  exact ⟨early ++ late, (List.append_assoc early late c).symm, balanced.append balanced'⟩

theorem Terminal.balances {kind : Token.Kind} {token : Token} (terminal : Terminal kind a token b)
    (noOpening : kind ≠ .openParen) (noClosing : kind ≠ .closeParen) : Balances a b := by
  obtain ⟨rfl, blanks, blank, rfl⟩ := terminal
  refine ⟨blanks ++ [token], by simp, ?_⟩
  exact (isBalanced_of_blanks blank).append (.plain noOpening noClosing .nil)

theorem balances_enclosed {d : List Token} {opening closing : Token}
    (opens : Terminal .openParen a opening b) (inner : Balances b c)
    (closes : Terminal .closeParen c closing d) : Balances a d := by
  obtain ⟨isOpening, before, blank, rfl⟩ := opens
  obtain ⟨part, rfl, balanced⟩ := inner
  obtain ⟨isClosing, behind, blank', rfl⟩ := closes
  refine ⟨before ++ (opening :: (part ++ behind) ++ closing :: []), by simp, ?_⟩
  exact (isBalanced_of_blanks blank).append
    (.pair isOpening isClosing (balanced.append (isBalanced_of_blanks blank')) .nil)

/-- Operators are no parentheses. -/
theorem Rank.ne_paren_of_operator? {rank : Rank} {kind : Token.Kind} {op : BinaryOp}
    (operator : rank.operator? kind = some op) : kind ≠ .openParen ∧ kind ≠ .closeParen := by
  constructor <;> rintro rfl <;> cases rank <;> cases operator

/-- Every part has its parentheses in pairs. -/
theorem Derives.balances (derives : Derives p a t b) : Balances a b := by
  induction derives with
  | sum _ _ ihStart ihMore | product _ _ ihStart ihMore => exact ihStart.trans ihMore
  | unsigned _ ih | base _ ih => exact ih
  | plus mark _ ih | minus mark _ ih => exact (mark.balances nofun nofun).trans ih
  | stop => exact ⟨[], rfl, .nil⟩
  | more operator next _ _ ihOperand ihOthers =>
    obtain ⟨noOpening, noClosing⟩ := Rank.ne_paren_of_operator? operator
    exact ((next.balances noOpening noClosing).trans ihOperand).trans ihOthers
  | power _ caret _ ihBase ihExponent =>
    exact (ihBase.trans (caret.balances nofun nofun)).trans ihExponent
  | enclosed opens _ closes ih => exact balances_enclosed opens ih closes
  | integer number => exact number.balances nofun nofun
  | @fraction a b digits separator places number _ separates fractional =>
    obtain ⟨part, rfl, balanced⟩ := number.balances nofun nofun
    refine ⟨part ++ [separator, places], by simp, balanced.append ?_⟩
    obtain dot | comma := separates
    · exact .plain (by simp [dot]) (by simp [dot])
        (.plain (by simp [fractional]) (by simp [fractional]) .nil)
    · exact .plain (by simp [comma]) (by simp [comma])
        (.plain (by simp [fractional]) (by simp [fractional]) .nil)
  | call name _ opens _ closes ih =>
    exact (name.balances nofun nofun).trans (balances_enclosed opens ih closes)
  | name name => exact name.balances nofun nofun

/-! ## The tokens of a term -/

/-- The run of tokens goes from the first to the last one that the term is made of. -/
inductive Covers : Term → List Token → Prop where
  | integer {digits : Token} {value : Int64} (isDigits : digits.kind = .digits)
      (exact : value.toInt = Binary64.ofDigits digits.text.toList) :
      Covers (.integer value digits.span) [digits]
  | fraction {digits separator places : Token} (isDigits : digits.kind = .digits)
      (separates : separator.kind = .dot ∨ separator.kind = .comma)
      (fractional : places.kind = .digits) :
      Covers (.fraction (.ofPlaces digits.text.toList places.text.toList)
        ⟨digits.span.start, places.span.stop⟩) [digits, separator, places]
  | name {word : Token} (isName : word.kind = .name) : Covers (.name word.text word.span) [word]
  | negate {sign : Token} {operand : Term} {before run : List Token} (inner : Covers operand run) :
      Covers (.negate operand ⟨sign.span.start, operand.span.stop⟩) (sign :: (before ++ run))
  | call {word opening closing : Token} {f : Elementary} {argument : Term}
      {gap front run behind : List Token} (function : Elementary.ofName? word.text = some f)
      (blank : ∀ t ∈ gap, t.isBlank) (opens : opening.kind = .openParen)
      (closes : closing.kind = .closeParen) (balanced : IsBalanced (front ++ run ++ behind))
      (inner : Covers argument run) :
      Covers (.call f argument ⟨word.span.start, closing.span.stop⟩)
        (word :: (gap ++ opening :: (front ++ run ++ behind)) ++ [closing])
  | binary {op : BinaryOp} {left right : Term} {runLeft between runRight : List Token}
      (apart : between ≠ []) (onLeft : Covers left runLeft) (onRight : Covers right runRight) :
      Covers (join op left right) (runLeft ++ between ++ runRight)

/-- What stands in front of a part: behind the left operand of a chain there may be more tokens. -/
def Part.Follows : Part → List Token → Prop
  | .rest _ left, before => ∃ run behind, Covers left run ∧ before = run ++ behind
  | _, before => before = []

/-- A derived term covers a run of the tokens that it was derived from. -/
theorem Derives.exists_covers (derives : Derives p a t b) {before : List Token}
    (follows : p.Follows before) :
    ∃ front run behind, Covers t run ∧ before ++ a = front ++ run ++ behind ++ b := by
  induction derives generalizing before with
  | sum _ _ ihStart ihMore | product _ _ ihStart ihMore =>
    obtain ⟨front, run, behind, covers, tokens⟩ := ihStart follows
    obtain ⟨front', run', behind', covers', tokens'⟩ := ihMore ⟨run, behind, covers, rfl⟩
    refine ⟨front ++ front', run', behind', covers', ?_⟩
    rw [tokens, List.append_assoc, List.append_assoc, ← List.append_assoc run, tokens']
    simp
  | unsigned _ ih | base _ ih => exact ih follows
  | @plus a b c sign t mark _ ih =>
    cases follows
    obtain ⟨front, run, behind, covers, tokens⟩ := ih rfl
    obtain ⟨-, blanks, -, rfl⟩ := mark
    refine ⟨blanks ++ sign :: front, run, behind, covers, ?_⟩
    rw [List.nil_append] at tokens ⊢
    rw [tokens]
    simp
  | @minus a b c sign t mark _ ih =>
    cases follows
    obtain ⟨front, run, behind, covers, tokens⟩ := ih rfl
    obtain ⟨-, blanks, -, rfl⟩ := mark
    have signed : Covers (.negate t _) (sign :: (front ++ run)) := .negate covers
    refine ⟨blanks, _, behind, signed, ?_⟩
    rw [List.nil_append] at tokens ⊢
    rw [tokens]
    simp
  | stop =>
    obtain ⟨run, behind, covers, rfl⟩ := follows
    exact ⟨[], run, behind, covers, rfl⟩
  | @more a b c d rank mark op left right t operator next operand _ ihOperand ihOthers =>
    obtain ⟨runLeft, gap, onLeft, rfl⟩ := follows
    have first : rank.operand.Follows [] := by cases rank <;> rfl
    obtain ⟨front, runRight, behind, onRight, tokens⟩ := ihOperand first
    obtain ⟨-, blanks, -, rfl⟩ := next
    -- Between the operands there is the operator, if nothing else.
    have joined : Covers (join op left right) (runLeft ++ (gap ++ blanks ++ mark :: front) ++ runRight) :=
      .binary (by simp) onLeft onRight
    obtain ⟨front', run, behind', covers, tokens'⟩ := ihOthers ⟨_, behind, joined, rfl⟩
    refine ⟨front', run, behind', covers, ?_⟩
    rw [List.nil_append] at tokens
    rw [← tokens', tokens]
    simp
  | @power a b c d mark base exponent _ caret _ ihBase ihExponent =>
    cases follows
    obtain ⟨front, runLeft, behind, onLeft, tokens⟩ := ihBase rfl
    obtain ⟨front', runRight, behind', onRight, tokens'⟩ := ihExponent rfl
    obtain ⟨-, blanks, -, rfl⟩ := caret
    have joined : Covers (join .pow base exponent)
        (runLeft ++ (behind ++ blanks ++ mark :: front') ++ runRight) :=
      .binary (by simp) onLeft onRight
    refine ⟨front, _, behind', joined, ?_⟩
    rw [List.nil_append] at tokens'
    rw [tokens, tokens']
    simp
  | @enclosed a b c d opening closing t opens _ closes ih =>
    cases follows
    obtain ⟨front, run, behind, covers, tokens⟩ := ih rfl
    obtain ⟨-, blanks, -, rfl⟩ := opens
    obtain ⟨-, blanks', -, rfl⟩ := closes
    refine ⟨blanks ++ opening :: front, run, behind ++ blanks' ++ [closing], covers, ?_⟩
    rw [List.nil_append] at tokens ⊢
    rw [tokens]
    simp
  | integer number exact =>
    cases follows
    obtain ⟨isDigits, blanks, -, rfl⟩ := number
    exact ⟨blanks, _, [], .integer isDigits exact, by simp⟩
  | fraction number _ separates fractional =>
    cases follows
    obtain ⟨isDigits, blanks, -, rfl⟩ := number
    exact ⟨blanks, _, [], .fraction isDigits separates fractional, by simp⟩
  | call name function opens argument closes ih =>
    cases follows
    obtain ⟨front, run, behind, covers, tokens⟩ := ih rfl
    obtain ⟨part, same, balanced⟩ := argument.balances
    obtain ⟨-, blanks, -, rfl⟩ := name
    obtain ⟨isOpening, gap, blank, rfl⟩ := opens
    rw [List.nil_append, same] at tokens
    obtain rfl := List.append_cancel_right tokens
    obtain ⟨isClosing, blanks', blank', rfl⟩ := closes
    have within := balanced.append (isBalanced_of_blanks blank')
    rw [List.append_assoc] at within
    refine ⟨blanks, _, [], .call function blank isOpening isClosing within covers, ?_⟩
    rw [same]
    simp
  | name name =>
    cases follows
    obtain ⟨isName, blanks, -, rfl⟩ := name
    exact ⟨blanks, _, [], .name isName, by simp⟩

/-! ## Spans -/

theorem Covers.ne_nil {run : List Token} (covers : Covers t run) : run ≠ [] := by
  cases covers with
  | integer | fraction | name | negate | call => exact List.cons_ne_nil _ _
  | binary apart => simp [apart]

/-- A term reaches from the start of its run to the end. -/
theorem Covers.span_eq {run : List Token} {start : Nat} (covers : Covers t run)
    (contiguous : AreContiguous start run) : t.span = ⟨start, start + bytes (texts run)⟩ := by
  induction covers generalizing start with
  | @integer digits | @name digits =>
    obtain ⟨rfl, -⟩ := contiguous
    rw [add_bytes_texts_cons]
    rfl
  | @fraction digits separator places =>
    obtain ⟨rfl, rest⟩ := contiguous
    obtain ⟨first, second, -⟩ := rest
    rw [add_bytes_texts_cons, ← first, add_bytes_texts_cons, ← second, add_bytes_texts_cons]
    rfl
  | negate inner ih =>
    obtain ⟨rfl, rest⟩ := contiguous
    have operand := ih (areContiguous_append.mp rest).2
    rw [add_bytes_texts_cons, texts_append, bytes_append, ← Nat.add_assoc, Term.span, operand]
    rfl
  | @call word opening closing f argument gap front run behind =>
    have last := stop_eq_of_areContiguous contiguous
    obtain ⟨rfl, -⟩ := contiguous
    rw [← last]
    rfl
  | @binary op left right runLeft between runRight apart onLeft onRight ihLeft ihRight =>
    obtain ⟨first, second⟩ := areContiguous_append.mp contiguous
    rw [join, Term.span, ihLeft (areContiguous_append.mp first).1, ihRight second, texts_append _ runRight,
      bytes_append, Nat.add_assoc]

end Grammar
end Fluxion
