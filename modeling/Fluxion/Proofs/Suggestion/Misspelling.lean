import Fluxion.Proofs.Definition.Faults
import Fluxion.Proofs.Definition.Lockstep
import Fluxion.Proofs.Definition.Parsing
import Fluxion.Proofs.Function.SourceSpans
import Fluxion.Proofs.Suggestion.NearNames
/- Misspelled calls. The name of an unknown function is read as a parameter, so the source is
   refused from the parenthesis behind it on, and this is the only fault that suggests names
   (`finish_suggests`): a fault of any part of a definition suggests nothing
   (`suggestions_of_refuses`).

   The cursor has only what it has passed to find the word by. That this is the source itself is an
   invariant of every move of a cursor, and so of all readers. It is proved without going through
   the readers again: a cursor with a property that every move keeps is in step with itself
   (`isLockstep_of_keeps`), so what holds in front of a header or a sum holds behind it
   (`keeps_header`, `keeps_expression`). With the list of near names from
   `Fluxion.Proofs.Suggestion.NearNames`, `suggestions_are_near_names` has what is suggested and
   where. -/
namespace Fluxion

/-- The names that a fault suggests. -/
def SyntaxFault.suggestions : SyntaxFault → List String
  | trailing suggestions => suggestions
  | _ => []

namespace Definition

open Grammar

/-! ## Invariants of cursors -/

section Keeps
variable {I : Cursor → Prop} (skip : ∀ c, I c → I c.skipBlanks) (advance : ∀ c, I c → I c.advance)
include skip advance

/-- A cursor with a property that every move keeps is in step with itself. -/
theorem isLockstep_of_keeps : IsLockstep id id fun c c' => c = c' ∧ I c where
  respects _ _ := rfl
  respects' _ _ := rfl
  next {c c'} related := by
    obtain ⟨rfl, holds⟩ := related
    refine ⟨rfl, ?_⟩
    cases next : c.next.1 with
    | none => exact .inr ⟨rfl, rfl⟩
    | some t =>
      have passed : c.next = (some t, c.next.2) := Prod.ext next rfl
      exact .inl ⟨t, _, t, _, passed, passed, ⟨rfl, rfl, rfl⟩, rfl, advance _ (skip c holds)⟩
  skip {c c'} related := by
    obtain ⟨rfl, holds⟩ := related
    exact ⟨rfl, skip c holds⟩
  places {c c' d d' t t'} related passed passed' _ := by
    obtain ⟨rfl, holds⟩ := related
    obtain rfl : d = d' := congrArg Prod.snd (passed.symm.trans passed')
    obtain ⟨-, rfl⟩ := Prod.mk.inj passed
    have holds := advance _ (skip c holds)
    cases separates : c.skipBlanks.advance.current?.any (·.kind.isSeparator) with
    | false => exact .none separates separates
    | true =>
      cases digits : c.skipBlanks.advance.advance.ahead? .digits with
      | none => exact .missing separates separates digits digits rfl
      | some t =>
        exact .some separates separates digits digits ⟨rfl, rfl, rfl⟩
          ⟨rfl, advance _ (advance _ holds)⟩
  stop related := by rw [related.1]
  previous related := by rw [related.1]

variable {c c₁ : Cursor}

/-- What holds of a cursor holds behind a header. -/
theorem keeps_header {names : String × String} (holds : I c) (read : header c = .ok (names, c₁)) :
    I c₁ := by
  have lockstep := isLockstep_of_keeps skip advance
  have agree := agree_header lockstep (lockstep.next ⟨rfl, holds⟩)
  rw [read] at agree
  exact agree.2.2

/-- What holds of a cursor holds behind a sum. -/
theorem keeps_expression {t : Term} (holds : I c)
    (read : expression c.ahead.length c = .ok (t, c₁)) : I c₁ := by
  have agree := inStep_expression (isLockstep_of_keeps skip advance) c.ahead.length c.ahead.length
    (.of_related ⟨rfl, holds⟩)
  rw [read] at agree
  exact agree.2.related.2

end Keeps

/-! ## What is left of a source -/

/-- Among the tokens is the word, and behind it, but for blanks, the opening parenthesis. -/
structure LooksLikeCall (tokens : List Token) (word opening : Token) : Prop where
  stands : ∃ before blanks rest, tokens = before ++ word :: blanks ++ opening :: rest ∧
    ∀ t ∈ blanks, t.isBlank
  isName : word.kind = .name
  opens : opening.kind = .openParen

variable {c : Cursor} {e : SyntaxError}

/-- Names are suggested in front of a parenthesis, for the word behind the cursor. -/
theorem suggestions_cases (c : Cursor) : suggestions c = [] ∨
    ∃ word opening, LooksLikeCall c.tokens word opening ∧ c.span = opening.span ∧
      suggestions c = Suggestion.near word.text := by
  rw [suggestions]
  split
  · next word opening previous current =>
    split
    · next call =>
      obtain ⟨-, blanks, before, passed, blank⟩ := List.find?_eq_some_iff_append.mp previous
      obtain ⟨rest, ahead⟩ := List.head?_eq_some_iff.mp current
      refine .inr ⟨word, opening, ⟨?_, call.1, call.2⟩, by rw [Cursor.span, current]; rfl, rfl⟩
      refine ⟨before.reverse, blanks.reverse, rest, ?_, ?_⟩
      · rw [Cursor.tokens, passed, ahead]
        simp
      · intro t mem
        have isBlank := blank t (List.mem_reverse.mp mem)
        simpa using isBlank
    · exact .inl rfl
  · exact .inl rfl

/-- Where something is left behind a definition, names are suggested for a word in front of it. -/
theorem finish_suggests (failed : finish c = .error e) (some : e.fault.suggestions ≠ []) :
    ∃ word opening, LooksLikeCall c.tokens word opening ∧
      e = ⟨.trailing (Suggestion.near word.text), [⟨opening.start, c.stop⟩]⟩ := by
  rw [finish] at failed
  split at failed
  · cases failed
  · cases failed
    obtain none | ⟨word, opening, call, place, suggested⟩ := suggestions_cases c.skipBlanks
    · exact absurd none some
    · rw [Cursor.skipBlanks_tokens] at call
      exact ⟨word, opening, call, by rw [suggested, place]; rfl⟩

/-- What a part of a definition is refused for suggests nothing. -/
theorem suggestions_of_refuses {a : List Token} {stop : Nat} (refuses : Refuses a stop e) :
    e.fault.suggestions = [] := by
  cases refuses with
  | unclosed => rfl
  | @here fault _ isLocal =>
    cases fault with
    | trailing => exact isLocal.elim
    | _ => rfl

/-- If names are suggested where reading fails, then for a word and a parenthesis of the source. -/
theorem read_suggests (failed : read c = .error e) (some : e.fault.suggestions ≠ []) :
    ∃ word opening, LooksLikeCall c.tokens word opening ∧
      e = ⟨.trailing (Suggestion.near word.text), [⟨opening.start, c.stop⟩]⟩ := by
  obtain readHeader | ⟨names, c₁, readHeader, readBody | ⟨t, c₂, readBody, finished⟩⟩ :=
    read_eq_error failed
  · exact absurd (suggestions_of_refuses (refuses_header readHeader)) some
  · have refuses := accounts_expression c₁.ahead.length c₁
    rw [readBody] at refuses
    exact absurd (suggestions_of_refuses refuses) some
  · have skip : ∀ d : Cursor, d.tokens = c.tokens ∧ d.stop = c.stop →
        d.skipBlanks.tokens = c.tokens ∧ d.skipBlanks.stop = c.stop :=
      fun d on => ⟨d.skipBlanks_tokens.trans on.1, on.2⟩
    have advance : ∀ d : Cursor, d.tokens = c.tokens ∧ d.stop = c.stop →
        d.advance.tokens = c.tokens ∧ d.advance.stop = c.stop :=
      fun d on => ⟨d.advance_tokens.trans on.1, (stop_advance d).trans on.2⟩
    have onHeader := keeps_header skip advance ⟨rfl, rfl⟩ readHeader
    obtain ⟨tokens, stop⟩ := keeps_expression skip advance onHeader readBody
    rw [← tokens, ← stop]
    exact finish_suggests finished some

end Definition

namespace Function

open Definition Suggestion Token

/-- For every name, just those known names are suggested that are at most two edits away, and fewer
    than the name has bytes; each once, the nearer ones first, and those that are as near in the
    order of the table. An error of reading suggests names only where the source goes on with a
    parenthesis behind a word, and then those near this word. -/
theorem suggestions_are_near_names :
    (∀ name, (near name).Nodup ∧
      (∀ candidate, candidate ∈ near name ↔ candidate ∈ known ∧
        ∃ n, Apart n name.toList candidate.toList ∧ n ≤ 2 ∧ n < name.utf8ByteSize) ∧
      (near name).Pairwise (Precedes name)) ∧
    ∀ source e, parse source = .error e → e.fault.suggestions ≠ [] →
      ∃ word opening, LooksLikeCall (tokenize source) word opening ∧
        opening.span.CutsOut source "(" ∧
        e = ⟨.trailing (near word.text), [⟨opening.start, source.utf8ByteSize⟩]⟩ := by
  constructor
  · intro name
    exact ⟨nodup_near name, fun _ => mem_near, pairwise_near name⟩
  · intro source e failed some
    obtain ⟨word, opening, call, error⟩ := read_suggests (parse_eq_error_iff.mp failed) some
    rw [stop_ofSource] at error
    replace call : LooksLikeCall (tokenize source) word opening := call
    obtain ⟨before, blanks, rest, tokens, -⟩ := call.stands
    have mem : opening ∈ tokenize source := by simp [tokens]
    have text : opening.text = "(" :=
      text_of_mark? mem (by rw [call.opens]; rfl) (by decide)
    exact ⟨word, opening, call, text ▸ cutsOut_of_mem mem, error⟩

/-- A letter too many, in front of a blank. -/
theorem suggestions_are_near_names_sinn :
    ∃ e, parse "f(x)=2*sinn (x)" = .error e ∧ e.fault.suggestions = ["sin"] ∧
      e.spans = [⟨12, 15⟩] ∧
      ∃ word opening, LooksLikeCall (tokenize "f(x)=2*sinn (x)") word opening ∧
        opening.span.CutsOut "f(x)=2*sinn (x)" "(" ∧
        e = ⟨.trailing (near word.text), [⟨opening.start, 15⟩]⟩ := by
  have failed : parse "f(x)=2*sinn (x)" = .error ⟨.trailing ["sin"], [⟨12, 15⟩]⟩ := by
    decide +kernel
  exact ⟨_, failed, rfl, rfl, suggestions_are_near_names.2 _ _ failed (by decide)⟩

end Function
end Fluxion
