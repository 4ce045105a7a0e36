import Fluxion.Proofs.Definition.Lockstep
import Fluxion.Proofs.Definition.Positions
import Fluxion.Session
/- Reading from the middle. A cursor that was moved, by any moves (`Move`), stands in front of the
   tokens of the rest of the source, each as far behind its place in the rest as the rest is behind
   the beginning (`Cursor.exists_rest`, `scan_add`).

   What has been passed is never looked at again: a reader asks for the token behind it only once it
   has passed one itself. So cursors with the same tokens ahead are in lockstep, although they
   differ in what is behind them until both have passed a token (`IsAhead`, `IsShifted`,
   `isLockstep_isShifted`), and what is read from the moved cursor is what is read from the rest of
   the text alone, with all places moved, be it a function or a fault (`IsAhead.read`,
   `read_moved`). The place of a fault may be the end of the source, which moves along. -/
namespace Fluxion

open Grammar Definition

/-! ## Texts behind others -/

namespace Token

/-- The token of a text that stands behind others, by the bytes in front of it. -/
def shift (offset : Nat) (t : Token) : Token := { t with start := t.start + offset }

variable (offset : Nat)

theorem span_shift (t : Token) : (t.shift offset).span = t.span.shift offset := by
  rw [span, Span.shift, Span.mk.injEq]
  exact ⟨rfl, Nat.add_right_comm ..⟩

theorem trim_shift (tokens : List Token) :
    trim (tokens.map (shift offset)) = (trim tokens).map (shift offset) :=
  List.dropWhile_map ..

theorem scan_add (start : Nat) (text : List Char) :
    scan (start + offset) text = (scan start text).map (shift offset) := by
  fun_induction scan start text with
  | case1 => rw [scan, List.map_nil]
  | case2 start c rest kind token ih =>
    have stop : (token.shift offset).stop = token.stop + offset := Nat.add_right_comm ..
    rw [← stop] at ih
    rw [scan, List.map_cons, ← ih]
    rfl

end Token

/-! ## Moved cursors -/

namespace Cursor

/-- What may be done with a cursor before a definition is read from it: look at the next token, pass
    it whatever it is or if it is of a kind, pass blanks, and point at the next token in a fault. -/
inductive Move where
  | peek
  | next
  | eat (kind : Token.Kind)
  | skipBlanks
  | fail (fault : SyntaxFault)
  | unclosed (opening : Span)

/-- The cursor behind a move. Faults point behind the blanks and leave the cursor there. -/
def after (c : Cursor) : Move → Cursor
  | .peek => c.peek.2
  | .next => c.next.2
  | .eat kind => (c.eat kind).2
  | .skipBlanks | .fail _ | .unclosed _ => c.skipBlanks

variable {c c' : Cursor} {t t' : Token}

/-- A move loses no token, and does not move the end of the source. -/
theorem after_keeps (c : Cursor) (move : Move) :
    (c.after move).tokens = c.tokens ∧ (c.after move).stop = c.stop := by
  cases move with
  | peek | skipBlanks | fail | unclosed => exact ⟨skipBlanks_tokens c, rfl⟩
  | next => exact ⟨next_tokens c, stop_advance c.skipBlanks⟩
  | eat kind =>
    refine ⟨eat_tokens c kind, ?_⟩
    simp only [after, eat]
    split
    · split
      · exact stop_advance c.skipBlanks
      · rfl
    · rfl

theorem foldl_after_keeps (moves : List Move) (c : Cursor) :
    (moves.foldl after c).tokens = c.tokens ∧ (moves.foldl after c).stop = c.stop := by
  induction moves generalizing c with
  | nil => exact ⟨rfl, rfl⟩
  | cons move rest ih =>
    obtain ⟨tokens, stop⟩ := ih (c.after move)
    obtain ⟨tokens', stop'⟩ := c.after_keeps move
    exact ⟨tokens.trans tokens', stop.trans stop'⟩

/-- Ahead of the first cursor there is what is ahead of the other, behind a text of so many bytes. -/
structure IsAhead (offset : Nat) (c c' : Cursor) : Prop where
  ahead : c.ahead = c'.ahead.map (Token.shift offset)
  stop : c.stop = c'.stop + offset

/-- Behind the cursors there is the same token too. -/
structure IsShifted (offset : Nat) (c c' : Cursor) : Prop extends IsAhead offset c c' where
  previous : c.previous? = c'.previous?.map (Token.shift offset)

variable {offset : Nat}

theorem IsAhead.current? (behind : IsAhead offset c c') :
    c.current? = c'.current?.map (Token.shift offset) := by
  rw [Cursor.current?, behind.ahead, List.head?_map, Cursor.current?]

theorem IsAhead.span (behind : IsAhead offset c c') : c.span = c'.span.shift offset := by
  rw [Cursor.span, behind.current?, Cursor.span]
  cases c'.current? with
  | none => rw [Option.map_none, Option.map_none, endSpan, behind.stop]; rfl
  | some t => exact t.span_shift offset

theorem IsAhead.skipBlanks (behind : IsAhead offset c c') :
    IsAhead offset c.skipBlanks c'.skipBlanks where
  ahead := by rw [ahead_skipBlanks, ahead_skipBlanks, behind.ahead, Token.trim_shift]
  stop := behind.stop

theorem IsAhead.advance (behind : IsAhead offset c c') : IsAhead offset c.advance c'.advance where
  ahead := by
    have tail (c : Cursor) : c.advance.ahead = c.ahead.tail := by
      obtain ⟨passed, ahead, stop⟩ := c
      cases ahead <;> rfl
    rw [tail, tail, behind.ahead, List.map_tail]
  stop := by rw [stop_advance, stop_advance, behind.stop]

theorem sameToken_shift (t : Token) :
    SameToken id (Span.shift offset) (t.shift offset) t :=
  ⟨rfl, rfl, t.span_shift offset⟩

/-- Behind a token that both have passed, the cursors no longer differ in what is behind them. -/
theorem IsAhead.sameNext (behind : IsAhead offset c c') :
    SameNext id (Span.shift offset) (IsShifted offset) c c' := by
  refine ⟨behind.skipBlanks.span, ?_⟩
  have same := behind.skipBlanks.current?
  cases current : c'.skipBlanks.current? with
  | none =>
    rw [current] at same
    exact .inr ⟨same, current⟩
  | some t =>
    rw [current] at same
    have passed : c.next = (some (t.shift offset), c.skipBlanks.advance) := by rw [next, same]; rfl
    have passed' : c'.next = (some t, c'.skipBlanks.advance) := by rw [next, current]
    refine .inl ⟨_, _, t, _, passed, passed', sameToken_shift t, behind.skipBlanks.advance, ?_⟩
    rw [previous?_next passed, previous?_next passed', Option.map_some]

theorem IsAhead.ahead? (behind : IsAhead offset c c') (kind : Token.Kind) :
    c.ahead? kind = (c'.ahead? kind).map (Token.shift offset) := by
  rw [Cursor.ahead?, behind.current?, Option.filter_map, Cursor.ahead?]
  rfl

theorem IsAhead.samePlaces (behind : IsAhead offset c c') :
    SamePlaces id (Span.shift offset) (IsShifted offset) c c' := by
  have separates : c.current?.any (·.kind.isSeparator) = c'.current?.any (·.kind.isSeparator) := by
    rw [behind.current?, Option.any_map]
    rfl
  have digits := behind.advance.ahead? .digits
  cases right : c'.current?.any (·.kind.isSeparator) with
  | false => exact .none (separates.trans right) right
  | true =>
    have left := separates.trans right
    cases places : c'.advance.ahead? .digits with
    | none =>
      rw [places] at digits
      exact .missing left right digits places behind.advance.span
    | some t =>
      rw [places] at digits
      obtain ⟨current', kind⟩ := Option.filter_eq_some_iff.mp places
      have there : t.kind ≠ .blank := by
        rw [eq_of_beq kind]
        decide
      have current : c.advance.current? = some (t.shift offset) := by
        rw [behind.advance.current?, current', Option.map_some]
      refine .some left right digits places (sameToken_shift t) ⟨behind.advance.advance, ?_⟩
      rw [previous?_advance current there, previous?_advance current' there, Option.map_some]

/-- Readers find the same in front of cursors that are shifted, at places that are shifted. -/
theorem isLockstep_isShifted (offset : Nat) :
    IsLockstep id (Span.shift offset) (IsShifted offset) where
  respects _ _ := rfl
  respects' := Span.respects_shift offset
  next shifted := shifted.sameNext
  skip shifted := ⟨shifted.skipBlanks, by
    rw [previous?_skipBlanks, previous?_skipBlanks, shifted.previous]⟩
  places {c c' d d' t t'} shifted passed passed' _ := by
    obtain ⟨-, rfl⟩ := Prod.mk.inj passed
    obtain ⟨-, rfl⟩ := Prod.mk.inj passed'
    exact shifted.skipBlanks.advance.samePlaces
  stop shifted := by
    rw [endSpan, endSpan, shifted.stop]
    rfl
  previous shifted := by
    rw [shifted.previous, Option.map_map]
    rfl

/-- What is left of a source in front of a cursor on it, and what is not. -/
theorem exists_rest {source : String} (tokens : c.tokens = Token.tokenize source)
    (stop : c.stop = (ofSource source).stop) :
    ∃ front rest : String, source = front ++ rest ∧ front.utf8ByteSize = c.span.start ∧
      IsAhead c.span.start c (ofSource rest) := by
  obtain ⟨place, tail, ahead, text, bytes, -⟩ := Token.scan_split tokens.symm
  rw [Nat.zero_add] at bytes
  have size : c.stop = place + Token.bytes tail := by
    rw [stop, Token.stop_ofSource, ← String.ofList_toList (s := source), text, bytes]
    exact Token.bytes_append _ tail
  have start : c.span.start = place := by
    rw [start_span, ahead, size]
    exact Token.head?_scan place tail
  refine ⟨String.ofList (Token.texts c.passed.reverse), String.ofList tail, ?_, ?_, ?_, ?_⟩
  · rw [← String.ofList_append, ← text, String.ofList_toList]
  · rw [start, bytes, Token.bytes]
  · have shifted := Token.scan_add place 0 tail
    rw [Nat.zero_add] at shifted
    rw [start, ahead, shifted, ofSource, Token.tokenize, String.toList_ofList]
  · rw [start, size, Token.stop_ofSource, Nat.add_comm]
    rfl

/-- What is read from a cursor is what is read from the other, with all places moved. -/
theorem IsAhead.read (behind : IsAhead offset c c') : (read c).map Function.ofDefinition =
    (((read c').map Function.ofDefinition).map (·.relocate (Span.shift offset))).mapError
      (·.relocate (Span.shift offset)) := by
  have same := (isLockstep_isShifted offset).read_eq behind.sameNext
  cases first : Definition.read c with
  | ok d =>
    cases second : Definition.read c' with
    | ok d' =>
      rw [first, second] at same
      have moved : d.relocate id = d'.relocate (Span.shift offset) := Except.ok.inj same
      rw [Definition.relocate_id] at moved
      rw [Except.map, moved, Function.ofDefinition_relocate]
      rfl
    | error e' =>
      rw [first, second] at same
      cases same
  | error e =>
    cases second : Definition.read c' with
    | ok d' =>
      rw [first, second] at same
      cases same
    | error e' =>
      rw [first, second] at same
      have moved : e.relocate id = e'.relocate (Span.shift offset) := Except.error.inj same
      rw [Located.relocate_id] at moved
      rw [moved]
      rfl

/-- After any moves, what is read from a cursor on a source is what is read from the source without
    the bytes in front of the cursor, with the places of all nodes and of the fault moved by them. -/
theorem read_moved (source : String) (moves : List Move) :
    let c := moves.foldl after (ofSource source)
    ∃ front rest : String, source = front ++ rest ∧ front.utf8ByteSize = c.span.start ∧
      (Definition.read c).map Function.ofDefinition =
        ((Function.parse rest).map (·.relocate (Span.shift c.span.start))).mapError
          (·.relocate (Span.shift c.span.start)) := by
  intro c
  obtain ⟨tokens, stop⟩ := foldl_after_keeps moves (ofSource source)
  obtain ⟨front, rest, split, size, behind⟩ := exists_rest (c := c) tokens stop
  exact ⟨front, rest, split, size, behind.read⟩

/-- A fault behind a cursor that has passed a word and a parenthesis. -/
example :
    let c := [.next, .eat .closeParen, .peek].foldl after (ofSource "a) f(x)=1+")
    c.span.start = 3 ∧ Definition.read c = .error ⟨.missingOperand none, [⟨10, 10⟩]⟩ ∧
      Definition.parse "f(x)=1+" = .error ⟨.missingOperand none, [⟨7, 7⟩]⟩ := by
  decide +kernel

end Cursor
end Fluxion
