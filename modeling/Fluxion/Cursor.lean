import Fluxion.Fault.Syntactic
import Fluxion.Token
/- A position among the tokens of a source. The reader of definitions sees a source through a cursor
   only: it looks at the token ahead (`current?`, `peek`), passes it (`advance`, `next`), or passes
   it if it is of a kind (`eat`), and it makes faults at the place where it stands (`fail`,
   `unclosed`).

   Blanks stay in the stream. They part the digits of a number, where `current?` and `advance` see
   them; everywhere else they are skipped before a token is looked at. A question may skip blanks
   even if the answer is no, so the cursor that comes back has to be used.

   The cursor keeps what it has passed, nearest first. So no token is lost or made up by any move
   (`next_tokens`, `eat_tokens`, `skipBlanks_tokens`), and what stood before a fault can still be
   looked at. -/
namespace Fluxion

/-- The tokens passed, nearest first, and those ahead; `stop` is where the source
    ends. -/
structure Cursor where
  passed : List Token
  ahead : List Token
  stop : Nat

namespace Cursor

/-- A cursor in front of the first token. -/
def ofSource (source : String) : Cursor :=
  let tokens := Token.tokenize source
  ⟨[], tokens, (tokens.getLast?.map (·.stop)).getD 0⟩

/-- All tokens of the source, those passed and those ahead. -/
def tokens (c : Cursor) : List Token := c.passed.reverse ++ c.ahead

/-- The empty span at the end of the source. -/
def endSpan (c : Cursor) : Span := .empty c.stop

/-- The token ahead, blanks included. -/
def current? (c : Cursor) : Option Token := c.ahead.head?

/-- The token ahead if it is of the given kind. -/
def ahead? (c : Cursor) (kind : Token.Kind) : Option Token :=
  c.current?.filter (·.kind == kind)

/-- The last token passed that is not a blank. -/
def previous? (c : Cursor) : Option Token := c.passed.find? (!·.isBlank)

/-- The place of the token ahead, or the end of the source. -/
def span (c : Cursor) : Span := (c.current?.map (·.span)).getD c.endSpan

/-- Passes one token, of whatever kind. -/
def advance (c : Cursor) : Cursor :=
  match c.ahead with
  | [] => c
  | t :: ahead => { c with passed := t :: c.passed, ahead }

theorem advance_tokens (c : Cursor) : c.advance.tokens = c.tokens := by
  obtain ⟨passed, ahead, stop⟩ := c
  cases ahead <;> simp [advance, tokens]

/-- Passes a list of blanks. -/
def skipFrom (passed : List Token) : List Token → List Token × List Token
  | [] => (passed, [])
  | t :: ahead => if t.isBlank then skipFrom (t :: passed) ahead else (passed, t :: ahead)

theorem skipFrom_tokens : ∀ (ahead passed : List Token),
    (skipFrom passed ahead).1.reverse ++ (skipFrom passed ahead).2 = passed.reverse ++ ahead
  | [], _ => rfl
  | t :: ahead, passed => by
    unfold skipFrom
    split
    · rw [skipFrom_tokens ahead (t :: passed)]; simp
    · rfl

/-- Passes all blanks ahead. -/
def skipBlanks (c : Cursor) : Cursor :=
  let (passed, ahead) := skipFrom c.passed c.ahead
  { c with passed, ahead }

theorem skipBlanks_tokens (c : Cursor) : c.skipBlanks.tokens = c.tokens :=
  skipFrom_tokens c.ahead c.passed

/-- The kind of the next token that is not a blank. -/
def peek (c : Cursor) : Option Token.Kind × Cursor :=
  let c := c.skipBlanks
  (c.current?.map (·.kind), c)

/-- Passes the next token that is not a blank. -/
def next (c : Cursor) : Option Token × Cursor :=
  let c := c.skipBlanks
  (c.current?, c.advance)

theorem next_tokens (c : Cursor) : c.next.2.tokens = c.tokens :=
  (advance_tokens _).trans (skipBlanks_tokens c)

/-- Passes the next token that is not a blank if it is of the given kind, and only
    the blanks before it otherwise. -/
def eat (c : Cursor) (kind : Token.Kind) : Option Token × Cursor :=
  let c := c.skipBlanks
  match c.current? with
  | some t => if t.kind = kind then (some t, c.advance) else (none, c)
  | none => (none, c)

theorem eat_tokens (c : Cursor) (kind : Token.Kind) : (c.eat kind).2.tokens = c.tokens := by
  rw [← skipBlanks_tokens c]
  simp only [eat]
  split
  · split
    · exact advance_tokens _
    · rfl
  · rfl

/-- A fault at the next token that is not a blank. -/
def fail (c : Cursor) (fault : SyntaxFault) : SyntaxError := ⟨fault, [c.skipBlanks.span]⟩

/-- The fault of a parenthesis that is not closed where it should be. -/
def unclosed (c : Cursor) (opening : Span) : SyntaxError :=
  ⟨.unclosedParenthesis, [c.skipBlanks.span, opening]⟩

end Cursor
end Fluxion
