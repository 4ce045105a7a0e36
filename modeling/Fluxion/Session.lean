import Fluxion.Definedness
import Fluxion.Definition.Parser
import Fluxion.Derivative
import Fluxion.Document
import Fluxion.Simplification
import Fluxion.Text
/- Sessions. Definitions come in one by one, and each that can be differentiated adds itself and its
   derivative to a document. The others are counted and reported, and they leave no trace in the
   document.

   `differentiate` is what becomes of one definition: it is read, checked for parts without a value,
   derived and simplified, and the first of these that fails is the outcome. `Session.process` puts
   the outcome into the state, and `Session.processText` does so for each line of a text that is not
   blank, under the name of the text and the number of the line.

   What the user gets to see is not written anywhere but added to the state as events (`Event`), in
   order: lines of output, faults with the place they were found at, and warnings. Which of them go
   to standard output is `Event.printed`; the others are diagnostics. -/
namespace Fluxion

namespace Function

/-- Reads a source as the definition of a function. -/
def parse (source : String) : Except SyntaxError Function :=
  (Definition.parse source).map ofDefinition

end Function

/-- Why a definition has no derivative. -/
inductive DefinitionError where
  | syntactic (error : SyntaxError)
  | undefined (error : UndefinedError)

namespace DefinitionError

def report : DefinitionError → Report
  | syntactic error => error.report
  | undefined error => error.report

end DefinitionError

/-- The function that a source defines, and its simplified derivative. -/
def differentiate (source : String) : Except DefinitionError (Function × Function) := do
  let f ← (Function.parse source).mapError .syntactic
  f.check.mapError .undefined
  .ok (f, f.derivative.simplify)

/-- What is shown to the user in the course of a run. -/
inductive Event where
  /-- A line of output. -/
  | output (line : String)
  /-- A definition that could not be processed, and where it stands. -/
  | fault (place : String) (error : DefinitionError)
  | unreadable (file reason : String)
  /-- A warning, with the part of the program that gives it. -/
  | warning (origin text : String)

namespace Event

/-- What goes to standard output, if anything. -/
def printed : Event → Option String
  | output line => some line
  | _ => none

/-- The lines of a diagnostic that name what happened and where. -/
def diagnostics : Event → List String
  | output _ => []
  | fault place error => ["Error: " ++ error.report.message, "at " ++ place]
  | unreadable file reason => ["cannot open " ++ file ++ ": " ++ reason]
  | warning origin text => ["WARN " ++ origin ++ ": " ++ text]

/-- The lines that explain a fault further. -/
def explanation : Event → List String
  | fault _ error => error.report.explanation
  | _ => []

end Event

/-- The state of a session. -/
structure Session where
  document : Document
  print : Bool := true
  failed : Nat := 0
  events : List Event := []

namespace Session

/-- Processes one definition; answers whether it could be differentiated. -/
def process (s : Session) (place source : String) : Bool × Session :=
  match differentiate source with
  | .ok (f, derived) =>
    let lines := if s.print then [.output f.linear, .output derived.linear] else []
    (true, { s with
      document := (s.document.push f).push derived
      events := s.events ++ lines })
  | .error error =>
    (false, { s with
      failed := s.failed + 1
      events := s.events ++ [.fault place error] })

/-- Processes the lines of a text that are not blank, from the given line number on. -/
def processLines (name : String) : Nat → List (List Char) → Session → Session
  | _, [], s => s
  | number, line :: rest, s =>
    let s :=
      if Text.isBlank line then s
      else (s.process (name ++ ":" ++ toString number) (String.ofList line)).2
    processLines name (number + 1) rest s

/-- Processes a text with a definition on each line. -/
def processText (s : Session) (name text : String) : Session :=
  processLines name 1 (Text.lines text.toList) s

end Session
end Fluxion
