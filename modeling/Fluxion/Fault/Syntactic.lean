import Fluxion.Report
/- What can be wrong with the text of a definition: six kinds of faults (`SyntaxFault`), some with
   further data, such as the name of the function whose argument is missing or the names that a
   misspelled one may stand for. A text that has one of them is no definition, and the first one
   that the reader meets is reported.

   The report of a fault (`SyntaxFault.report`) has a message that names the offset of the first
   place, one label for each place and a help text; that of a number has a note besides. Only an
   unclosed parenthesis has two places: where the closing one was expected, and where the opening
   one stands. Pieces of an expression are set off in the help texts, but not in the labels.

   Where a fault lies is settled by the reader and not here. -/
namespace Fluxion

/-- Why a source is not a definition. -/
inductive SyntaxFault where
  | noDefinition
  | missingEquals
  | unclosedParenthesis
  /-- The operand is missing behind the name of a function, or elsewhere. -/
  | missingOperand (function : Option String)
  /-- The digits are too many for 64 bits, or there are none behind a separator. -/
  | invalidNumber (overflow : Bool)
  /-- The definition is complete, but the source goes on. -/
  | trailing (suggestions : List String)
  deriving DecidableEq

/-- A syntactic fault with its places. -/
abbrev SyntaxError := Located SyntaxFault

namespace SyntaxFault

/-- The form of every definition. -/
def definitionForm : String :=
  "definitions have the form " ++ Report.highlight "`name(variable) = expression`"

def helpOnOperand : Option String → String
  | some f => "the argument of `" ++ f ++ "` must be enclosed in parentheses, as in `" ++ f ++ "(x)`"
  | none => "operators need an operand on each side; exponents must be a single number, name, or " ++
      "parenthesized expression"

def helpOnTrailing (suggestions : List String) : String :=
  if suggestions.isEmpty then
    "remove the remaining input, or add an operator to join it to the expression"
  else
    "did you mean " ++
      " or ".intercalate (suggestions.map fun s => Report.highlight ("`" ++ s ++ "`")) ++ "?"

def report (fault : SyntaxFault) (offset : Nat) : Report :=
  let position := " at position " ++ toString offset
  match fault with
  | noDefinition =>
    { message := "no function definition found" ++ position
      labels := ["I expected to see the start of a definition here"]
      help := definitionForm }
  | missingEquals =>
    { message := "missing `=`" ++ position
      labels := ["I expected to see `=` here"]
      help := definitionForm }
  | unclosedParenthesis =>
    { message := "unclosed parenthesis" ++ position
      labels := ["I expected to see a closing parenthesis `)` here", "this parenthesis is not closed"]
      help := "add a closing parenthesis `)` after the enclosed expression" }
  | missingOperand function =>
    { message := "missing operand" ++ position
      labels := ["I expected to see a number, a name, or a parenthesized expression here"]
      help := helpOnOperand function }
  | invalidNumber overflow =>
    { message := "invalid number" ++ position
      labels := [if overflow then "this number is too large" else "I expected to see digits here"]
      help :=
        if overflow then "integers must fit in " ++ Report.highlight "64 bits"
        else "a decimal separator must be followed immediately by at least one digit"
      note := "numbers are written as digits, optionally followed by `.` or `,` and more digits" }
  | trailing suggestions =>
    { message := "garbage symbols found" ++ position
      labels := ["I could not understand the remaining input here"]
      help := helpOnTrailing suggestions }

instance : Reportable SyntaxFault := ⟨report⟩

end SyntaxFault
end Fluxion
