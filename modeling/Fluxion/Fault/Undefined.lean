import Fluxion.Report
/- What can be wrong with an expression that is well formed: a part of it has no value, whatever the
   variable and the parameters are.

   There are four such parts, each told from its literals alone: a power of zero to zero, a quotient
   by zero, and a logarithm of zero or of a negative number (`UndefinedFault`). `Function.check` in
   `Fluxion.Definedness` finds them and says which one is reported; here it is only said what is shown
   of each (`UndefinedFault.report`). Unlike the messages of syntactic faults, these name no offset,
   so a report depends on the fault alone. There is always one label, for the offending node; some
   faults have advice, and the two that forbid a derivative say so in a note. -/
namespace Fluxion

/-- Why a part of an expression is undefined. -/
inductive UndefinedFault where
  | zeroToZero
  | divisionByZero
  | logOfZero
  | logOfNegative
  deriving DecidableEq

/-- An undefined part with its place. -/
abbrev UndefinedError := Located UndefinedFault

namespace UndefinedFault

def noDerivative : String := "a function with an undefined subexpression has no derivative"

def helpOnLogarithm : String :=
  "the argument of " ++ Report.highlight "`log`" ++ " must be positive"

def report : UndefinedFault → Report
  | zeroToZero =>
    { message := "zero raised to the power of zero"
      labels := ["this " ++ Report.highlight "power" ++ " is undefined"]
      help := "`0^0` has no agreed-upon value; rewrite the expression to avoid it"
      note := noDerivative }
  | divisionByZero =>
    { message := "division by zero"
      labels := ["this division has a zero denominator"]
      note := noDerivative }
  | logOfZero =>
    { message := "logarithm of zero"
      labels := ["this logarithm is undefined"]
      help := helpOnLogarithm }
  | logOfNegative =>
    { message := "logarithm of a negative number"
      labels := ["this logarithm is undefined"]
      help := helpOnLogarithm }

instance : Reportable UndefinedFault := ⟨fun fault _ => fault.report⟩

end UndefinedFault
end Fluxion
