import Fluxion.Text
/- The options of one run: `[-q] [-o JOBNAME] [FILE ...]`, and the environment variable that names
   the typesetter. Arguments are read from left to right, and later ones add to earlier ones
   (`Options.read`): `-q` switches the output off, each `-o` takes the place of an earlier one, and
   files are collected in order.

   The argument behind `-o` is its value, whatever it looks like. Any other argument that begins
   with a dash must be one of the known options; there is no mark behind which all arguments are
   files. Reading stops at the first argument that is wrong.

   The typesetter is settled before any argument is read (`Options.initial`), and no argument
   changes it. A name that is blank counts as none. The job name is part of the call of the
   typesetter and of the name of the file in which the document is saved if that fails. -/
namespace Fluxion

/-- What a run is asked to do. Without files, definitions come from standard input. -/
structure Options where
  jobName : String := "acram_out"
  typesetter : String := "pdflatex"
  print : Bool := true
  files : List String := []
  deriving DecidableEq

/-- What is wrong with the arguments. -/
inductive UsageError where
  | missingValue (option : String)
  | unknownOption (option : String)
  deriving DecidableEq

namespace UsageError

def message : UsageError → String
  | missingValue option => "option `" ++ option ++ "` needs a value"
  | unknownOption option => "unknown option `" ++ option ++ "`"

end UsageError

namespace Options

/-- Reads arguments from left to right. The argument behind `-o` is its value, whatever
    it looks like. -/
def read (options : Options) : List String → Except UsageError Options
  | [] => .ok options
  | argument :: rest =>
    if argument = "-q" ∨ argument = "--quiet" then read { options with print := false } rest
    else if argument = "-o" ∨ argument = "--output" then
      match rest with
      | [] => .error (.missingValue "-o")
      | jobName :: rest => read { options with jobName } rest
    else if argument.startsWith "-" then .error (.unknownOption argument)
    else read { options with files := options.files ++ [argument] } rest

/-- The options before any argument is read. A blank name of a typesetter counts as
    none. -/
def initial (typesetter : Option String) : Options :=
  match typesetter with
  | some command => if Text.isBlank command.toList then {} else { typesetter := command }
  | none => {}

/-- The options given by the arguments and the environment. -/
def ofArguments (arguments : List String) (typesetter : Option String) : Except UsageError Options :=
  (initial typesetter).read arguments

/-- Where the document is saved if it cannot be typeset. -/
def savePath (options : Options) : String := options.jobName ++ ".tex"

/-- How the typesetter is called. It reads the document from its standard input. -/
def typesetterCall (options : Options) : List String :=
  [options.typesetter, "-interaction=nonstopmode", "-jobname", options.jobName]

end Options
end Fluxion
