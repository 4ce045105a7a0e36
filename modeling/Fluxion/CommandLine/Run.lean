import Fluxion.CommandLine.Options
import Fluxion.Delivery
import Fluxion.Session
/- A whole run of the program, as a function of what it finds: arguments, files, standard input,
   typesetters and the directory it writes to (`Surroundings`). The outcome says what was shown, why
   the run failed, if it did, which typesetter was started on which document, and which file was
   written (`Outcome`).

   A run reads its arguments, then all files, or standard input if no file is named (`gather`), and
   then finishes (`finish`): a document that shows anything is offered to the typesetter and, if
   that fails, to the file. Files that cannot be read are passed over with a message, unless none
   can.

   Left out is the interactive prompt, which reads definitions from a terminal line by line, with a
   history and under names of its own. Standard input is a stream of bytes here, never a terminal. A
   typesetter reads all of its input before it ends. -/
namespace Fluxion

/-- How a typesetter ends, once it has read its input. -/
inductive Ending where
  | exit (code : Int)
  | killed
  deriving DecidableEq

/-- What a run finds around it. Failures come with the reason that the system gives. -/
structure Surroundings where
  arguments : List String
  /-- The environment's choice of a typesetter. -/
  typesetterVariable : Option String
  fileBytes : String → Except String ByteArray
  standardInput : ByteArray
  typesetter : String → Except String Ending
  /-- Why a file cannot be written, if it cannot. -/
  writeObstacle? : String → Option String
  banner : String

/-- Why a run fails as a whole. -/
inductive RunError where
  | usage (error : UsageError)
  | noReadableFile (paths : List String)
  | input (reason : String)
  | delivery (error : DeliveryError)

namespace RunError

def message : RunError → String
  | usage error => error.message
  | noReadableFile [] => "no input files were given"
  | noReadableFile paths =>
    "none of the input files could be read:" ++ String.join (paths.map fun path => " " ++ path)
  | input reason => reason
  | delivery error => error.message

end RunError

/-- What a run leaves behind. -/
structure Outcome where
  events : List Event := []
  failure : Option RunError := none
  /-- The call of the typesetter that was started, and the document it read. -/
  typeset : Option (List String × String) := none
  /-- The file that was written, and what is in it. -/
  saved : Option (String × String) := none

namespace Outcome

/-- The exit code of the run. -/
def exitCode (outcome : Outcome) : Nat := if outcome.failure.isSome then 1 else 0

end Outcome

namespace Surroundings

/-- The text of a stream of bytes, which must be UTF-8. -/
def decode (bytes : ByteArray) : Except String String :=
  match String.fromUTF8? bytes with
  | some text => .ok text
  | none => .error "stream did not contain valid UTF-8"

/-- The text of a file. -/
def readText (world : Surroundings) (file : String) : Except String String :=
  world.fileBytes file >>= decode

/-- Processes files in order, and answers which of them could not be read. -/
def processFiles (world : Surroundings) : List String → Session → List String × Session
  | [], s => ([], s)
  | file :: rest, s =>
    match world.readText file with
    | .ok text => processFiles world rest (s.processText file text)
    | .error reason =>
      let (unreadable, s) :=
        processFiles world rest { s with events := s.events ++ [.unreadable file reason] }
      (file :: unreadable, s)

/-- Reads all definitions. At least one of the files must be readable. -/
def gather (world : Surroundings) (options : Options) (s : Session) :
    Option RunError × Session :=
  if options.files.isEmpty then
    match decode world.standardInput with
    | .ok text => (none, s.processText "stdin" text)
    | .error reason => (some (.input reason), s)
  else
    let (unreadable, s) := world.processFiles options.files s
    if unreadable.length = options.files.length then (some (.noReadableFile unreadable), s)
    else (none, s)

/-- The typesetter of the options, as a sink. -/
def typesetterSink (world : Surroundings) (options : Options) : Sink := fun _ =>
  match world.typesetter options.typesetter with
  | .error reason => .error (.start reason)
  | .ok (.exit 0) => .ok ()
  | .ok (.exit code) => .error (.status (some code))
  | .ok .killed => .error (.status none)

/-- The file beside which the typesetter would have put its own. -/
def fileSink (world : Surroundings) (options : Options) : Sink := fun _ =>
  match world.writeObstacle? options.savePath with
  | some reason => .error (.write reason)
  | none => .ok ()

/-- What is said when the document is not typeset. -/
def fallbackWarning (obstacle : DeliveryError) : Event :=
  .warning "acram::session" (obstacle.message ++ "; saving the LaTeX source instead")

/-- Hands over the document of a session, if it shows anything. -/
def finish (world : Surroundings) (options : Options) (s : Session) : Outcome :=
  if s.document.size = 0 then { events := s.events }
  else
    let document := s.document.source
    let delivery :=
      Delivery.deliver (world.typesetterSink options) (world.fileSink options) document
    { events := s.events ++ (delivery.obstacle?.map fallbackWarning).toList
      failure := delivery.error?.map .delivery
      typeset := (world.typesetter options.typesetter).toOption.map fun _ =>
        (options.typesetterCall, document)
      saved := match delivery with
        | .saved _ => some (options.savePath, document)
        | _ => none }

/-- What is said of definitions that failed. -/
def failureWarning (failed : Nat) : List Event :=
  if failed = 0 then []
  else [.warning "acram" (toString failed ++ " definition(s) could not be processed")]

/-- A run of the program. -/
def run (world : Surroundings) : Outcome :=
  match Options.ofArguments world.arguments world.typesetterVariable with
  | .error error => { failure := some (.usage error) }
  | .ok options =>
    match world.gather options { document := { banner := world.banner }, print := options.print } with
    | (some failure, s) => { events := s.events, failure := some failure }
    | (none, s) => world.finish options { s with events := s.events ++ failureWarning s.failed }

end Surroundings
end Fluxion
