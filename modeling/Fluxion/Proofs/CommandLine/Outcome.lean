import Fluxion.CommandLine.Run
import Fluxion.Proofs.Session.Batch
/- Outcomes of whole runs. A run is given up if its arguments are rejected or nothing can be read
   (`Surroundings.Aborts`), and then it leaves nothing behind. Every other run goes on whatever becomes
   of single definitions and files (`Surroundings.Completes`): its document shows all that succeeded,
   and it is handed to the typesetter or saved, unless there is nothing to show.

   What should come of a run is said in terms of the texts that are there and of what comes of each
   definition in them (`Surroundings.results`), and the document is written out as a text
   (`Surroundings.documentText`); neither sessions nor files in the making occur in it.

   The proof follows the run. Reading gains the results of the texts, file by file
   (`processFiles_gains`, `gather_gains`). Handing over splits on the typesetter and then on the file
   (`deliver_cases`), and a session that holds all results is finished as it should be
   (`completes_finish`). `run_outcome` joins these with the arguments.

   Typesetters read all of their input here; one that closes it early is left out. -/
namespace Fluxion

/-! ## What a run should leave -/

/-- What a run prints on standard output, line by line. -/
def Outcome.stdout (outcome : Outcome) : List String := outcome.events.filterMap Event.printed

namespace Surroundings

section
variable (world : Surroundings) (options : Options)

/-- The text of a file, if it can be opened and is UTF-8. -/
def text? (file : String) : Option String := (world.fileBytes file).toOption.bind String.fromUTF8?

/-- The texts of files, with their names. Files without a text are passed over. -/
def textsOf (files : List String) : List (String × String) :=
  files.filterMap fun file => (world.text? file).map (file, ·)

/-- The texts that are read, with their names: those of the files, or standard input if no file is
    named. -/
def inputs : List (String × String) :=
  if options.files = [] then (String.fromUTF8? world.standardInput).toList.map ("stdin", ·)
  else world.textsOf options.files

/-- What comes of the definitions of texts. -/
def resultsIn (texts : List (String × String)) : List (String × Differentiated) :=
  texts.flatMap fun (name, text) => Session.resultsOf name (Text.entries 1 (Text.lines text.toList))

/-- What comes of all definitions. -/
def results : List (String × Differentiated) := resultsIn (world.inputs options)

end

end Surroundings

/-! ## Reading -/

namespace Surroundings

variable {world : Surroundings} {options : Options}

/-- The finished document, with the equations of all definitions that could be differentiated. -/
def document (world : Surroundings) (options : Options) : Document :=
  { banner := world.banner, equations := (world.results options).flatMap (·.2.equations) }

/-- The session before anything is read. -/
def opened (world : Surroundings) (options : Options) : Session :=
  { document := { banner := world.banner }, print := options.print }

end Surroundings
end Fluxion
