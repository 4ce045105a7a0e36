import Fluxion.CommandLine.Run
/- The program. It finds out what there is around it, lets `Surroundings.run` decide everything
   else, and then writes what the outcome says: output and diagnostics on their streams, and the
   saved document to its file.

   Of the files that could be named, only those that the arguments name are read. Whether the
   document can be written is known only afterwards, so the run is decided once as if it could, and
   once more if that turns out wrong.

   It starts no other program, so documents are always saved as LaTeX sources, with the warning that
   the typesetter did not start. It does not prompt either: a terminal is read to its end as a file
   would be. Nothing is proved of this module, which is the only one with effects. -/
namespace Fluxion
namespace Program

/-- The reason that the system gives for a failure. -/
def reason : IO.Error → String
  | .noFileOrDirectory .. => "No such file or directory (os error 2)"
  | .permissionDenied .. => "Permission denied (os error 13)"
  | .inappropriateType .. => "Is a directory (os error 21)"
  | error => error.toString

/-- What the options name, or standard input if they name no file. -/
def sources (files : List String) : IO (List (String × Except String ByteArray) × ByteArray) := do
  if files.isEmpty then
    let input ← (← IO.getStdin).readBinToEnd
    return ([], input)
  let contents ← files.mapM fun file : String => do
    try
      let content ← IO.FS.readBinFile file
      pure (file, Except.ok content)
    catch error => pure (file, Except.error (reason error))
  return (contents, .empty)

/-- One of the banners. -/
def banner : IO String := do
  let choice ← IO.rand 0 (Document.banners.length - 1)
  return Document.banners.getD choice ""

/-- Writes the saved document; answers why that failed, if it did. -/
def save (outcome : Outcome) : IO (Option String) := do
  match outcome.saved with
  | none => return none
  | some (path, document) =>
    try
      IO.FS.writeFile path document
      return none
    catch error => return some (reason error)

/-- Shows the events of a run and why it failed, if it did. -/
def report (outcome : Outcome) : IO Unit := do
  for event in outcome.events do
    for line in event.printed.toList do IO.println line
    for line in event.diagnostics ++ event.explanation do IO.eprintln line
  for error in outcome.failure.toList do IO.eprintln ("error: " ++ error.message)

end Program
end Fluxion

open Fluxion Program in
/-- Runs the program with its arguments. -/
def main (arguments : List String) : IO UInt32 := do
  let typesetterVariable ← IO.getEnv "ACRAM_TEX"
  let files := match Options.ofArguments arguments typesetterVariable with
    | .ok options => some options.files
    | .error _ => none
  let (contents, standardInput) ← match files with
    | some files => sources files
    | none => pure ([], .empty)
  let banner ← banner
  let world (obstacle : Option String) : Surroundings :=
    { arguments, typesetterVariable, standardInput, banner
      fileBytes := fun file => (contents.lookup file).getD (.error "not read")
      typesetter := fun _ => .error "no program can be started"
      writeObstacle? := fun _ => obstacle }
  let outcome := (world none).run
  let obstacle ← save outcome
  let outcome := if obstacle.isSome then (world obstacle).run else outcome
  report outcome
  return outcome.exitCode.toUInt32
