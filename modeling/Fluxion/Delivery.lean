/- Handing a finished document over: to the typesetter, or to a file if that fails. A sink (`Sink`)
   takes a document or says why it does not, and a document is offered to two of them, one after the
   other (`Delivery.deliver`). So there are three outcomes: the document was typeset, it was saved
   and there is an obstacle to be reported, or it is lost and there are two.

   Only the last of them is an error of the run (`Delivery.error?`), and what is reported then is
   why the file was not written. Why the typesetter did not take the document (`Delivery.obstacle?`)
   is a warning in either case.

   Sinks say nothing here of what they do with a document. In a run they are made from what is known
   of the typesetter and the file (`Surroundings.typesetterSink`, `Surroundings.fileSink`). -/
namespace Fluxion

/-- Why a document was not taken. -/
inductive DeliveryError where
  /-- The typesetter did not start. -/
  | start (reason : String)
  | write (reason : String)
  /-- The typesetter failed with an exit code, or was stopped from outside. -/
  | status (code : Option Int)
  deriving DecidableEq

namespace DeliveryError

def message : DeliveryError → String
  | start reason => "could not start the typesetter: " ++ reason
  | write reason => "could not write the document: " ++ reason
  | status (some code) => "the typesetter exited with code " ++ toString code
  | status none => "the typesetter was terminated"

/-- What the operating system had to say. -/
def cause? : DeliveryError → Option String
  | start reason | write reason => some reason
  | status _ => none

end DeliveryError

/-- Something that takes a document or says why it does not. -/
abbrev Sink := String → Except DeliveryError Unit

/-- What became of a document. -/
inductive Delivery where
  | typeset
  | saved (obstacle : DeliveryError)
  | lost (obstacle error : DeliveryError)
  deriving DecidableEq

namespace Delivery

/-- Hands the document to the first sink and, if that does not take it, to the other. -/
def deliver (typesetter fallback : Sink) (document : String) : Delivery :=
  match typesetter document with
  | .ok () => typeset
  | .error obstacle =>
    match fallback document with
    | .ok () => saved obstacle
    | .error error => lost obstacle error

/-- Why nothing took the document. -/
def error? : Delivery → Option DeliveryError
  | typeset | saved _ => none
  | lost _ error => some error

/-- Why the typesetter did not take it. -/
def obstacle? : Delivery → Option DeliveryError
  | typeset => none
  | saved obstacle | lost obstacle _ => some obstacle

end Delivery
end Fluxion
