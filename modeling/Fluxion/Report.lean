import Fluxion.Text
/- What is shown of a fault. A report (`Report`) has a message, one label for each place that the
   fault points at, and optional advice: a help text and a note. `Located` joins a fault to its
   places, and `Reportable` is the class of faults that can be described: the syntactic ones, whose
   messages name the offset of the first place, and the undefined ones, whose messages do not.

   Texts may hold pieces set off by a terminal colour (`Report.highlight`), which belong to the text.
   Labels are compared and listed without them (`Report.plain`, `Located.labelled`).

   How a report is drawn beside the source, with arrows and margins, is left out. What a drawing needs
   of it is there: the labels are as many as the places, which is proved for every fault that reading
   and checking give rise to, together with where the places lie. -/
namespace Fluxion

/-- The texts that describe a fault. Labels belong to the fault's places, in
    order. -/
structure Report where
  message : String
  labels : List String
  help : Option String := none
  note : Option String := none

namespace Report

/-- A piece of an expression inside a text, set off by a terminal colour. -/
def highlight (text : String) : String := "\x1b[38;2;52;235;152m" ++ text ++ "\x1b[0m"

/-- Drops the escapes of a terminal, each from its first character up to an `m`. The flag tells
    whether the text begins inside of one. -/
def dropEscapes : Bool → List Char → List Char
  | _, [] => []
  | false, c :: rest => if c = '\x1b' then dropEscapes true rest else c :: dropEscapes false rest
  | true, c :: rest => dropEscapes (c ≠ 'm') rest

/-- A text without its colours. -/
def plain (text : String) : String := String.ofList (dropEscapes false text.toList)

example : plain ("this " ++ highlight "power" ++ " is undefined") = "this power is undefined" := by
  decide

/-- The labels and the advice, line by line. -/
def explanation (report : Report) : List String :=
  report.labels ++ (report.help.map ("help: " ++ ·)).toList ++
    (report.note.map ("note: " ++ ·)).toList

end Report

/-- A fault together with the places in the source that it is about. -/
structure Located (φ : Type) where
  fault : φ
  spans : List Span
  deriving DecidableEq

namespace Located

/-- Where the first place begins. -/
def offset {φ : Type} (fault : Located φ) : Nat := (fault.spans.head?.map (·.start)).getD 0

end Located

/-- A kind of fault that can be described. Some messages name the offset of the
    first place. -/
class Reportable (φ : Type) where
  report : φ → Nat → Report

namespace Located

variable {φ : Type} [Reportable φ]

def report (fault : Located φ) : Report := Reportable.report fault.fault fault.offset

/-- The labels, without their colours, with the places they stand at: as many as there are of
    both. -/
def labelled (fault : Located φ) : List (String × Span) :=
  (fault.report.labels.map Report.plain).zip fault.spans

end Located
end Fluxion
