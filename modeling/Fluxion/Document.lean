import Fluxion.Function
/- LaTeX documents that show functions, one display equation for each. A document in the making
   (`Document`) is a banner and a list of equations; functions are added at its end (`push`), and
   `source` writes the whole of it: the preamble, the banner and an empty line, each equation
   between double dollars on a line of its own, and the last line.

   A document without equations has a source as well, but no run ever writes one: what has no
   equation is not handed over.

   The banner is one of a few greetings and is chosen at random at the beginning of a run. Here it
   is a field, so that nothing in a document is left to chance. Equations are kept as a list and not
   as a growing text, and so they can be counted; that they can be read back from the text is proved
   in `Fluxion.Proofs.Session.Documents`. -/
namespace Fluxion

/-- A document in the making: a line of greeting and the equations so far. -/
structure Document where
  banner : String
  equations : List String := []

namespace Document

/-- What stands before the banner. -/
def preamble : String :=
  "\\documentclass[a4paper,12pt]\x7barticle\x7d\n\\usepackage[utf8]\x7binputenc\x7d\n" ++
  "\\usepackage\x7bamsmath\x7d\n\\begin\x7bdocument\x7d\n"

/-- What stands after the last equation. -/
def terminator : String := "\\end\x7bdocument\x7d\n"

/-- The greetings that a run chooses from. -/
def banners : List String :=
  ["Take that, Stephen Wolfram!",
   "Our logarithms are 100\\% natural!",
   "After a few simple but tedious transformations, we obviously get:",
   "Well, this one is obvious anyway.",
   "A derivative? Yes, a derivative\\dots"]

/-- Adds the definition of a function as an equation. -/
def push (d : Document) (f : Function) : Document := { d with equations := d.equations ++ [f.latex] }

/-- The number of equations. -/
def size (d : Document) : Nat := d.equations.length

/-- One line of the source. -/
def display (equation : String) : String := "$$" ++ equation ++ "$$\n"

/-- The source of the finished document. -/
def source (d : Document) : String :=
  preamble ++ d.banner ++ "\n\n" ++ String.join (d.equations.map display) ++ terminator

end Document
end Fluxion
