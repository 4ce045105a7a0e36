import Fluxion.Draft
import Fluxion.ParameterTable
import Fluxion.Phrase
import Fluxion.Term
/- Functions of one variable: a name, the variable, the table of parameters and the body, stored in
   an arena (`Function`). A function comes from a definition (`ofDefinition`), from another function
   by a derivative or a simplification, or from its stored form. Only the last may have a body whose
   links lead nowhere.

   Equality of functions (`same`) is that of names, parameters and trees. Places in a source do not
   count, nor in which slots the tree is stored.

   The second half prints. A phrase is made of the body, with names in the place of indexes and with
   parentheses where `Arena.needsParentheses` asks for them (`phrase`), and both notations are
   printed from the phrase: the linear one, in which a definition is written (`linear`), and LaTeX
   (`latex`). -/
namespace Fluxion

/-- A function `name(variableName) = body`. -/
structure Function where
  name : String
  variableName : String
  params : ParameterTable := {}
  body : Arena := {}
  deriving DecidableEq

namespace Function

/-- The function that a definition defines. Its body fills the slots of a new arena
    in post-order. -/
def ofDefinition (d : Definition) : Function :=
  let (tree, params) := d.body.resolve d.variableName {}
  { name := d.name, variableName := d.variableName, params, body := .ofDraft (.copy tree) }

/-- Equality of names, parameters and trees; places and slots do not count. -/
def same (f g : Function) : Bool :=
  f.name == g.name && f.variableName == g.variableName && f.params == g.params &&
    f.body.same g.body

/-! ## Printing -/

/-- What a leaf prints as. A parameter that the table does not have is a question
    mark. -/
def leafPhrase (f : Function) : Kind → Phrase
  | .integer n => .integer n
  | .fraction x => .fraction x
  | .var => .name f.variableName
  | .param index => .name ((f.params.get? index).getD "?")
  | .operator _ => .absent

/-- Joins the phrases of a node's operands. -/
def nodePhrase (f : Function) (_ : Handle) (node : Arena.Node) (left right : Phrase) : Phrase :=
  let wraps (operand : Option Handle) := operand.any f.body.needsParentheses
  match node.kind with
  | .operator op => .operation op left (wraps node.left) right (wraps node.right)
  | leaf => f.leafPhrase leaf

/-- The phrase of a node and what is below it. -/
def phraseAt? (f : Function) (h : Handle) : Option Phrase :=
  f.body.foldFrom .absent f.nodePhrase h

/-- The phrase of the body. -/
def phrase (f : Function) : Phrase := (f.phraseAt? f.body.root).getD .absent

/-- The body in linear notation. -/
def bodyLinear (f : Function) : String := String.ofList f.phrase.linear

/-- The body in LaTeX. -/
def bodyLatex (f : Function) : String := String.ofList f.phrase.latex

/-- The definition `name(variable)=body` in linear notation. -/
def linear (f : Function) : String := f.name ++ "(" ++ f.variableName ++ ")=" ++ f.bodyLinear

/-- The definition in LaTeX. The name stands as it is. -/
def latex (f : Function) : String :=
  f.name ++ "(" ++ String.ofList (Phrase.identifier f.variableName) ++ ")=" ++ f.bodyLatex

end Function
end Fluxion
