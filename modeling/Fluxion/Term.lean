import Fluxion.Draft
import Fluxion.ParameterTable
/- Bodies of definitions as they are written. A term (`Term`) has exactly the shapes that the
   grammar allows, and its names are not yet bound. It knows the place of every part in the source:
   an operator between two terms reaches from the first to the second, a call from its name to its
   closing parenthesis, and parentheses around a term do not count.

   `Term.resolve` binds the names from left to right: one of them is the variable, and the others
   are entered in a table as parameters, in order of first use. What comes out is a tree with the
   same places.

   Reading and binding are apart, so that what a text means as a term can be said without a table,
   and that each name of the body finds its entry without a grammar. A definition (`Definition`) is
   two names and a term. -/
namespace Fluxion

/-- A parsed expression. Every part knows its place in the source. -/
inductive Term where
  | integer (value : Int64) (span : Span)
  | fraction (value : Binary64) (span : Span)
  | name (text : String) (span : Span)
  | negate (operand : Term) (span : Span)
  | call (f : Elementary) (argument : Term) (span : Span)
  | binary (op : BinaryOp) (left right : Term) (span : Span)
  deriving DecidableEq

namespace Term

/-- Where the term stands. Parentheses around it do not count. -/
def span : Term → Span
  | integer _ s | fraction _ s | name _ s | negate _ s | call _ _ s | binary _ _ _ s => s

/-- An operator between two terms reaches from the first to the second. -/
def join (op : BinaryOp) (left right : Term) : Term :=
  binary op left right (left.span.through right.span)

/-- Binds the names of a term, from left to right: one of them is the variable,
    and the others are parameters in order of first use. -/
def resolve (variableName : String) : Term → ParameterTable → Tree × ParameterTable
  | integer n span, table => (.leaf (.integer n) span, table)
  | fraction x span, table => (.leaf (.fraction x) span, table)
  | name text span, table =>
    if text = variableName then (.leaf .var span, table)
    else
      let (index, table) := table.intern text
      (.leaf (.param index) span, table)
  | negate operand span, table =>
    let (operand, table) := operand.resolve variableName table
    (.node (.operator (.binary .sub)) span .absent operand, table)
  | call f argument span, table =>
    let (argument, table) := argument.resolve variableName table
    (.node (.operator (.apply f)) span .absent argument, table)
  | binary op left right span, table =>
    let (left, table) := left.resolve variableName table
    let (right, table) := right.resolve variableName table
    (.node (.operator (.binary op)) span left right, table)

end Term

/-- A definition `name(variableName) = body`. -/
structure Definition where
  name : String
  variableName : String
  body : Term
  deriving DecidableEq

end Fluxion
