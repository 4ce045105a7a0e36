import Fluxion.Binary64.Printing
import Fluxion.Operator
/- Expressions as they are written. A phrase (`Phrase`) has names in the place of indexes and knows
   which of its operands stand in parentheses; both notations are printed from it, so they cannot
   differ in that.

   The linear notation (`linear`) is that of a source: signs between operands, functions with their
   argument in parentheses, no blanks. An operand that is missing, as the left one of a change of
   sign, prints as nothing.

   In LaTeX (`latex`) fractions, roots and exponents take their operands in braces and need no
   parentheses of their own; sums, products and calls are put in braces as a whole, and parentheses
   grow with what they hold. A name of several characters is its first character with the others as
   a subscript (`identifier`), whatever they are. -/
namespace Fluxion

/-- An expression ready for printing. An operand that is `absent` prints as nothing. -/
inductive Phrase where
  | absent
  | integer (value : Int64)
  | fraction (value : Binary64)
  | name (text : String)
  | operation (op : Operator) (left : Phrase) (wrapLeft : Bool) (right : Phrase) (wrapRight : Bool)

namespace Phrase

/-- An integer in decimal digits. -/
def decimal (n : Int) : List Char :=
  match n with
  | .ofNat n => Nat.toDigits 10 n
  | .negSucc n => '-' :: Nat.toDigits 10 (n + 1)

/-! ## Linear notation -/

/-- A text, in parentheses if asked for. -/
def wrapped (wrap : Bool) (text : List Char) : List Char :=
  if wrap then '(' :: text ++ [')'] else text

/-- The phrase as a source would have it. The argument of a function stands in the
    parentheses of the call. -/
def linear : Phrase → List Char
  | absent => []
  | integer n => decimal n.toInt
  | fraction x => x.literal.toList
  | name text => text.toList
  | operation (.apply f) _ _ argument _ => f.symbol.toList ++ '(' :: argument.linear ++ [')']
  | operation (.binary op) left wrapLeft right wrapRight =>
    wrapped wrapLeft left.linear ++ op.symbol.toList ++ wrapped wrapRight right.linear

/-! ## LaTeX -/

/-- An identifier: the first character, with all others as a subscript. -/
def identifier (text : String) : List Char :=
  match text.toList with
  | first :: next :: rest => first :: "_\x7b".toList ++ next :: rest ++ ['\x7d']
  | short => short

/-- A group in braces. -/
def braced (text : List Char) : List Char := '\x7b' :: text ++ ['\x7d']

/-- A text in parentheses that grow with it, if asked for. -/
def wrappedLatex (wrap : Bool) (text : List Char) : List Char :=
  if wrap then "\\left(".toList ++ text ++ "\\right)".toList else text

/-- The phrase in LaTeX's mathematical mode. Fractions, roots and exponents need no
    parentheses of their own. -/
def latex : Phrase → List Char
  | absent => []
  | integer n => decimal n.toInt
  | fraction x => x.literal.toList
  | name text => identifier text
  | operation (.binary .div) left _ right _ =>
    BinaryOp.div.latex.toList ++ braced left.latex ++ braced right.latex
  | operation (.binary .pow) left wrapLeft right _ =>
    wrappedLatex wrapLeft left.latex ++ BinaryOp.pow.latex.toList ++ braced right.latex
  | operation (.apply .sqrt) _ _ argument _ =>
    Elementary.sqrt.latex.toList ++ braced argument.latex
  | operation (.apply f) left wrapLeft argument wrapArgument =>
    braced (wrappedLatex wrapLeft left.latex ++ f.latex.toList ++
      match argument with
      | absent => []
      | argument => braced (wrappedLatex wrapArgument argument.latex))
  | operation (.binary op) left wrapLeft right wrapRight =>
    braced (wrappedLatex wrapLeft left.latex ++ op.latex.toList ++
      wrappedLatex wrapRight right.latex)

end Phrase
end Fluxion
