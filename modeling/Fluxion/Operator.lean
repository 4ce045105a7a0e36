/- The operators of an expression: five operations that join two operands (`BinaryOp`) and eleven
   elementary functions that are applied to one (`Elementary`). A change of sign is a difference
   without its left operand and not an operator of its own.

   This module holds their names in a source, their symbols in print and the order in which they
   bind. Several names may lead to one function, as `tg` and `tan` do, and a function is printed
   under one of them (`Elementary.symbol`), which leads back to it. The order of the names matters
   for suggestions alone.

   Smaller priorities bind tighter. A function binds more loosely than a power and more tightly than
   a product, although its argument always stands in parentheses in a source; the order shows in
   LaTeX, where it does not. -/
namespace Fluxion

/-- An operation between two operands. `sub` without its left operand is the
    change of sign. -/
inductive BinaryOp where
  | add | sub | mul | div | pow
  deriving DecidableEq

/-- An elementary function, applied by writing its name and a parenthesized
    argument. -/
inductive Elementary where
  | sqrt | exp | log | sin | cos | tan | cot | arcsin | arccos | arctan | arccot
  deriving DecidableEq

/-- The operator of an inner node of a tree. -/
inductive Operator where
  | binary (op : BinaryOp)
  | apply (f : Elementary)
  deriving DecidableEq

namespace BinaryOp

/-- All operations but the power compute with integers. -/
def isArithmetic : BinaryOp → Bool
  | pow => false
  | _ => true

/-- Whether the operands may change places. -/
def isCommutative : BinaryOp → Bool
  | add | mul => true
  | _ => false

/-- How loosely the operation holds its operands. -/
def priority : BinaryOp → Nat
  | pow => 2
  | mul | div => 4
  | add | sub => 5

def symbol : BinaryOp → String
  | add => "+"
  | sub => "-"
  | mul => "*"
  | div => "/"
  | pow => "^"

def latex : BinaryOp → String
  | add => "+"
  | sub => "-"
  | mul => " \\cdot "
  | div => "\\frac"
  | pow => "^"

end BinaryOp

namespace Elementary

/-- Every name under which a function can be called, in the order in which
    suggestions of equal rank are made. -/
def names : List (String × Elementary) :=
  [("cos", cos), ("sin", sin), ("tan", tan), ("tg", tan), ("cot", cot), ("ctg", cot), ("exp", exp),
   ("log", log), ("ln", log), ("sqrt", sqrt), ("arcsin", arcsin), ("arccos", arccos),
   ("arctan", arctan), ("arctg", arctan), ("arccot", arccot), ("arcctg", arccot)]

/-- The function called by a name. Upper and lower case differ. -/
def ofName? (name : String) : Option Elementary := names.lookup name

/-- The name under which the function is printed. -/
def symbol : Elementary → String
  | sqrt => "sqrt"
  | exp => "exp"
  | log => "log"
  | sin => "sin"
  | cos => "cos"
  | tan => "tan"
  | cot => "cot"
  | arcsin => "arcsin"
  | arccos => "arccos"
  | arctan => "arctan"
  | arccot => "arccot"

def latex : Elementary → String
  | sqrt => "\\sqrt"
  | exp => "\\exp"
  | log => "\\ln"
  | sin => "\\sin"
  | cos => "\\cos"
  | tan => "\\tan"
  | cot => "\\cot"
  | arcsin => "\\arcsin"
  | arccos => "\\arccos"
  | arctan => "\\arctan"
  | arccot => "\\operatorname\x7barccot\x7d"

end Elementary

namespace Operator

def isFunction : Operator → Bool
  | binary _ => false
  | apply _ => true

def isArithmetic : Operator → Bool
  | binary op => op.isArithmetic
  | apply _ => false

/-- Only `-`, `/` and `^` mind the order of their operands. -/
def isCommutative : Operator → Bool
  | binary op => op.isCommutative
  | apply _ => true

/-- The binding class: a smaller number binds tighter. -/
def priority : Operator → Nat
  | binary op => op.priority
  | apply _ => 3

/-- The sign or name in linear notation. -/
def symbol : Operator → String
  | binary op => op.symbol
  | apply f => f.symbol

/-- The LaTeX command. -/
def latex : Operator → String
  | binary op => op.latex
  | apply f => f.latex

end Operator
end Fluxion
