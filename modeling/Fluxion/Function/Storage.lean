import Fluxion.Data
import Fluxion.Function
/- The stored form of functions (`Function.encode`, `Function.decode?`). It holds the arena as it
   is, released slots and all, so that a function read back goes on exactly as the one that was
   written: it takes the same slots and has the same places.

   Operators have names of their own in stored form (`Operator.key`), which are neither those of a
   source nor those of LaTeX; each leads back to its operator (`Operator.ofKey?_key`). The stack of
   released slots is written the other way round, with the slot released last at the end.

   What the links lead to is not looked at when a function is read, so a stored form may hold an
   arena whose links lead nowhere or run in circles. What is looked at is the form: kinds and
   operators by name, numbers in their range, spans with their two fields and no others. Which
   functions can be written and read back is settled in `Fluxion.Proofs.Function.StoredForm`. -/
namespace Fluxion

/-! ## Operators -/

/-- The name of an operator in stored form. -/
def Operator.key : Operator → String
  | .binary .add => "Add"
  | .binary .sub => "Sub"
  | .binary .mul => "Mul"
  | .binary .div => "Div"
  | .binary .pow => "Pwr"
  | .apply .sqrt => "Sqrt"
  | .apply .exp => "Exp"
  | .apply .log => "Log"
  | .apply .sin => "Sin"
  | .apply .cos => "Cos"
  | .apply .tan => "Tan"
  | .apply .cot => "Cot"
  | .apply .arcsin => "Asin"
  | .apply .arccos => "Acos"
  | .apply .arctan => "Atan"
  | .apply .arccot => "Acot"

/-- Every operator. -/
def Operator.all : List Operator :=
  [BinaryOp.add, .sub, .mul, .div, .pow].map .binary ++
    [Elementary.sqrt, .exp, .log, .sin, .cos, .tan, .cot, .arcsin, .arccos, .arctan, .arccot].map
      .apply

/-- The operator of a name. -/
def Operator.ofKey? (key : String) : Option Operator :=
  Operator.all.find? fun op => op.key == key

theorem Operator.ofKey?_key (op : Operator) : Operator.ofKey? op.key = some op := by
  rcases op with op | f
  · cases op <;> rfl
  · cases f <;> rfl

namespace Function

/-! ## Writing -/

def encodeSpan (span : Span) : Data :=
  .record [("start", .integer span.start), ("end", .integer span.stop)]

def encodeKind : Kind → Data
  | .integer n => .record [("Integer", .integer n.toInt)]
  | .fraction x => .record [("Fraction", .real x)]
  | .var => .text "Variable"
  | .param index => .record [("Parameter", .integer index)]
  | .operator op => .record [("Operator", .text op.key)]

def encodeNode (node : Arena.Node) : Data :=
  .record [("kind", encodeKind node.kind), ("parent", .ofOptional node.parent),
    ("left", .ofOptional node.left), ("right", .ofOptional node.right),
    ("span", encodeSpan node.span)]

/-- The stack of released slots is written with the last released at the end. -/
def encodeArena (a : Arena) : Data :=
  .record [("nodes", .list (a.nodes.toList.map encodeNode)),
    ("free", .list (a.free.reverse.map fun h : Nat => .integer h)), ("root", .integer a.root)]

def encode (f : Function) : Data :=
  .record [("name", .text f.name), ("variable", .text f.variableName),
    ("params", .record [("names", .list (f.params.names.map .text))]), ("ast", encodeArena f.body)]

/-! ## Reading -/

/-- A span has its two fields and no others. -/
def decodeSpan? (data : Data) : Option Span := do
  if let .record fields := data then
    guard (fields.all fun field => field.1 == "start" || field.1 == "end")
  match ← data.fields? ["start", "end"] with
  | [some start, some stop] => some ⟨← start.natural?, ← stop.natural?⟩
  | _ => none

def decodeOperator? (data : Data) : Option Operator := do
  let (key, content) ← data.choice?
  guard (Data.carriesNothing content)
  Operator.ofKey? key

def decodeKind? (data : Data) : Option Kind := do
  match ← data.choice? with
  | ("Variable", content) => if Data.carriesNothing content then some .var else none
  | ("Integer", some n) =>
    (n.integerIn? Int64.minValue.toInt (Int64.maxValue.toInt + 1)).map fun n => .integer (.ofInt n)
  | ("Fraction", some x) => x.real?.map .fraction
  | ("Parameter", some index) => index.natural?.map .param
  | ("Operator", some op) => (decodeOperator? op).map .operator
  | _ => none

/-- Links that are not given are missing links. -/
def decodeNode? (data : Data) : Option Arena.Node := do
  match ← data.fields? ["kind", "parent", "left", "right", "span"] with
  | [some kind, parent, left, right, some span] =>
    some {
      kind := ← decodeKind? kind
      span := ← decodeSpan? span
      parent := ← Data.optional? Data.natural? parent
      left := ← Data.optional? Data.natural? left
      right := ← Data.optional? Data.natural? right }
  | _ => none

def decodeArena? (data : Data) : Option Arena := do
  match ← data.fields? ["nodes", "free", "root"] with
  | [some nodes, some free, some root] =>
    some {
      nodes := (← nodes.list? decodeNode?).toArray
      free := (← free.list? Data.natural?).reverse
      root := ← root.natural? }
  | _ => none

def decodeParams? (data : Data) : Option ParameterTable := do
  match ← data.fields? ["names"] with
  | [some names] => some ⟨← names.list? Data.text?⟩
  | _ => none

/-- Reads a stored function. What the links lead to is not looked at. -/
def decode? (data : Data) : Option Function := do
  match ← data.fields? ["name", "variable", "params", "ast"] with
  | [some name, some variableName, some params, some body] =>
    some {
      name := ← name.text?
      variableName := ← variableName.text?
      params := ← decodeParams? params
      body := ← decodeArena? body }
  | _ => none

end Function
end Fluxion
