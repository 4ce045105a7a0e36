import Fluxion.Function
/- Derivatives with respect to the variable of a definition. The derivative of a tree is a draft
   (`Derivative.of`): parts of the tree come back in it as copies, with their places in the source,
   and everything else is built and has no place. A draft says also in which order operands are
   stored, which is not always from left to right.

   The rules are those of the textbook, in a fixed form and without any simplification: `(x*x)'` is
   `1*x+x*1`. Elementary functions have a table of outer derivatives (`outer?`) and the chain rule
   (`ofCall`), apart from the logarithm, whose derivative is a quotient.

   An exponent is treated as a constant, whatever stands there: `(u^v)'` is `u' * (v * u^(v - 1))`,
   also where `v` holds the variable. Where it does not, the derivative is right
   (`Fluxion.Proofs.Derivative.Correctness`). -/
namespace Fluxion
namespace Derivative

open Draft

/-! ## Parts of derivatives -/

def reciprocal (d : Draft) : Draft := binaryBackwards .div (integer 1) d

/-- `v ^ 2` -/
def square (v : Tree) : Draft := binary .pow (copy v) (integer 2)

/-- `f(v) ^ 2` -/
def squareOf (f : Elementary) (v : Tree) : Draft := binary .pow (apply f (copy v)) (integer 2)

/-- `1 / sqrt(1 - v^2)` -/
def arcsine (v : Tree) : Draft :=
  reciprocal (apply .sqrt (binary .sub (integer 1) (square v)))

/-- `1 / (1 + v^2)` -/
def arctangent (v : Tree) : Draft := reciprocal (binary .add (integer 1) (square v))

/-- The derivative of an elementary function at the argument `v`, where `call` is
    the application itself. The logarithm has a rule of its own. -/
def outer? (call v : Tree) : Elementary → Option Draft
  | .sqrt => some (reciprocal (binary .mul (integer 2) (copy call)))
  | .exp => some (copy call)
  | .sin => some (apply .cos (copy v))
  | .cos => some (negate (apply .sin (copy v)))
  | .tan => some (reciprocal (squareOf .cos v))
  | .cot => some (negate (reciprocal (squareOf .sin v)))
  | .arcsin => some (arcsine v)
  | .arccos => some (negate (arcsine v))
  | .arctan => some (arctangent v)
  | .arccot => some (negate (arctangent v))
  | .log => none

/-! ## Rules for operators, from the operands and their derivatives -/

/-- `du * v + u * dv` -/
def ofProduct (u v : Tree) (du dv : Draft) : Draft :=
  binary .add (binary .mul du (copy v)) (binary .mul (copy u) dv)

/-- `(du * v - u * dv) / v^2` -/
def ofQuotient (u v : Tree) (du dv : Draft) : Draft :=
  binary .div (binary .sub (binary .mul du (copy v)) (binary .mul (copy u) dv)) (square v)

/-- `du * (v * u^(v - 1))` -/
def ofPower (u v : Tree) (du : Draft) : Draft :=
  binary .mul du
    (binaryBackwards .mul (copy v)
      (binaryBackwards .pow (copy u) (binary .sub (copy v) (integer 1))))

/-- The chain rule; for the logarithm `dv / v`. -/
def ofCall (f : Elementary) (call v : Tree) (dv : Draft) : Draft :=
  match outer? call v f with
  | some outer => binary .mul outer dv
  | none => binary .div dv (copy v)

/-- The draft of the derivative of a tree. Operators that lack an operand count as
    constants. -/
def of : Tree → Draft
  | .node (.operator op) span u v =>
    match op, u, v with
    | .binary .sub, .absent, .node .. => negate (of v)
    | .apply f, .absent, .node .. => ofCall f (.node (.operator op) span u v) v (of v)
    | .binary .add, .node .., .node .. => binary .add (of u) (of v)
    | .binary .sub, .node .., .node .. => binary .sub (of u) (of v)
    | .binary .mul, .node .., .node .. => ofProduct u v (of u) (of v)
    | .binary .div, .node .., .node .. => ofQuotient u v (of u) (of v)
    | .binary .pow, .node .., .node .. => ofPower u v (of u)
    | _, _, _ => integer 0
  | .node .var .. => integer 1
  | .node .. => integer 0
  | .absent => .absent

end Derivative

namespace Function

/-- The name with a prime. -/
def derivativeName (f : Function) : String := f.name ++ "'"

/-- The derivative, not simplified, with the variable and the parameters of the
    function. -/
def derivative (f : Function) : Function :=
  { f with name := f.derivativeName, body := .ofDraft (Derivative.of f.body.rootTree) }

end Function
end Fluxion
