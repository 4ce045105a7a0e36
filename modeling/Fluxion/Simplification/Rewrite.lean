import Fluxion.Arena
/- Rewrites that simplify one node in place. A rule looks at a node and answers with the rewrite
   that it allows, if any (`Rewrite`): the law (`Step`), which is reported, and the change (`Edit`).
   Nothing changes before `Arena.applyEdit`, so a rule that does not apply leaves everything as it
   is.

   There are four changes. A node becomes an integer literal; it becomes one of its operands, which
   moves into its slot; a difference loses its left operand; or a product with a reciprocal becomes
   a quotient (`Arena.fuse`). Each of them keeps the slot of the node itself and its link upwards,
   so the parent of a node need not know what became of it, and releases the slots below it that are
   no longer needed. -/
namespace Fluxion
namespace Simplification

/-- The law by which a node was simplified. -/
inductive Step where
  | foldConstants
  | addZero
  | subtractFromZero
  | negateZero
  | subtractZero
  | multiplyZero
  | multiplyOne
  | multiplyReciprocal
  | divideZero
  | divideOne
  | powerZero
  | powerOne
  deriving DecidableEq

/-- A change of one node in place. -/
inductive Edit where
  /-- The node becomes an integer literal. -/
  | literal (value : Int64)
  /-- The node becomes one of its operands. -/
  | keep (operand : Handle)
  /-- A difference becomes the change of sign of its right operand. -/
  | dropLeft
  /-- A product becomes the quotient of `other` by the denominator of `reciprocal`. -/
  | divide (other reciprocal : Handle)
  deriving DecidableEq

/-- A change and the law that allows it. -/
structure Rewrite where
  step : Step
  edit : Edit
  deriving DecidableEq

end Simplification

namespace Arena

open Simplification

/-- Fuses a product of a reciprocal and another factor into a quotient. The numerator
    of the reciprocal and its node are released. -/
def fuse (a : Arena) (h other reciprocal : Handle) : Arena :=
  let ((one, denominator), a) := a.takeOperands reciprocal
  let a := a.release one
  let a := (a.takeOperands h).2
  let a := a.release reciprocal
  a.rewrite h (.binary .div) other denominator

/-- Carries out a change of a node. -/
def applyEdit (a : Arena) (h : Handle) : Edit → Arena
  | .literal value => a.makeLeaf h (.integer value)
  | .keep operand => a.hoist h operand
  | .dropLeft => a.removeLeft h
  | .divide other reciprocal => a.fuse h other reciprocal

end Arena
end Fluxion
