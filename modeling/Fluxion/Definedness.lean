import Fluxion.Fault.Undefined
import Fluxion.Function
/- The check for parts that have no value, whatever the variable and the parameters are. It looks at
   literal operands only: `1/0` is refused, `1/(x-x)` is not, and neither is `1/0.0`, since only
   integer literals count as zero. A negative number under a logarithm is an integer literal below
   zero, which no source has, or the opposite of one that is not below zero (`Arena.isNegative`).

   A node is looked at by itself (`Arena.fault?`), and the nodes in post-order (`Function.check`),
   so of several faults the one that comes first in that order is reported, with the place of its
   node.

   What the check refuses has no value over the reals, and neither does the whole function; both are
   proved in `Fluxion.Proofs.Function.Offences`, along with which fault is reported. -/
namespace Fluxion
namespace Arena

/-- What is wrong with a node whose operands are literals. -/
def fault? (a : Arena) (h : Handle) : Option UndefinedFault :=
  let zero (operand : Option Handle) := operand.any a.isZero
  match a.operator? h with
  | some (.binary .pow) =>
    if zero (a.left? h) && zero (a.right? h) then some .zeroToZero else none
  | some (.binary .div) => if zero (a.right? h) then some .divisionByZero else none
  | some (.apply .log) =>
    if zero (a.right? h) then some .logOfZero
    else if (a.right? h).any a.isNegative then some .logOfNegative
    else none
  | _ => none

/-- The fault of a node, with its place. -/
def faultAt? (a : Arena) (h : Handle) : Option UndefinedError := do
  let fault ← a.fault? h
  let node ← a.node? h
  some ⟨fault, [node.span]⟩

end Arena

namespace Function

/-- Refuses a function with an undefined part. Of several, the first in post-order
    is reported. -/
def check (f : Function) : Except UndefinedError Unit :=
  match f.body.postOrder.findSome? f.body.faultAt? with
  | some fault => .error fault
  | none => .ok ()

end Function
end Fluxion
