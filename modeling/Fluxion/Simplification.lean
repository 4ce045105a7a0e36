import Fluxion.Function
import Fluxion.Simplification.Rules
/- Simplification in place: one pass over the tree in post-order (`Arena.simplify`). Each node is
   rewritten after its operands, at most once, but for a product that turned into a quotient, which
   is looked at once more (`Arena.simplifyNode`). The answer is the arena and the laws that were
   applied, in order.

   The nodes to visit are listed before the first of them changes. While the pass goes on, nodes are
   released and others move up into the place of their parents, so it is not obvious that the slots
   still ahead hold what they held: that they do is proved in
   `Fluxion.Proofs.Simplification.Visits`, and `Fluxion.Proofs.Simplification.InPlace` compares the
   pass with one on trees.

   Whether a product became a quotient is told from its operator before and after, and not from the
   law that was applied. -/
namespace Fluxion

open Simplification

namespace Arena

/-- Rewrites a node by a rule, if it applies. -/
def rewriteBy (rule : Rule) (a : Arena) (h : Handle) : List Step × Arena :=
  match rule a h with
  | none => ([], a)
  | some rewrite => ([rewrite.step], a.applyEdit h rewrite.edit)

/-- Whether a node was a product and is a quotient now. -/
def becameQuotient (before after : Arena) (h : Handle) : Bool :=
  before.operator? h == some (.binary .mul) && after.operator? h == some (.binary .div)

/-- Simplifies a node whose operands are simplified already. -/
def simplifyNode (a : Arena) (h : Handle) : List Step × Arena :=
  let (first, b) := a.rewriteBy rewrite? h
  if a.becameQuotient b h then
    let (second, c) := b.rewriteBy rewrite? h
    (first ++ second, c)
  else (first, b)

/-- Simplifies nodes one after the other. -/
def simplifyAll (a : Arena) : List Handle → List Step × Arena
  | [] => ([], a)
  | h :: rest =>
    let (first, b) := a.simplifyNode h
    let (others, c) := b.simplifyAll rest
    (first ++ others, c)

/-- Simplifies the tree, in an order of nodes that is fixed beforehand. Answers the
    laws that were applied, in order. -/
def simplify (a : Arena) : List Step × Arena := a.simplifyAll a.postOrder

end Arena

namespace Function

/-- Simplifies the body and answers the laws that were applied. -/
def simplifyWithSteps (f : Function) : List Step × Function :=
  let (steps, body) := f.body.simplify
  (steps, { f with body })

/-- Simplifies the body. -/
def simplify (f : Function) : Function := f.simplifyWithSteps.2

end Function
end Fluxion
