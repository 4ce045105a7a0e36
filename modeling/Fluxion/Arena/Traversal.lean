import Fluxion.Arena
/- Ways through an arena. `foldFrom` computes bottom-up over the operands of a node, `tree?` reads
   the stored tree, and `postOrderFrom?` lists the nodes in the order in which simplification visits
   them: operands first, left before right.

   The list is made with a stack and without recursion on the links (`walk`): the node on top is
   listed if its last operand was listed just before it, and otherwise its operands are put on top
   of it. That this is the order of the tree is proved in `Fluxion.Proofs.Arena.PostOrder`.

   Links of a stored form may lead nowhere or run in circles; the answer is `none` then, and
   `isReadable` tells such arenas apart. No path without a circle is longer than the number of
   slots, and no node has as many paths below it as the slots have subsets, so the bounds below are
   met only by circles. -/
namespace Fluxion
namespace Arena

/-! ## Bottom-up -/

/-- Computes a value for a node from the values of its operands, to the given
    depth. A missing operand has the value `absent`. -/
def foldWithin {β : Type} (a : Arena) (absent : β) (combine : Handle → Node → β → β → β) :
    Nat → Option Handle → Option β
  | _, none => some absent
  | 0, some _ => none
  | depth + 1, some h => do
    let node ← a.node? h
    let left ← a.foldWithin absent combine depth node.left
    let right ← a.foldWithin absent combine depth node.right
    some (combine h node left right)

/-- The value of a node from those of its operands. -/
def foldFrom {β : Type} (a : Arena) (absent : β) (combine : Handle → Node → β → β → β)
    (h : Handle) : Option β :=
  a.foldWithin absent combine a.nodes.size (some h)

/-- The tree stored at and below a node. -/
def tree? (a : Arena) (h : Handle) : Option Tree :=
  a.foldFrom Tree.absent (fun _ node left right => .node node.kind node.span left right) h

/-- Whether the links below the root lead to nodes and end. -/
def isReadable (a : Arena) : Bool := (a.tree? a.root).isSome

/-- The tree stored at the root, in use or not. -/
def rootTree (a : Arena) : Tree := (a.tree? a.root).getD .absent

/-- The tree of the arena; none if no slot is in use. -/
def tree (a : Arena) : Tree := if a.isEmpty then .absent else a.rootTree

/-- Equality of the stored trees, wherever they are stored. -/
def same (a b : Arena) : Bool := a.tree.same b.tree

/-! ## In post-order -/

/-- Lists nodes with a stack: the node on top is listed if its last operand was
    listed just before it, and otherwise waits for its operands. -/
def walk (a : Arena) : Nat → List Handle → Option Handle → Option (List Handle)
  | _, [], _ => some []
  | 0, _ :: _, _ => none
  | steps + 1, h :: stack, last => do
    let node ← a.node? h
    let lastOperand := node.right.or node.left
    if lastOperand.isSome ∧ lastOperand ≠ last then
      walk a steps (node.left.toList ++ node.right.toList ++ h :: stack) last
    else
      let rest ← walk a steps stack (some h)
      some (h :: rest)

/-- The nodes at and below a node, operands before their operators. -/
def postOrderFrom? (a : Arena) (h : Handle) : Option (List Handle) :=
  a.walk (1 <<< (a.nodes.size + 1)) [h] none

/-- The nodes of the tree in post-order; none if no slot is in use. -/
def postOrder (a : Arena) : List Handle :=
  if a.isEmpty then [] else (a.postOrderFrom? a.root).getD []

end Arena
end Fluxion
