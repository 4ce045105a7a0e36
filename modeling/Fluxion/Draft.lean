import Fluxion.Arena.Traversal
/- Drafts of trees that are to be stored. A draft (`Draft`) says, besides the tree, in which order
   the operands of a node are stored, since the order decides which slots they take. Parsed bodies,
   copies and derivatives are all stored from drafts, and `Draft.tree` is the tree that is meant.

   A parsed body is stored in post-order, left before right, as a copy is (`Draft.copy`).
   Derivatives store the operands of some nodes backwards (`Draft.binaryBackwards`).

   `Arena.build` stores a draft in an arena that may hold other things already, and the root of what
   was stored has no parent. From it come `copyFrom`, which reads the tree at a slot of another
   arena, and `ofDraft`, which starts with an empty arena. What they leave in the arena is proved in
   `Fluxion.Proofs.Arena.Building`. -/
namespace Fluxion

/-- Which operand is stored first. The operator always follows both. -/
inductive Draft.Order where
  | leftFirst
  | rightFirst
  deriving DecidableEq

/-- A tree with an order of storing. -/
inductive Draft where
  | absent
  | node (kind : Kind) (span : Span) (order : Draft.Order) (left right : Draft)

namespace Draft

/-- The tree that is drafted. -/
def tree : Draft → Tree
  | absent => .absent
  | node kind span _ left right => .node kind span left.tree right.tree

/-- A copy of a tree, places in the source included. -/
def copy : Tree → Draft
  | .absent => absent
  | .node kind span left right => node kind span .leftFirst (copy left) (copy right)

theorem tree_copy : ∀ t : Tree, (copy t).tree = t
  | .absent => rfl
  | .node kind span left right => by rw [copy, tree, tree_copy left, tree_copy right]

/-! ## Built nodes come from no place in a source. -/

def integer (n : Int64) : Draft := node (.integer n) .nowhere .leftFirst absent absent

def binary (op : BinaryOp) (left right : Draft) : Draft :=
  node (.operator (.binary op)) .nowhere .leftFirst left right

/-- A binary node whose right operand is stored before the left one. -/
def binaryBackwards (op : BinaryOp) (left right : Draft) : Draft :=
  node (.operator (.binary op)) .nowhere .rightFirst left right

def apply (f : Elementary) (argument : Draft) : Draft :=
  node (.operator (.apply f)) .nowhere .leftFirst absent argument

def negate (operand : Draft) : Draft :=
  node (.operator (.binary .sub)) .nowhere .leftFirst absent operand

end Draft

namespace Arena

/-- Stores a draft and answers the slot of its root. -/
def build (a : Arena) : Draft → Option Handle × Arena
  | .absent => (none, a)
  | .node kind span .leftFirst left right =>
    let (l, a) := a.build left
    let (r, a) := a.build right
    let (h, a) := a.place kind span l r
    (some h, a)
  | .node kind span .rightFirst left right =>
    let (r, a) := a.build right
    let (l, a) := a.build left
    let (h, a) := a.place kind span l r
    (some h, a)

/-- Copies what is stored at and below a node of another arena into this one. The
    copy has no parent. -/
def copyFrom (a source : Arena) (h : Handle) : Option (Handle × Arena) := do
  let tree ← source.tree? h
  let (copy, a) := a.build (.copy tree)
  let copy ← copy
  some (copy, a)

/-- A new arena that holds the drafted tree and nothing else. -/
def ofDraft (draft : Draft) : Arena :=
  match ({} : Arena).build draft with
  | (none, a) => a
  | (some h, a) => a.setRoot h

end Arena
end Fluxion
