import Fluxion.Tree
/- Expression trees stored in an arena. Nodes sit in numbered slots (`Handle`) and name each other
   by slot. A released slot goes on a stack, and the slot released last is the first to be used
   again (`Arena.alloc`). Which slot a node takes is part of the stored form of a function and can
   be seen from outside, so it is fixed here and not left to the implementation.

   The links are of two sorts: a node names its operands, which belong to it, and it names its
   parent, which only leads upwards. Operations that build and change trees in place (`link`,
   `release`, `makeLeaf`, `hoist`, `takeOperands`, `removeLeft`, `rewrite`) keep both in step, if
   they are used as they should be; what that means is `Arena.Command.IsProper`, and that the links
   then stay in step is proved with it.

   All operations are total: what is asked of a slot that the arena does not have is left undone.
   `Arena.Command` checks slots that come from outside. The questions at the end look at a node, its
   operands and its parent only. -/
namespace Fluxion

/-- The number of a slot. -/
abbrev Handle := Nat

/-- A stored node. The parent link leads upwards only; operands belong to the node
    that names them. -/
structure Arena.Node where
  kind : Kind
  span : Span
  parent : Option Handle := none
  left : Option Handle := none
  right : Option Handle := none
  deriving DecidableEq

/-- The slots, the stack of released ones with the last released in front, and
    the slot of the root. -/
structure Arena where
  nodes : Array Arena.Node := #[]
  free : List Handle := []
  root : Handle := 0
  deriving DecidableEq

namespace Arena

/-! ## Slots -/

/-- The number of slots in use. -/
def size (a : Arena) : Nat := a.nodes.size - a.free.length

/-- Whether the slots in use can be counted: a slot that was released more than once
    stands on the stack as often, and then there may be more released slots than slots. -/
def isCounted (a : Arena) : Bool := a.free.length ≤ a.nodes.size

def isEmpty (a : Arena) : Bool := a.size == 0

def node? (a : Arena) (h : Handle) : Option Node := a.nodes[h]?

/-- Changes the node in a slot. -/
def modify (a : Arena) (h : Handle) (change : Node → Node) : Arena :=
  { a with nodes := a.nodes.modify h change }

/-- Stores a node in the slot released last, or else in a new one. -/
def alloc (a : Arena) (node : Node) : Handle × Arena :=
  match a.free with
  | [] => (a.nodes.size, { a with nodes := a.nodes.push node })
  | h :: free => (h, { a with nodes := a.nodes.setIfInBounds h node, free })

/-! ## Links -/

/-- Sets or clears the parent of a node, if there is a node. -/
def setParent (a : Arena) (child : Option Handle) (parent : Option Handle) : Arena :=
  match child with
  | none => a
  | some child => a.modify child fun node => { node with parent }

/-- Gives a node its operands and points them back at it. -/
def link (a : Arena) (h : Handle) (left right : Option Handle) : Arena :=
  let a := a.modify h fun node => { node with left, right }
  (a.setParent left h).setParent right h

/-- Makes a node the root. -/
def setRoot (a : Arena) (h : Handle) : Arena := { a.setParent h none with root := h }

/-- Stores a node with its operands. -/
def place (a : Arena) (kind : Kind) (span : Span) (left right : Option Handle) : Handle × Arena :=
  let (h, a) := a.alloc { kind, span }
  (h, a.link h left right)

/-! ## Releasing -/

/-- Releases a node and all below it, to the given depth. The node's slot is
    released first, then the right operand, then the left one. -/
def releaseWithin : Nat → Arena → Option Handle → Arena
  | depth + 1, a, some h =>
    match a.node? h with
    | none => a
    | some node =>
      let a := a.modify h fun node => { node with parent := none, left := none, right := none }
      let a := releaseWithin depth { a with free := h :: a.free } node.right
      releaseWithin depth a node.left
  | _, a, _ => a

/-- Releases a node and all below it. A node gives up its links when it is
    released, so no path is longer than the number of slots. -/
def release (a : Arena) (h : Option Handle) : Arena := releaseWithin (a.nodes.size + 1) a h

/-! ## Looking at nodes -/

def kind? (a : Arena) (h : Handle) : Option Kind := (a.node? h).map (·.kind)

def operator? (a : Arena) (h : Handle) : Option Operator := (a.kind? h).bind (·.operator?)

def integer? (a : Arena) (h : Handle) : Option Int64 := (a.kind? h).bind (·.integer?)

def left? (a : Arena) (h : Handle) : Option Handle := (a.node? h).bind (·.left)

def right? (a : Arena) (h : Handle) : Option Handle := (a.node? h).bind (·.right)

def parent? (a : Arena) (h : Handle) : Option Handle := (a.node? h).bind (·.parent)

/-! ## Rewriting in place -/

/-- Turns a node into a leaf and releases its operands. -/
def makeLeaf (a : Arena) (h : Handle) (kind : Kind) : Arena :=
  let (left, right) := (a.left? h, a.right? h)
  let a := a.modify h fun node => { node with kind, left := none, right := none }
  (a.release left).release right

/-- Puts an operand in the place of its node: the node stays in its slot and takes
    over kind, span and operands, and the other operand is released. -/
def hoist (a : Arena) (h child : Handle) : Arena :=
  let a := a.release (if a.left? h = some child then a.right? h else a.left? h)
  match a.node? child with
  | none => a
  | some kept =>
    let a := a.modify h fun node => { node with kind := kept.kind, span := kept.span }
    let a := a.link h kept.left kept.right
    let a := a.modify child fun node => { node with left := none, right := none }
    a.release child

/-- Takes the operands off a node. They stay in use, without a parent. -/
def takeOperands (a : Arena) (h : Handle) : (Option Handle × Option Handle) × Arena :=
  let (left, right) := (a.left? h, a.right? h)
  let a := a.modify h fun node => { node with left := none, right := none }
  ((left, right), (a.setParent left none).setParent right none)

/-- Releases the left operand, which turns a difference into a change of sign. -/
def removeLeft (a : Arena) (h : Handle) : Arena :=
  let left := a.left? h
  (a.modify h fun node => { node with left := none }).release left

/-- Makes a node an operator over operands that hang nowhere else. -/
def rewrite (a : Arena) (h : Handle) (op : Operator) (left right : Option Handle) : Arena :=
  (a.modify h fun node => { node with kind := .operator op }).link h left right

/-! ## Questions about nodes -/

/-- Whether the node is the left operand of its parent. -/
def isLeft (a : Arena) (h : Handle) : Bool := (a.parent? h).any fun p => a.left? p == some h

/-- Whether the node is the right operand of its parent. -/
def isRight (a : Arena) (h : Handle) : Bool := (a.parent? h).any fun p => a.right? p == some h

def isZero (a : Arena) (h : Handle) : Bool := a.integer? h == some 0

def isOne (a : Arena) (h : Handle) : Bool := a.integer? h == some 1

/-- A negative integer literal, or the change of sign of one that is not negative. -/
def isNegative (a : Arena) (h : Handle) : Bool :=
  match a.kind? h with
  | some (.integer n) => n < 0
  | some (.operator (.binary .sub)) =>
    (a.left? h).isNone && ((a.right? h).bind a.integer?).any fun n => 0 ≤ n
  | _ => false

def isArithmetic (a : Arena) (h : Handle) : Bool := (a.operator? h).any (·.isArithmetic)

/-- An arithmetic operator between two integer literals. -/
def isCalculable (a : Arena) (h : Handle) : Bool :=
  a.isArithmetic h && ((a.left? h).bind a.integer?).isSome && ((a.right? h).bind a.integer?).isSome

/-- The binding class of a node; leaves bind tightest. -/
def priority (a : Arena) (h : Handle) : Nat := ((a.operator? h).map (·.priority)).getD 1

/-- Whether a node must stand in parentheses as an operand of its parent. -/
def needsParentheses (a : Arena) (h : Handle) : Bool :=
  match a.parent? h with
  | none => false
  | some p =>
    let outer := a.operator? p
    let power : Option Operator := some (.binary .pow)
    if outer = power ∧ a.isRight h then false
    else if outer = power ∧ a.operator? h = power then true
    else a.priority p < a.priority h ||
      (a.priority p == a.priority h && a.isRight h && outer.any (!·.isCommutative))

end Arena
end Fluxion
