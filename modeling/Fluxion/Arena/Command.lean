import Fluxion.Draft
/- The operations on an arena as commands (`Arena.Command`), for callers whose slots come from
   outside. A command is carried out (`Command.run?`) only if the arena has every slot that it
   names, and if a node that is to take another's place is an operand of it; otherwise the answer is
   `none`, which stands for a run that is stopped.

   Commands that store a node take its slot first and look at the named operands afterwards, so they
   may name the slot that is just being taken (`Command.reach`). Nothing sensible comes of that, but
   it is no reason to stop.

   Whether a slot is in use is not looked at, nor whether a node hangs somewhere else already. A
   command may therefore leave links that contradict each other. Which commands do no such thing,
   and that they always run, is said and proved in `Fluxion.Proofs.Arena.Runs`. -/
namespace Fluxion

/-- One operation on an arena. -/
inductive Arena.Command where
  | leaf (kind : Kind) (span : Span)
  | binary (op : Operator) (left right : Handle) (span : Span)
  | unary (op : Operator) (operand : Handle) (span : Span)
  | setRoot (h : Handle)
  | release (h : Handle)
  | makeLeaf (h : Handle) (kind : Kind)
  | hoist (h child : Handle)
  | takeOperands (h : Handle)
  | removeLeft (h : Handle)
  | rewrite (h : Handle) (op : Operator) (left right : Option Handle)
  | copy (source : Arena) (h : Handle)

/-- What a command answers. -/
inductive Arena.Reply where
  | done
  | slot (h : Handle)
  | operands (left right : Option Handle)

namespace Arena

/-- Whether the arena has a slot of this number. -/
def has (a : Arena) (h : Handle) : Bool := h < a.nodes.size

namespace Command

/-- The slots that a command names in the arena it runs on. -/
def slots : Command → List Handle
  | binary _ left right _ => [left, right]
  | unary _ operand _ => [operand]
  | setRoot h | release h | makeLeaf h _ | takeOperands h | removeLeft h => [h]
  | hoist h child => [h, child]
  | rewrite h _ left right => h :: left.toList ++ right.toList
  | leaf .. | copy .. => []

/-- How many slots there are when a command looks at those it names. A node that is
    stored before may be among them. -/
def reach (a : Arena) : Command → Nat
  | binary .. | unary .. => if a.free.isEmpty then a.nodes.size + 1 else a.nodes.size
  | _ => a.nodes.size

/-- Carries out a command without looking at its slots first. -/
def perform (a : Arena) : Command → Option (Reply × Arena)
  | leaf kind span => let (h, a) := a.alloc { kind, span }; some (.slot h, a)
  | binary op left right span =>
    let (h, a) := a.place (.operator op) span left right; some (.slot h, a)
  | unary op operand span =>
    let (h, a) := a.place (.operator op) span none operand; some (.slot h, a)
  | setRoot h => some (.done, a.setRoot h)
  | release h => some (.done, a.release h)
  | makeLeaf h kind => some (.done, a.makeLeaf h kind)
  | hoist h child => some (.done, a.hoist h child)
  | takeOperands h => let ((l, r), a) := a.takeOperands h; some (.operands l r, a)
  | removeLeft h => some (.done, a.removeLeft h)
  | rewrite h op left right => some (.done, a.rewrite h op left right)
  | copy source h => do let (h, a) ← a.copyFrom source h; some (.slot h, a)

/-- Whether the command asks for something that the nodes it names allow: only an
    operand can take the place of its node. -/
def isFit (a : Arena) : Command → Bool
  | hoist h child => a.left? h == some child || a.right? h == some child
  | _ => true

/-- Carries out a command if the arena has the slots that it names and their nodes
    allow it. -/
def run? (a : Arena) (command : Command) : Option (Reply × Arena) :=
  if command.slots.all (· < command.reach a) && command.isFit a then command.perform a else none

end Command
end Arena
end Fluxion
