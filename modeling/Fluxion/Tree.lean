import Fluxion.Binary64
import Fluxion.Operator
import Fluxion.Text
/- Expression trees. A node has a kind (`Kind`), the place in the source that it came from, and up
   to two operands (`Tree`). Literals are integers of 64 bits or doubles; a name is the variable or
   the index of a parameter. Elementary functions and the change of sign have a right operand only,
   leaves have none. The type leaves room for other shapes, which nothing in a definition gives rise
   to; `Tree.WellShaped` excludes them.

   A tree is what an arena stores, without the slots. It is read off an arena to be copied, derived
   or compared, and it is what most theorems speak of.

   Equality (`Tree.same`) is that of shape and kinds, not of places, and it compares fractions as
   numbers. So a tree with a fraction that is no number is not even equal to itself. -/
namespace Fluxion

/-- What a node of an expression stands for. -/
inductive Kind where
  | integer (value : Int64)
  | fraction (value : Binary64)
  /-- The variable of the definition. -/
  | var
  /-- A free parameter, by its index in the table of parameters. -/
  | param (index : Nat)
  | operator (op : Operator)
  deriving DecidableEq

namespace Kind

/-- The operator of an inner node. -/
def operator? : Kind → Option Operator
  | operator op => some op
  | _ => none

/-- The value of an integer literal. -/
def integer? : Kind → Option Int64
  | integer n => some n
  | _ => none

/-- Equality of kinds, with fractions compared as numbers. -/
def same : Kind → Kind → Bool
  | fraction x, fraction y => x == y
  | a, b => decide (a = b)

end Kind

/-- A binary tree of kinds. A missing operand is `absent`. -/
inductive Tree where
  | absent
  | node (kind : Kind) (span : Span) (left right : Tree)
  deriving DecidableEq

namespace Tree

/-- A node without operands. -/
def leaf (kind : Kind) (span : Span) : Tree := node kind span absent absent

/-- The number of nodes. -/
def size : Tree → Nat
  | absent => 0
  | node _ _ left right => left.size + right.size + 1

/-- Equality of shape and kinds. Where a node came from does not count. -/
def same : Tree → Tree → Bool
  | absent, absent => true
  | node k _ l r, node k' _ l' r' => k.same k' && l.same l' && r.same r'
  | _, _ => false

end Tree
end Fluxion
