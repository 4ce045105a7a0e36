import Fluxion.Proofs.Tree.Shape
import Fluxion.Simplification.Rewrite
/- Simplification of trees, wherever they are stored. The pass of a program that works in place goes by
   handles and slots; here the same pass is a function on trees (`Tree.simplify`). That both agree is
   proved of every arena that stores the tree (`Arena.Stores.simplifyAll`).

   A node is rewritten after its operands (`Tree.rewrite?`). Arithmetic on two integer literals is
   folded if 64 bits hold the exact result, and left as it is otherwise. On anything else the first
   law applies that fits (`Tree.law?`), in the order in which they stand. A product that was fused to a
   quotient is looked at once more (`Tree.rewriteNode`).

   Nothing here is taken from the rules that work in place. In particular folding goes by the integers:
   `BinaryOp.IsExact` says what the exact result of an operation is, and `BinaryOp.exactWord?` takes the
   word that a machine computes only if it is that result, which is then the only one. -/
namespace Fluxion

/-! ## Integer arithmetic -/

namespace BinaryOp

/-- `n` is the result of an operation between the integers `l` and `r`. A quotient has to come out
    even, and powers are not computed. -/
def IsExact (op : BinaryOp) (l r n : Int) : Prop :=
  match op with
  | add => n = l + r
  | sub => n = l - r
  | mul => n = l * r
  | div => r ≠ 0 ∧ n * r = l
  | pow => False

instance (op : BinaryOp) (l r n : Int) : Decidable (op.IsExact l r n) :=
  match op with
  | add => inferInstanceAs (Decidable (n = l + r))
  | sub => inferInstanceAs (Decidable (n = l - r))
  | mul => inferInstanceAs (Decidable (n = l * r))
  | div => inferInstanceAs (Decidable (r ≠ 0 ∧ n * r = l))
  | pow => inferInstanceAs (Decidable False)

/-- What a machine computes for an operation between words, modulo `2 ^ 64`. -/
def wrapped (op : BinaryOp) (l r : Int64) : Int64 :=
  match op with
  | add => l + r
  | sub => l - r
  | mul => l * r
  | div => l / r
  | pow => 0

/-- The word that is the exact result of an operation between words, if there is one. -/
def exactWord? (op : BinaryOp) (l r : Int64) : Option Int64 :=
  let n := op.wrapped l r
  if op.IsExact l.toInt r.toInt n.toInt then some n else none

/-- An exact result that is a word is what the machine computes. -/
theorem wrapped_eq_of_isExact {op : BinaryOp} {l r n : Int64}
    (exact : op.IsExact l.toInt r.toInt n.toInt) : op.wrapped l r = n := by
  apply Int64.toInt_inj.mp
  cases op with
  | add =>
    show (l + r).toInt = n.toInt
    rw [Int64.toInt_add, ← exact, Int64.toInt_bmod]
  | sub =>
    show (l - r).toInt = n.toInt
    rw [Int64.toInt_sub, ← exact, Int64.toInt_bmod]
  | mul =>
    show (l * r).toInt = n.toInt
    rw [Int64.toInt_mul, ← exact, Int64.toInt_bmod]
  | div =>
    obtain ⟨nonzero, even⟩ := exact
    show (l / r).toInt = n.toInt
    rw [Int64.toInt_div, ← even, Int.mul_tdiv_cancel _ nonzero, Int64.toInt_bmod]
  | pow => exact exact.elim

theorem exactWord?_eq_some_iff {op : BinaryOp} {l r n : Int64} :
    op.exactWord? l r = some n ↔ op.IsExact l.toInt r.toInt n.toInt := by
  rw [exactWord?]
  constructor
  · intro found
    split at found
    · next exact =>
      cases found
      exact exact
    · cases found
  · intro exact
    rw [wrapped_eq_of_isExact exact]
    exact if_pos exact

theorem exactWord?_eq_none_iff {op : BinaryOp} {l r : Int64} :
    op.exactWord? l r = none ↔ ∀ n : Int64, ¬op.IsExact l.toInt r.toInt n.toInt := by
  simp only [Option.eq_none_iff_forall_ne_some, ne_eq, exactWord?_eq_some_iff]

/-- The least word divided by -1 is the one quotient that comes out even and is no word. -/
example : div.wrapped Int64.minValue (-1) = Int64.minValue ∧ div.exactWord? Int64.minValue (-1) = none := by
  decide

end BinaryOp

namespace Tree

open Simplification

/-! ## Literals and reciprocals -/

/-- The value of an integer literal. -/
def integer? : Tree → Option Int64
  | node kind .. => kind.integer?
  | absent => none

def isZero (t : Tree) : Bool := t.integer? == some 0

def isOne (t : Tree) : Bool := t.integer? == some 1

/-- The denominator of `1 / a`. -/
def reciprocal? : Tree → Option Tree
  | node (.operator (.binary .div)) _ numerator (node kind span left right) =>
    if numerator.isOne then some (node kind span left right) else none
  | _ => none

/-! ## One node -/

/-- An integer literal in the place of a node. -/
def literal (value : Int64) (span : Span) : Tree := leaf (.integer value) span

/-- The first law that applies to an operator between operands, and what it makes of them. -/
def law? (op : BinaryOp) (span : Span) (left right : Tree) : Option (Step × Tree) :=
  match op with
  | .add =>
    if left.isZero then some (.addZero, right)
    else if right.isZero then some (.addZero, left)
    else none
  | .sub =>
    if left = .absent then
      if right.isZero then some (.negateZero, literal 0 span) else none
    else if left.isZero then
      some (.subtractFromZero, node (.operator (.binary .sub)) span .absent right)
    else if right.isZero then some (.subtractZero, left)
    else none
  | .mul =>
    if left.isZero || right.isZero then some (.multiplyZero, literal 0 span)
    else if left.isOne then some (.multiplyOne, right)
    else if right.isOne then some (.multiplyOne, left)
    else match left.reciprocal?, right.reciprocal? with
      | some denominator, _ =>
        some (.multiplyReciprocal, node (.operator (.binary .div)) span right denominator)
      | none, some denominator =>
        some (.multiplyReciprocal, node (.operator (.binary .div)) span left denominator)
      | none, none => none
  | .div =>
    if left.isZero then some (.divideZero, literal 0 span)
    else if right.isOne then some (.divideOne, left)
    else none
  | .pow =>
    if right.isZero then some (.powerZero, literal 1 span)
    else if right.isOne then some (.powerOne, left)
    else none

/-- What a node is rewritten to, and why. -/
def rewrite? : Tree → Option (Step × Tree)
  | node (.operator (.binary op)) span left right =>
    match op.isArithmetic, left.integer?, right.integer? with
    | true, some l, some r => (op.exactWord? l r).map fun n => (.foldConstants, literal n span)
    | _, _, _ => law? op span left right
  | _ => none

/-- Rewrites a node once, if anything applies. -/
def rewriteOnce (t : Tree) : List Step × Tree :=
  match t.rewrite? with
  | none => ([], t)
  | some (step, t) => ([step], t)

/-- Rewrites a node, and once more after a fusion. -/
def rewriteNode (t : Tree) : List Step × Tree :=
  match t.rewrite? with
  | none => ([], t)
  | some (step, t) =>
    if step = .multiplyReciprocal then
      let (steps, t) := t.rewriteOnce
      (step :: steps, t)
    else ([step], t)

/-! ## All nodes -/

/-- Simplifies a tree bottom-up and answers the laws that were applied. -/
def simplify : Tree → List Step × Tree
  | absent => ([], absent)
  | node kind span left right =>
    let (first, left) := left.simplify
    let (second, right) := right.simplify
    let (third, t) := (node kind span left right).rewriteNode
    (first ++ second ++ third, t)

end Tree
end Fluxion
