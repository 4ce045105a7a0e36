import Fluxion.Proofs.Arena.Edits
import Fluxion.Proofs.Simplification.NormalForm
import Fluxion.Simplification
/- Simplification in an arena is simplification of the stored tree. The rules see slots and links, the
   pass on trees (`Tree.simplify`) sees operands, and the two are compared at one node, then at the
   nodes of a tree in post-order.

   What the rules compute of two literals is the exact result (`Simplification.compute?_eq_exactWord?`),
   and what they see of a stored node and its operands is what the tree has (`Stores.integer?_eq`,
   `Stores.isReciprocal_eq`). So a rule finds at a node what the tree's own
   rewrite finds there (`Stores.agrees`), a rewritten node stores the rewritten tree
   (`Stores.simplifyNode`), and since the slots to visit are those of the layout in post-order, the
   whole pass stores the simplified tree (`Stores.simplifyAll`).

   Well-shaped trees are asked for, since a node with a missing operand is looked at differently by
   the rules and by the tree's rewrite. The operands of a node must be normal by the time it is
   visited: only then is a quotient that a product turned into the result of a fusion. -/
namespace Fluxion

/-! ## Folding -/

namespace Simplification

theorem tdiv_eq_iff {l r n : Int} (nonzero : r ≠ 0) :
    (l.tmod r = 0 ∧ l.tdiv r = n) ↔ n * r = l := by
  constructor
  · rintro ⟨even, rfl⟩
    exact Int.tdiv_mul_cancel_of_tmod_eq_zero even
  · rintro rfl
    exact ⟨Int.mul_tmod_left n r, Int.mul_tdiv_cancel n nonzero⟩

variable {op : BinaryOp} {l r n : Int64}

/-- Folding computes exactly the results that 64 bits can hold. -/
theorem compute?_eq_some_iff : compute? op l r = some n ↔ op.IsExact l.toInt r.toInt n.toInt := by
  cases op with
  | add => exact toWord?_eq_some_iff
  | sub => exact toWord?_eq_some_iff
  | mul => exact toWord?_eq_some_iff
  | div =>
    simp only [compute?, BinaryOp.IsExact]
    split
    · next even =>
      rw [toWord?_eq_some_iff]
      constructor
      · intro quotient
        exact ⟨even.1, (tdiv_eq_iff even.1).mp ⟨even.2, quotient.symm⟩⟩
      · intro product
        exact ((tdiv_eq_iff even.1).mpr product.2).2.symm
    · next uneven =>
      constructor
      · intro found
        cases found
      · intro product
        exact absurd ⟨product.1, ((tdiv_eq_iff product.1).mpr product.2).1⟩ uneven
  | pow => simp [compute?, BinaryOp.IsExact]

theorem compute?_eq_exactWord? : compute? op l r = op.exactWord? l r := by
  apply Option.ext
  intro n
  rw [compute?_eq_some_iff, BinaryOp.exactWord?_eq_some_iff]

end Simplification

theorem Layout.exists_of_reciprocal? {L : Layout} {t : Tree} (found : L.tree.reciprocal? = some t) :
    ∃ slot kind span one denominator, L = .node slot kind span one denominator ∧
      t = denominator.tree := by
  obtain ⟨place, one, same, -, -⟩ := Tree.reciprocal?_eq_some_iff.mp found
  cases L with
  | absent => cases same
  | node slot kind span left right =>
    cases same
    exact ⟨slot, _, _, left, right, rfl, rfl⟩

namespace Arena

open Simplification

variable {a : Arena} {parent : Option Handle} {h : Handle} {kind : Kind} {span : Span}
  {l r L : Layout}

/-! ## What rules see -/

theorem Stores.operator?_eq (stores : a.Stores parent (.node h kind span l r)) :
    a.operator? h = kind.operator? := by
  simp [operator?, kind?, stores.1]

theorem Stores.integer?_eq (stores : a.Stores parent L) {x : Handle} (root : L.root? = some x) :
    a.integer? x = L.tree.integer? := by
  rw [integer?, kind?, stores.node?_root root]
  cases L <;> rfl

theorem Stores.isZero_eq (stores : a.Stores parent L) {x : Handle} (root : L.root? = some x) :
    a.isZero x = L.tree.isZero := by
  rw [isZero, stores.integer?_eq root, Tree.isZero]

theorem Stores.isOne_eq (stores : a.Stores parent L) {x : Handle} (root : L.root? = some x) :
    a.isOne x = L.tree.isOne := by
  rw [isOne, stores.integer?_eq root, Tree.isOne]

theorem Stores.bind_integer?_eq (stores : a.Stores parent L) :
    L.root?.bind a.integer? = L.tree.integer? := by
  cases L with
  | absent => rfl
  | node slot kind span left right => exact stores.integer?_eq rfl

theorem Stores.isCalculable_eq (stores : a.Stores parent (.node h kind span l r)) :
    a.isCalculable h = (kind.operator?.any (·.isArithmetic) && l.tree.integer?.isSome &&
      r.tree.integer?.isSome) := by
  rw [isCalculable, isArithmetic, stores.operator?_eq, stores.left?_eq, stores.right?_eq,
    stores.2.1.bind_integer?_eq, stores.2.2.bind_integer?_eq]

theorem firstOf_nil (a : Arena) (h : Handle) : firstOf [] a h = none := rfl

theorem firstOf_cons (rule : Rule) (rules : List Rule) (a : Arena) (h : Handle) :
    firstOf (rule :: rules) a h = (rule a h).or (firstOf rules a h) := by
  simp only [firstOf, List.findSome?_cons]
  cases rule a h <;> rfl

/-- The rules for other operators do not see a node. -/
theorem laws_eq (a : Arena) (h : Handle) :
    laws a h = match a.operator? h with
      | some (.binary .add) => addZero a h
      | some (.binary .sub) => subtractZero a h
      | some (.binary .mul) => multiplication a h
      | some (.binary .div) => division a h
      | some (.binary .pow) => exponentiation a h
      | _ => none := by
  simp only [laws, addition, subtraction, multiplication, division, exponentiation, firstOf_cons,
    firstOf_nil, addZero, subtractZero, multiplyZero, multiplyOne, multiplyReciprocal, divideZero,
    divideOne, powerZero, powerOne, operands?]
  obtain _ | (op | f) := a.operator? h
  · rfl
  · cases op <;> simp
  · simp

theorem operands?_eq {op : BinaryOp} (operator : a.operator? h = some (.binary op)) {x y : Handle}
    (left : a.left? h = some x) (right : a.right? h = some y) : operands? op a h = some (x, y) := by
  simp [operands?, operator, left, right]

theorem Stores.isReciprocal_eq (stores : a.Stores parent L) {x : Handle} (root : L.root? = some x) :
    isReciprocal a x = L.tree.reciprocal?.isSome := by
  cases L with
  | absent => cases root
  | node slot kind span one denominator =>
    cases root
    simp only [isReciprocal, operands?, stores.operator?_eq, stores.left?_eq, stores.right?_eq]
    obtain _ | _ | _ | _ | ((_ | _ | _ | _ | _) | _) := kind <;>
      try rfl
    cases denominator with
    | absent => cases one <;> rfl
    | node y kind' place left right =>
      cases one with
      | absent => rfl
      | node z kind'' place' left' right' =>
        have isOne := stores.2.1.isOne_eq rfl
        cases onOne : (Layout.node z kind'' place' left' right').tree.isOne <;>
          simp_all [Layout.tree, Tree.reciprocal?, Kind.operator?]

/-! ## What rules do -/

/-- A rewrite of a node agrees with one of the tree if carrying it out stores the rewritten
    tree. -/
inductive Agrees (a : Arena) (h : Handle) (parent : Option Handle) (L : Layout) :
    Option Rewrite → Option (Step × Tree) → Prop where
  | none : Agrees a h parent L none none
  | some {step : Step} {edit : Edit} {M : Layout} {t : Tree} (tree : M.tree = t)
      (reduces : Reduces a (a.applyEdit h edit) parent L M) :
      Agrees a h parent L (some ⟨step, edit⟩) (some (step, t))

theorem Agrees.ite {p : Prop} [Decidable p] {x y : Option Rewrite} {t u : Option (Step × Tree)}
    (yes : p → Agrees a h parent L x t) (no : ¬p → Agrees a h parent L y u) :
    Agrees a h parent L (if p then x else y) (if p then t else u) := by
  by_cases holds : p
  · simpa only [if_pos holds] using yes holds
  · simpa only [if_neg holds] using no holds

section Rules
variable (stores : a.Stores parent (.node h kind span l r))
  (nodup : (Layout.node h kind span l r).slots.Nodup)
include stores nodup

theorem Stores.agrees_literal (step : Step) (n : Int64) :
    Agrees a h parent (.node h kind span l r) (some ⟨step, .literal n⟩)
      (some (step, Tree.literal n span)) :=
  .some rfl (stores.makeLeaf nodup (.integer n))

theorem Stores.agrees_keepLeft (step : Step) {x : Handle} (root : l.root? = some x) :
    Agrees a h parent (.node h kind span l r) (some ⟨step, .keep x⟩) (some (step, l.tree)) := by
  cases l with
  | absent => cases root
  | node slot inner place left right =>
    cases root
    exact .some (M := .node h inner place left right) rfl (stores.hoist nodup (.inl ⟨rfl, rfl⟩))

theorem Stores.agrees_keepRight (step : Step) {x : Handle} (root : r.root? = some x) :
    Agrees a h parent (.node h kind span l r) (some ⟨step, .keep x⟩) (some (step, r.tree)) := by
  cases r with
  | absent => cases root
  | node slot inner place left right =>
    cases root
    exact .some (M := .node h inner place left right) rfl (stores.hoist nodup (.inr ⟨rfl, rfl⟩))

theorem Stores.agrees_divideByLeft {t : Tree} (found : l.tree.reciprocal? = some t) {x y : Handle}
    (left : l.root? = some x) (right : r.root? = some y) (step : Step) :
    Agrees a h parent (.node h kind span l r) (some ⟨step, .divide y x⟩)
      (some (step, .node (.operator (.binary .div)) span r.tree t)) := by
  obtain ⟨slot, inner, place, one, denominator, rfl, rfl⟩ := Layout.exists_of_reciprocal? found
  cases left
  exact .some (M := .node h _ span r denominator) rfl (stores.fuse nodup (.inl ⟨rfl, rfl⟩) right)

theorem Stores.agrees_divideByRight {t : Tree} (found : r.tree.reciprocal? = some t) {x y : Handle}
    (left : l.root? = some x) (right : r.root? = some y) (step : Step) :
    Agrees a h parent (.node h kind span l r) (some ⟨step, .divide x y⟩)
      (some (step, .node (.operator (.binary .div)) span l.tree t)) := by
  obtain ⟨slot, inner, place, one, denominator, rfl, rfl⟩ := Layout.exists_of_reciprocal? found
  cases right
  exact .some (M := .node h _ span l denominator) rfl (stores.fuse nodup (.inr ⟨rfl, rfl⟩) left)

end Rules

/-- Of the rules for products the one for reciprocals comes last. -/
theorem Stores.agrees_multiplication {x y : Handle}
    (stores : a.Stores parent (.node h (.operator (.binary .mul)) span l r))
    (nodup : (Layout.node h (.operator (.binary .mul)) span l r).slots.Nodup)
    (left : l.root? = some x) (right : r.root? = some y) :
    Agrees a h parent (.node h (.operator (.binary .mul)) span l r) (multiplication a h)
      (Tree.law? .mul span l.tree r.tree) := by
  have both := operands?_eq stores.operator?_eq (stores.left?_eq.trans left)
    (stores.right?_eq.trans right)
  simp only [multiplication, firstOf_cons, firstOf_nil, multiplyZero, multiplyOne,
    multiplyReciprocal, both, Option.bind_eq_bind, Option.bind_some, Tree.law?,
    stores.2.1.isZero_eq left, stores.2.2.isZero_eq right,
    stores.2.1.isOne_eq left, stores.2.2.isOne_eq right, stores.2.1.isReciprocal_eq left,
    stores.2.2.isReciprocal_eq right]
  by_cases zero : (l.tree.isZero || r.tree.isZero) = true
  · simpa only [if_pos zero, Option.some_or] using stores.agrees_literal nodup _ 0
  · simp only [if_neg zero, Option.none_or]
    by_cases oneLeft : l.tree.isOne = true
    · simpa only [if_pos oneLeft, Option.some_or] using stores.agrees_keepRight nodup _ right
    · by_cases oneRight : r.tree.isOne = true
      · simpa only [if_neg oneLeft, if_pos oneRight, Option.some_or] using
          stores.agrees_keepLeft nodup _ left
      · simp only [if_neg oneLeft, if_neg oneRight, Option.none_or]
        cases onLeft : l.tree.reciprocal? with
        | some t => exact stores.agrees_divideByLeft nodup onLeft left right _
        | none =>
          cases onRight : r.tree.reciprocal? with
          | some t => exact stores.agrees_divideByRight nodup onRight left right _
          | none => exact .none

section Laws
variable {op : BinaryOp} {x y : Handle}
  (stores : a.Stores parent (.node h (.operator (.binary op)) span l r))
  (nodup : (Layout.node h (.operator (.binary op)) span l r).slots.Nodup)
  (left : l.root? = some x) (right : r.root? = some y)
include stores nodup left right

/-- The rules for an operator between two operands find what the laws make of the tree. -/
theorem Stores.agrees_laws : Agrees a h parent (.node h (.operator (.binary op)) span l r)
    (laws a h) (Tree.law? op span l.tree r.tree) := by
  have operator := stores.operator?_eq
  have both := operands?_eq operator (stores.left?_eq.trans left) (stores.right?_eq.trans right)
  rw [laws_eq, operator]
  cases op with
  | add =>
    simp only [Kind.operator?, addZero, both, Option.bind_eq_bind, Option.bind_some, Tree.law?,
      stores.2.1.isZero_eq left, stores.2.2.isZero_eq right]
    exact .ite (fun _ => stores.agrees_keepRight nodup _ right)
      fun _ => .ite (fun _ => stores.agrees_keepLeft nodup _ left) fun _ => .none
  | sub =>
    have there : l.tree ≠ .absent := by
      cases l with
      | absent => cases left
      | node => exact Tree.noConfusion
    simp only [Kind.operator?, subtractZero, if_pos, stores.left?_eq, stores.right?_eq, operator,
      left, right, Option.bind_eq_bind, Option.bind_some, Tree.law?, if_neg there,
      stores.2.1.isZero_eq left, stores.2.2.isZero_eq right]
    refine .ite (fun _ => ?_) fun _ => .ite (fun _ => stores.agrees_keepLeft nodup _ left)
      fun _ => .none
    exact .some (M := .node h _ span .absent r) rfl (stores.removeLeft nodup)
  | mul => exact stores.agrees_multiplication nodup left right
  | div =>
    simp only [Kind.operator?, division, firstOf_cons, firstOf_nil, divideZero, divideOne, both,
      Option.bind_eq_bind, Option.bind_some, Tree.law?, stores.2.1.isZero_eq left,
      stores.2.2.isOne_eq right]
    by_cases zero : l.tree.isZero = true
    · simpa only [if_pos zero, Option.some_or] using stores.agrees_literal nodup _ 0
    · simp only [if_neg zero, Option.none_or, Option.or_none]
      exact .ite (fun _ => stores.agrees_keepLeft nodup _ left) fun _ => .none
  | pow =>
    simp only [Kind.operator?, exponentiation, firstOf_cons, firstOf_nil, powerZero, powerOne, both,
      Option.bind_eq_bind, Option.bind_some, Tree.law?, stores.2.2.isZero_eq right,
      stores.2.2.isOne_eq right]
    by_cases zero : r.tree.isZero = true
    · simpa only [if_pos zero, Option.some_or] using stores.agrees_literal nodup _ 1
    · simp only [if_neg zero, Option.none_or, Option.or_none]
      exact .ite (fun _ => stores.agrees_keepLeft nodup _ left) fun _ => .none

end Laws

/-- The rules for differences find what the laws make of a change of sign. -/
theorem Stores.agrees_negation {y : Handle}
    (stores : a.Stores parent (.node h (.operator (.binary .sub)) span .absent r))
    (nodup : (Layout.node h (.operator (.binary .sub)) span .absent r).slots.Nodup)
    (right : r.root? = some y) :
    Agrees a h parent (.node h (.operator (.binary .sub)) span .absent r) (laws a h)
      (Tree.law? .sub span .absent r.tree) := by
  have operator := stores.operator?_eq
  rw [laws_eq, operator]
  simp only [Kind.operator?, subtractZero, if_pos, stores.left?_eq, stores.right?_eq, operator,
    right, Layout.root?_absent, Option.bind_eq_bind, Option.bind_some, Tree.law?,
    stores.2.2.isZero_eq right]
  exact .ite (fun _ => stores.agrees_literal nodup _ 0) fun _ => .none

/-- Whatever applies to a node of a well-shaped tree, the rules find it. -/
theorem Stores.agrees (stores : a.Stores parent (.node h kind span l r))
    (nodup : (Layout.node h kind span l r).slots.Nodup)
    (shaped : (Layout.node h kind span l r).tree.WellShaped) :
    Agrees a h parent (.node h kind span l r) (rewrite? a h)
      (Layout.node h kind span l r).tree.rewrite? := by
  have operator := stores.operator?_eq
  rw [rewrite?, stores.isCalculable_eq]
  obtain n | x | _ | index | (op | f) := kind
  case operator.binary =>
    -- The laws are tried unless arithmetic on two literals comes first.
    obtain ⟨onRight, onLeft⟩ := shaped.operands_of_binary
    obtain ⟨y, right⟩ := Layout.root?_of_shaped onRight
    have onLaws : Agrees a h parent (.node h (.operator (.binary op)) span l r) (laws a h)
        (Tree.law? op span l.tree r.tree) := by
      obtain onLeft | ⟨rfl, missing⟩ := onLeft
      · obtain ⟨x, left⟩ := Layout.root?_of_shaped onLeft
        exact stores.agrees_laws nodup left right
      · cases l with
        | absent => exact stores.agrees_negation nodup right
        | node => cases missing
    cases arithmetic : op.isArithmetic <;> cases left : l.tree.integer? <;>
      cases right : r.tree.integer? <;>
        simp only [Layout.tree, Tree.rewrite?, Kind.operator?, Option.any_some,
          Operator.isArithmetic, arithmetic, left, right, Bool.true_and, Bool.false_and,
          Bool.and_false, Bool.false_eq_true, if_false, Option.isSome_some, Option.isSome_none]
    case true.some.some m n =>
      simp only [if_pos, foldConstants, operator, Kind.operator?, stores.left?_eq, stores.right?_eq,
        stores.2.1.bind_integer?_eq, stores.2.2.bind_integer?_eq, left, right, Option.bind_eq_bind,
        Option.bind_some, compute?_eq_exactWord?]
      cases op.exactWord? m n with
      | none => exact .none
      | some value => exact stores.agrees_literal nodup _ value
    all_goals exact onLaws
  all_goals
    simp only [Kind.operator?, Option.any_none, Option.any_some, Operator.isArithmetic,
      Bool.false_and, Bool.false_eq_true, if_false, laws_eq, operator]
    exact .none

/-! ## One node -/

theorem Stores.rewriteBy (stores : a.Stores parent (.node h kind span l r))
    (nodup : (Layout.node h kind span l r).slots.Nodup)
    (shaped : (Tree.node kind span l.tree r.tree).WellShaped) :
    ∃ M, Reduces a (a.rewriteBy rewrite? h).2 parent (.node h kind span l r) M ∧
      (a.rewriteBy rewrite? h).1 = (Tree.node kind span l.tree r.tree).rewriteOnce.1 ∧
      M.tree = (Tree.node kind span l.tree r.tree).rewriteOnce.2 := by
  have agrees := stores.agrees nodup shaped
  rw [Arena.rewriteBy, Tree.rewriteOnce]
  rw [Layout.tree] at agrees
  generalize rewrite? a h = found, (Tree.node kind span l.tree r.tree).rewrite? = result at agrees
  cases agrees with
  | none => exact ⟨_, .refl stores, rfl, rfl⟩
  | some tree reduces => exact ⟨_, reduces, rfl, tree⟩

/-- Simplifying a node with normal operands is rewriting its tree. -/
theorem Stores.simplifyNode (stores : a.Stores parent (.node h kind span l r))
    (nodup : (Layout.node h kind span l r).slots.Nodup)
    (shaped : (Tree.node kind span l.tree r.tree).WellShaped) (normalLeft : l.tree.IsNormal)
    (normalRight : r.tree.IsNormal) :
    ∃ M, Reduces a (a.simplifyNode h).2 parent (.node h kind span l r) M ∧
      (a.simplifyNode h).1 = (Tree.node kind span l.tree r.tree).rewriteNode.1 ∧
      M.tree = (Tree.node kind span l.tree r.tree).rewriteNode.2 := by
  obtain ⟨M, first, steps, tree⟩ := stores.rewriteBy nodup shaped
  have shapedOnce := shaped.rewriteOnce
  have here : M.root? = some h := first.top
  cases M with
  | absent => cases here
  | node slot kind' span' l' r' =>
    cases here
    rw [Layout.tree] at tree
    rw [← tree] at shapedOnce
    obtain ⟨N, second, stepsAgain, treeAgain⟩ :=
      first.stores.rewriteBy (first.nodup nodup) shapedOnce
    rw [tree] at stepsAgain treeAgain
    -- The arena sees a fusion by the operator of the node before and after.
    have quotient : a.becameQuotient (a.rewriteBy rewrite? h).2 h = true ↔
        kind.operator? = some (.binary .mul) ∧
          (Tree.node kind span l.tree r.tree).rewriteOnce.2.operator? = some (.binary .div) := by
      rw [becameQuotient, stores.operator?_eq, first.stores.operator?_eq, Bool.and_eq_true,
        beq_iff_eq, beq_iff_eq, ← tree]
      rfl
    rw [Tree.rewriteNode_eq normalLeft normalRight, Arena.simplifyNode]
    by_cases became : a.becameQuotient (a.rewriteBy rewrite? h).2 h = true
    · simp only [if_pos became]
      rw [if_pos (quotient.mp became)]
      exact ⟨N, first.trans second nodup, by rw [steps, stepsAgain], treeAgain⟩
    · simp only [if_neg became]
      rw [if_neg fun both => became (quotient.mpr both)]
      exact ⟨_, first, steps, tree⟩

/-! ## All nodes -/

theorem simplifyAll_append (a : Arena) (xs ys : List Handle) :
    a.simplifyAll (xs ++ ys) =
      ((a.simplifyAll xs).1 ++ ((a.simplifyAll xs).2.simplifyAll ys).1,
        ((a.simplifyAll xs).2.simplifyAll ys).2) := by
  induction xs generalizing a with
  | nil => rfl
  | cons x xs ih => simp only [List.cons_append, Arena.simplifyAll, ih, List.append_assoc]

theorem simplifyAll_singleton (a : Arena) (x : Handle) : a.simplifyAll [x] = a.simplifyNode x := by
  simp only [simplifyAll, List.append_nil]

/-- Simplifying the slots of a layout in post-order simplifies its tree. -/
theorem Stores.simplifyAll (stores : a.Stores parent L) (nodup : L.slots.Nodup)
    (shaped : L.tree = .absent ∨ L.tree.WellShaped) :
    ∃ M, Reduces a (a.simplifyAll L.slots).2 parent L M ∧
      (a.simplifyAll L.slots).1 = L.tree.simplify.1 ∧ M.tree = L.tree.simplify.2 := by
  induction L generalizing a parent with
  | absent => exact ⟨.absent, .refl stores, rfl, rfl⟩
  | node slot kind span left right ihLeft ihRight =>
    obtain ⟨nodupLeft, nodupRight, apart, -, -⟩ := Layout.apart_of_nodup nodup
    have shaped := shaped.resolve_left Tree.noConfusion
    obtain ⟨shapedLeft, shapedRight⟩ := shaped.operands
    obtain ⟨left', onLeft, stepsLeft, treeLeft⟩ := ihLeft stores.2.1 nodupLeft shapedLeft
    obtain ⟨right', onRight, stepsRight, treeRight⟩ := ihRight
      (onLeft.framed stores.2.2 fun x inRight inLeft => apart x inLeft inRight) nodupRight shapedRight
    -- Both operands are simplified now, and the node is the last slot to visit.
    have operands := Reduces.operands stores nodup onLeft onRight
    obtain ⟨M, last, stepsLast, treeLast⟩ := operands.stores.simplifyNode (operands.nodup nodup)
      (by rw [treeLeft, treeRight]; exact shaped.simplifyOperands)
      (by rw [treeLeft]; exact Tree.isNormal_simplify _)
      (by rw [treeRight]; exact Tree.isNormal_simplify _)
    rw [treeLeft, treeRight] at stepsLast treeLast
    rw [Layout.slots_node, simplifyAll_append, simplifyAll_append, simplifyAll_singleton]
    refine ⟨M, operands.trans last nodup, ?_, treeLast⟩
    rw [stepsLeft, stepsRight, stepsLast]
    rfl

/-- An arena that holds a tree holds the simplified tree after simplification. -/
theorem Holds.simplify (holds : a.Holds L) (shaped : L.tree.WellShaped) :
    ∃ M, a.simplify.2.Holds M ∧ a.simplify.1 = L.tree.simplify.1 ∧
      M.tree = L.tree.simplify.2 := by
  obtain ⟨M, reduces, result⟩ := holds.stores.simplifyAll holds.nodup_slots (.inr shaped)
  rw [Arena.simplify, holds.postOrder_eq]
  exact ⟨M, reduces.holds holds, result⟩

theorem WellFormed.simplify (formed : a.WellFormed) : a.simplify.2.WellFormed := by
  obtain ⟨L, holds, shaped⟩ := formed
  obtain ⟨M, after, -, tree⟩ := holds.simplify shaped
  refine ⟨M, after, ?_⟩
  rw [tree]
  exact shaped.simplify

theorem WellFormed.simplify_eq (formed : a.WellFormed) :
    a.simplify.1 = a.tree.simplify.1 ∧ a.simplify.2.tree = a.tree.simplify.2 := by
  obtain ⟨L, holds, shaped⟩ := formed
  obtain ⟨M, after, steps, tree⟩ := holds.simplify shaped
  rw [after.tree_eq, holds.tree_eq]
  exact ⟨steps, tree⟩

end Arena
end Fluxion
