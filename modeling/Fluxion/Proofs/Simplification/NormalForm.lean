import Fluxion.Proofs.Simplification.Laws
/- Trees in which nothing is left to simplify. `IsNormal` says so of every operator and its
   operands, without the pass: arithmetic on two integer literals has no exact result that 64 bits
   can hold, and on other operands there are no zeros, ones and reciprocals that a law would be
   about. An operator is settled in this sense exactly if it is not rewritten
   (`rewrite?_eq_none_iff`).

   Every tree is normal after the pass (`isNormal_simplify`). A rewrite of an operator between
   normal operands makes a normal tree, but for a fusion, which makes a quotient of normal trees
   (`isNormal_of_rewrites`); that is looked at once more, and a quotient is never fused. Hence it is
   the same to look again at every product that became a quotient, as is done in place, and at
   fusions only (`rewriteNode_eq`). The last part is about shapes, which the pass keeps. -/
namespace Fluxion
namespace Tree

open Simplification

/-- The operands are no zeros, ones or reciprocals that a law for the operator is about. -/
def IsLawless (op : BinaryOp) (left right : Tree) : Prop :=
  match op with
  | .add | .sub => left.integer? ≠ some 0 ∧ right.integer? ≠ some 0
  | .mul =>
    left.integer? ≠ some 0 ∧ right.integer? ≠ some 0 ∧ left.integer? ≠ some 1 ∧
      right.integer? ≠ some 1 ∧ (∀ d, ¬left.IsReciprocal d) ∧ ∀ d, ¬right.IsReciprocal d
  | .div => left.integer? ≠ some 0 ∧ right.integer? ≠ some 1
  | .pow => right.integer? ≠ some 0 ∧ right.integer? ≠ some 1

/-- Nothing can be done to an operator between its operands: arithmetic on two integer
    literals has no exact result in 64 bits, and on other operands no law applies. -/
def IsSettled (op : BinaryOp) (left right : Tree) : Prop :=
  match op.isArithmetic, left.integer?, right.integer? with
  | true, some l, some r => ∀ n : Int64, ¬op.IsExact l.toInt r.toInt n.toInt
  | _, _, _ => IsLawless op left right

/-- Nothing can be done to any operator of the tree. -/
def IsNormal : Tree → Prop
  | absent => True
  | node kind _ left right =>
    left.IsNormal ∧ right.IsNormal ∧ ∀ op, kind = .operator (.binary op) → IsSettled op left right

theorem isNormal_literal (n : Int64) (span : Span) : (literal n span).IsNormal :=
  ⟨trivial, trivial, fun _ same => nomatch same⟩

theorem isZero_eq_false_iff {t : Tree} : t.isZero = false ↔ t.integer? ≠ some 0 := by
  rw [← Bool.not_eq_true, isZero_iff]

theorem isOne_eq_false_iff {t : Tree} : t.isOne = false ↔ t.integer? ≠ some 1 := by
  rw [← Bool.not_eq_true, isOne_iff]

theorem reciprocal?_eq_none_iff {t : Tree} : t.reciprocal? = none ↔ ∀ d, ¬t.IsReciprocal d := by
  simp only [Option.eq_none_iff_forall_ne_some, ne_eq, reciprocal?_eq_some_iff]

theorem law?_eq_none_iff {op : BinaryOp} {span : Span} {l r : Tree} :
    law? op span l r = none ↔ IsLawless op l r := by
  simp only [IsLawless, ← isZero_eq_false_iff, ← isOne_eq_false_iff, ← reciprocal?_eq_none_iff]
  cases op with
  | add => cases zero : l.isZero <;> simp [law?, zero]
  | sub =>
    by_cases missing : l = absent
    · subst missing
      simp [law?, isZero, integer?]
    · cases zero : l.isZero <;> simp [law?, zero, missing]
  | mul =>
    cases zeroLeft : l.isZero <;> cases zeroRight : r.isZero <;> cases oneLeft : l.isOne <;>
      cases oneRight : r.isOne <;> cases left : l.reciprocal? <;>
        cases right : r.reciprocal? <;>
          simp [law?, zeroLeft, zeroRight, oneLeft, oneRight, left, right]
  | div => cases zero : l.isZero <;> simp [law?, zero]
  | pow => cases zero : r.isZero <;> simp [law?, zero]

/-- An operator is settled exactly if it is not rewritten. -/
theorem rewrite?_eq_none_iff {op : BinaryOp} {span : Span} {l r : Tree} :
    (node (.operator (.binary op)) span l r).rewrite? = none ↔ IsSettled op l r := by
  cases arithmetic : op.isArithmetic <;> cases left : l.integer? <;>
    cases right : r.integer? <;>
      simp [rewrite?, IsSettled, arithmetic, left, right, law?_eq_none_iff,
        BinaryOp.exactWord?_eq_none_iff]

theorem rewrite?_eq_none {t : Tree} (normal : t.IsNormal) : t.rewrite? = none := by
  cases rewritten : t.rewrite? with
  | none => rfl
  | some result =>
    obtain ⟨op, span, l, r, rfl, -⟩ := exists_op_of_rewrite? rewritten
    rw [rewrite?_eq_none_iff.mpr (normal.2.2 op rfl)] at rewritten
    cases rewritten

theorem isNormal_of_rewrite?_eq_none {kind : Kind} {span : Span} {l r : Tree} (left : l.IsNormal)
    (right : r.IsNormal) (none : (node kind span l r).rewrite? = none) :
    (node kind span l r).IsNormal := by
  refine ⟨left, right, ?_⟩
  rintro op rfl
  exact rewrite?_eq_none_iff.mp none

/-! ## One pass -/

theorem IsNormal.of_isReciprocal {t d : Tree} (normal : t.IsNormal) (reciprocal : t.IsReciprocal d) :
    d.IsNormal := by
  obtain ⟨span, one, rfl, -, -⟩ := reciprocal
  exact normal.2.1

/-- A rewrite of an operator between normal operands makes a normal tree, but for a fusion,
    which makes a quotient of normal trees. -/
theorem isNormal_of_rewrites {op : BinaryOp} {span : Span} {l r t : Tree} {step : Step}
    (left : l.IsNormal) (right : r.IsNormal) (rewrites : Rewrites span op l r step t) :
    t.IsNormal ∨ (step = .multiplyReciprocal ∧ ∃ n d, n.IsNormal ∧ d.IsNormal ∧
      t = node (.operator (.binary .div)) span n d) := by
  cases rewrites with
  | fold => exact .inl (isNormal_literal _ _)
  | law other law =>
    cases law with
    | zeroAdd | oneMul => exact .inl right
    | addZero | subZero | mulOne | divOne | powOne => exact .inl left
    | negateZero | zeroMul | mulZero | zeroDiv | powZero => exact .inl (isNormal_literal _ _)
    | zeroSub zero =>
      -- Had both operands been zero, they would have been folded.
      refine .inl ⟨trivial, right, fun op same => ?_⟩
      cases same
      refine ⟨nofun, fun zeroRight => other ⟨rfl, ?_, ?_⟩⟩
      · simp [zero]
      · simp [zeroRight]
    | reciprocalMul reciprocal =>
      exact .inr ⟨rfl, r, _, right, left.of_isReciprocal reciprocal, rfl⟩
    | mulReciprocal reciprocal =>
      exact .inr ⟨rfl, l, _, left, right.of_isReciprocal reciprocal, rfl⟩

theorem isNormal_rewriteOnce_div {span : Span} {l r : Tree} (left : l.IsNormal)
    (right : r.IsNormal) :
    (node (.operator (.binary .div)) span l r).rewriteOnce.2.IsNormal := by
  unfold rewriteOnce
  split
  · next none => exact isNormal_of_rewrite?_eq_none left right none
  · next step t rewritten =>
    have rewrites := rewrites_of_rewrite? rewritten
    obtain normal | ⟨rfl, -⟩ := isNormal_of_rewrites left right rewrites
    · exact normal
    · -- Only products are fused.
      cases rewrites with
      | law other law => cases law

theorem isNormal_rewriteNode {kind : Kind} {span : Span} {l r : Tree} (left : l.IsNormal)
    (right : r.IsNormal) : (node kind span l r).rewriteNode.2.IsNormal := by
  unfold rewriteNode
  split
  · next none => exact isNormal_of_rewrite?_eq_none left right none
  · next step t rewritten =>
    obtain ⟨op, place, l', r', same, rewrites⟩ := exists_op_of_rewrite? rewritten
    cases same
    obtain normal | ⟨rfl, numerator, denominator, onNumerator, onDenominator, rfl⟩ :=
      isNormal_of_rewrites left right rewrites
    · split
      · next fusion =>
        simpa only [rewriteOnce, rewrite?_eq_none normal] using normal
      · exact normal
    · exact isNormal_rewriteOnce_div onNumerator onDenominator

/-- The operator of the topmost node. -/
def operator? : Tree → Option Operator
  | absent => none
  | node kind .. => kind.operator?

/-- Looking once more at every product that became a quotient is the same as looking once
    more after fusions: any other quotient has been an operand and is normal. -/
theorem rewriteNode_eq {kind : Kind} {span : Span} {l r : Tree} (left : l.IsNormal)
    (right : r.IsNormal) :
    (node kind span l r).rewriteNode =
      if kind.operator? = some (.binary .mul) ∧
          (node kind span l r).rewriteOnce.2.operator? = some (.binary .div) then
        ((node kind span l r).rewriteOnce.1 ++ (node kind span l r).rewriteOnce.2.rewriteOnce.1,
          (node kind span l r).rewriteOnce.2.rewriteOnce.2)
      else (node kind span l r).rewriteOnce := by
  cases rewritten : (node kind span l r).rewrite? with
  | none =>
    have same : ¬(kind.operator? = some (.binary .mul) ∧ kind.operator? = some (.binary .div)) := by
      rintro ⟨product, quotient⟩
      rw [product] at quotient
      cases quotient
    simp only [rewriteNode, rewriteOnce, rewritten, operator?, if_neg same]
  | some result =>
    obtain ⟨step, t⟩ := result
    obtain ⟨op, place, l', r', same, rewrites⟩ := exists_op_of_rewrite? rewritten
    cases same
    have once : (node (.operator (.binary op)) span l r).rewriteOnce = ([step], t) := by
      rw [rewriteOnce, rewritten]
    simp only [rewriteNode, rewritten, once]
    obtain normal | ⟨rfl, numerator, denominator, -, -, rfl⟩ :=
      isNormal_of_rewrites left right rewrites
    · -- To look at a normal tree once more does no harm.
      have idle : t.rewriteOnce = ([], t) := by
        rw [rewriteOnce, rewrite?_eq_none normal]
      simp only [idle, List.append_nil, ite_self]
    · cases rewrites with
      | law _ law =>
        cases law <;> rfl

/-- One pass reaches a normal form. -/
theorem isNormal_simplify (t : Tree) : t.simplify.2.IsNormal := by
  induction t with
  | absent => trivial
  | node kind span left right ihLeft ihRight => exact isNormal_rewriteNode ihLeft ihRight

/-! ## Shapes -/

theorem WellShaped.rewriteOnce {t : Tree} (shaped : t.WellShaped) : t.rewriteOnce.2.WellShaped := by
  unfold Tree.rewriteOnce
  split
  · exact shaped
  · next rewritten => exact shaped.rewrite? rewritten

theorem WellShaped.rewriteNode {t : Tree} (shaped : t.WellShaped) : t.rewriteNode.2.WellShaped := by
  unfold Tree.rewriteNode
  split
  · exact shaped
  · next step t' rewritten =>
    split
    · exact (shaped.rewrite? rewritten).rewriteOnce
    · exact shaped.rewrite? rewritten

theorem WellShaped.simplify {t : Tree} (shaped : t.WellShaped) : t.simplify.2.WellShaped := by
  induction shaped with
  | leaf noOperator => exact (WellShaped.leaf noOperator).rewriteNode
  | negation _ ih => exact (WellShaped.negation ih).rewriteNode
  | binary _ _ ihLeft ihRight => exact (WellShaped.binary ihLeft ihRight).rewriteNode
  | call _ ih => exact (WellShaped.call ih).rewriteNode

theorem WellShaped.simplifyOperands {kind : Kind} {span : Span} {l r : Tree}
    (shaped : (node kind span l r).WellShaped) :
    (node kind span l.simplify.2 r.simplify.2).WellShaped := by
  cases shaped with
  | leaf noOperator => exact .leaf noOperator
  | negation onOperand => exact .negation onOperand.simplify
  | binary onLeft onRight => exact .binary onLeft.simplify onRight.simplify
  | call onArgument => exact .call onArgument.simplify

end Tree
end Fluxion
