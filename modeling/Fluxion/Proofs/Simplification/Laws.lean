import Fluxion.Proofs.Simplification.Pass
/- What one rewrite of a node can do. `Tree.Law` lists the laws, each with what it asks of the operands
   and what it makes of the node, and `Tree.Rewrites` adds arithmetic on two literals, where the new
   literal is the exact result. Every rewrite is by one of them (`Tree.law_of_law?`,
   `Tree.rewrites_of_rewrite?`, `Tree.exists_op_of_rewrite?`), so that later proofs split on a rewrite
   and do not look at the tests that led to it: what it does to the value, to the kinds of the nodes,
   to the shape and to what is normal.

   The converse is not said here. Which law comes first where several apply is a matter of
   `Tree.law?`, and that something applies at all is `Tree.rewrite?_eq_none_iff`.

   The last part has the first of the uses: a rewrite keeps the shape of a tree
   (`Tree.WellShaped.rewrite?`). -/
namespace Fluxion

open Simplification

namespace Tree

theorem isZero_iff {t : Tree} : t.isZero = true ↔ t.integer? = some 0 := beq_iff_eq

theorem isOne_iff {t : Tree} : t.isOne = true ↔ t.integer? = some 1 := beq_iff_eq

theorem ne_absent_of_integer? {t : Tree} {n : Int64} (integer : t.integer? = some n) :
    t ≠ absent := by
  rintro rfl
  cases integer

/-- `1 / a`, where `a` is the denominator. -/
def IsReciprocal (t denominator : Tree) : Prop :=
  ∃ span numerator, t = node (.operator (.binary .div)) span numerator denominator ∧
    numerator.integer? = some 1 ∧ denominator ≠ absent

theorem reciprocal?_eq_some_iff {t denominator : Tree} :
    t.reciprocal? = some denominator ↔ t.IsReciprocal denominator := by
  constructor
  · intro found
    unfold reciprocal? at found
    split at found
    · split at found
      · next one =>
        cases found
        exact ⟨_, _, rfl, isOne_iff.mp one, Tree.noConfusion⟩
      · cases found
    · cases found
  · rintro ⟨span, numerator, rfl, one, there⟩
    cases denominator with
    | absent => exact absurd rfl there
    | node kind place left right => simp [reciprocal?, isOne_iff.mpr one]

/-! ## Laws -/

/-- A law for an operator between operands, and what it makes of the node. -/
inductive Law (span : Span) : BinaryOp → Tree → Tree → Step → Tree → Prop where
  | zeroAdd {l r : Tree} (zero : l.integer? = some 0) : Law span .add l r .addZero r
  | addZero {l r : Tree} (zero : r.integer? = some 0) : Law span .add l r .addZero l
  | negateZero {r : Tree} (zero : r.integer? = some 0) :
      Law span .sub absent r .negateZero (literal 0 span)
  | zeroSub {l r : Tree} (zero : l.integer? = some 0) :
      Law span .sub l r .subtractFromZero (node (.operator (.binary .sub)) span absent r)
  | subZero {l r : Tree} (there : l ≠ absent) (zero : r.integer? = some 0) :
      Law span .sub l r .subtractZero l
  | zeroMul {l r : Tree} (zero : l.integer? = some 0) :
      Law span .mul l r .multiplyZero (literal 0 span)
  | mulZero {l r : Tree} (zero : r.integer? = some 0) :
      Law span .mul l r .multiplyZero (literal 0 span)
  | oneMul {l r : Tree} (one : l.integer? = some 1) : Law span .mul l r .multiplyOne r
  | mulOne {l r : Tree} (one : r.integer? = some 1) : Law span .mul l r .multiplyOne l
  | reciprocalMul {l r d : Tree} (reciprocal : l.IsReciprocal d) :
      Law span .mul l r .multiplyReciprocal (node (.operator (.binary .div)) span r d)
  | mulReciprocal {l r d : Tree} (reciprocal : r.IsReciprocal d) :
      Law span .mul l r .multiplyReciprocal (node (.operator (.binary .div)) span l d)
  | zeroDiv {l r : Tree} (zero : l.integer? = some 0) :
      Law span .div l r .divideZero (literal 0 span)
  | divOne {l r : Tree} (one : r.integer? = some 1) : Law span .div l r .divideOne l
  | powZero {l r : Tree} (zero : r.integer? = some 0) :
      Law span .pow l r .powerZero (literal 1 span)
  | powOne {l r : Tree} (one : r.integer? = some 1) : Law span .pow l r .powerOne l

theorem law_of_law? {op : BinaryOp} {span : Span} {l r t : Tree} {step : Step}
    (applies : law? op span l r = some (step, t)) : Law span op l r step t := by
  cases op with
  | add =>
    simp only [law?] at applies
    split at applies
    · next zero => cases applies; exact .zeroAdd (isZero_iff.mp zero)
    · split at applies
      · next zero => cases applies; exact .addZero (isZero_iff.mp zero)
      · cases applies
  | sub =>
    simp only [law?] at applies
    split at applies
    · next missing =>
      subst missing
      split at applies
      · next zero => cases applies; exact .negateZero (isZero_iff.mp zero)
      · cases applies
    · next there =>
      split at applies
      · next zero => cases applies; exact .zeroSub (isZero_iff.mp zero)
      · split at applies
        · next zero => cases applies; exact .subZero there (isZero_iff.mp zero)
        · cases applies
  | mul =>
    simp only [law?, Bool.or_eq_true] at applies
    split at applies
    · next zero =>
      cases applies
      exact zero.elim (fun zero => .zeroMul (isZero_iff.mp zero))
        fun zero => .mulZero (isZero_iff.mp zero)
    · split at applies
      · next one => cases applies; exact .oneMul (isOne_iff.mp one)
      · split at applies
        · next one => cases applies; exact .mulOne (isOne_iff.mp one)
        · split at applies
          · next found => cases applies; exact .reciprocalMul (reciprocal?_eq_some_iff.mp found)
          · next found => cases applies; exact .mulReciprocal (reciprocal?_eq_some_iff.mp found)
          · cases applies
  | div =>
    simp only [law?] at applies
    split at applies
    · next zero => cases applies; exact .zeroDiv (isZero_iff.mp zero)
    · split at applies
      · next one => cases applies; exact .divOne (isOne_iff.mp one)
      · cases applies
  | pow =>
    simp only [law?] at applies
    split at applies
    · next zero => cases applies; exact .powZero (isZero_iff.mp zero)
    · split at applies
      · next one => cases applies; exact .powOne (isOne_iff.mp one)
      · cases applies

/-! ## Rewrites -/

/-- A rewrite of an operator between operands: arithmetic on two literals, or a law where
    there are none. -/
inductive Rewrites (span : Span) (op : BinaryOp) (l r : Tree) : Step → Tree → Prop where
  | fold {m n v : Int64} (arithmetic : op.isArithmetic = true) (left : l.integer? = some m)
      (right : r.integer? = some n) (exact : op.IsExact m.toInt n.toInt v.toInt) :
      Rewrites span op l r .foldConstants (literal v span)
  | law {step : Step} {t : Tree}
      (other : ¬(op.isArithmetic = true ∧ l.integer?.isSome ∧ r.integer?.isSome))
      (law : Law span op l r step t) : Rewrites span op l r step t

theorem rewrites_of_rewrite? {op : BinaryOp} {span : Span} {l r t : Tree} {step : Step}
    (rewritten : (node (.operator (.binary op)) span l r).rewrite? = some (step, t)) :
    Rewrites span op l r step t := by
  simp only [rewrite?] at rewritten
  split at rewritten
  · next m n arithmetic left right =>
    obtain ⟨v, computed, same⟩ := Option.map_eq_some_iff.mp rewritten
    cases same
    exact .fold arithmetic left right (BinaryOp.exactWord?_eq_some_iff.mp computed)
  · next other =>
    refine .law ?_ (law_of_law? rewritten)
    rintro ⟨arithmetic, left, right⟩
    obtain ⟨m, left⟩ := Option.isSome_iff_exists.mp left
    obtain ⟨n, right⟩ := Option.isSome_iff_exists.mp right
    exact other m n arithmetic left right

/-- Only operators between operands are rewritten. -/
theorem exists_op_of_rewrite? {t t' : Tree} {step : Step} (rewritten : t.rewrite? = some (step, t')) :
    ∃ op span l r, t = node (.operator (.binary op)) span l r ∧ Rewrites span op l r step t' := by
  cases t with
  | absent => cases rewritten
  | node kind span l r =>
    cases kind with
    | operator op =>
      cases op with
      | binary op => exact ⟨op, span, l, r, rfl, rewrites_of_rewrite? rewritten⟩
      | apply f => cases rewritten
    | integer n => cases rewritten
    | fraction x => cases rewritten
    | var => cases rewritten
    | param index => cases rewritten

theorem wellShaped_literal (n : Int64) (span : Span) : (literal n span).WellShaped := .leaf rfl

theorem WellShaped.rewrite? {t t' : Tree} {step : Step} (shaped : t.WellShaped)
    (rewritten : t.rewrite? = some (step, t')) : t'.WellShaped := by
  obtain ⟨op, span, l, r, rfl, rewrites⟩ := exists_op_of_rewrite? rewritten
  obtain ⟨onRight, onLeft⟩ := shaped.operands_of_binary
  cases rewrites with
  | fold => exact wellShaped_literal _ _
  | law _ law =>
    cases law with
    | zeroAdd | oneMul => exact onRight
    | addZero | mulOne | divOne | powOne => exact onLeft.resolve_right fun missing => nomatch missing.1
    | subZero there => exact onLeft.resolve_right fun missing => there missing.2
    | negateZero | zeroMul | mulZero | zeroDiv | powZero => exact wellShaped_literal _ _
    | zeroSub => exact .negation onRight
    | reciprocalMul reciprocal =>
      obtain ⟨place, one, rfl, -, -⟩ := reciprocal
      have onQuotient := onLeft.resolve_right fun missing => nomatch missing.1
      exact .binary onRight onQuotient.operands_of_binary.1
    | mulReciprocal reciprocal =>
      obtain ⟨place, one, rfl, -, -⟩ := reciprocal
      exact .binary (onLeft.resolve_right fun missing => nomatch missing.1)
        onRight.operands_of_binary.1

end Tree
end Fluxion
