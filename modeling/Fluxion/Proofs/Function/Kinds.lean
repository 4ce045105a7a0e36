import Fluxion.Proofs.Derivative.Correctness
import Fluxion.Proofs.Simplification.NormalForm
import Fluxion.Proofs.Tree.Every
/- What derivatives and simplification are made of. Both take parts of a tree over as they are and
   add nothing but operators and integer literals. So a property that these have
   (`Kind.Constructive`), and that every node of the tree has, is one of every node of the result:
   of the derivative (`everyKind_of`) and of the simplified tree (`EveryKind.simplify`).

   This is how facts about the leaves of a source are carried through any number of transformations:
   parameters stay entries of their table, names stay names that can be written, fractions stay the
   ones of the source. Signs are another matter. Folding makes negative literals of literals that
   are not, so to have no sign is not a property of this sort, and neither is anything that looks at
   operands. -/
namespace Fluxion

/-- A property of all kinds of nodes that are ever built. -/
structure Kind.Constructive (p : Kind → Prop) : Prop where
  integer : ∀ n, p (.integer n)
  operator : ∀ op, p (.operator op)

variable {p : Kind → Prop} {t u v l r : Tree} {span : Span}

/-! ## Derivatives -/

namespace Derivative

open Draft

section
variable (built : Kind.Constructive p)
include built

theorem everyKind_integer (n : Int64) : (integer n).tree.EveryKind p :=
  Tree.everyKind_leaf.mpr (built.integer n)

theorem everyKind_binary {op : BinaryOp} {d e : Draft} (left : d.tree.EveryKind p)
    (right : e.tree.EveryKind p) : (binary op d e).tree.EveryKind p :=
  ⟨built.operator _, left, right⟩

theorem everyKind_binaryBackwards {op : BinaryOp} {d e : Draft} (left : d.tree.EveryKind p)
    (right : e.tree.EveryKind p) : (binaryBackwards op d e).tree.EveryKind p :=
  ⟨built.operator _, left, right⟩

theorem everyKind_apply {f : Elementary} {d : Draft} (argument : d.tree.EveryKind p) :
    (apply f d).tree.EveryKind p :=
  ⟨built.operator _, trivial, argument⟩

theorem everyKind_negate {d : Draft} (operand : d.tree.EveryKind p) :
    (negate d).tree.EveryKind p :=
  ⟨built.operator _, trivial, operand⟩

end

theorem everyKind_copy (every : t.EveryKind p) : (copy t).tree.EveryKind p := by
  rwa [tree_copy]

section
variable (built : Kind.Constructive p)
include built

theorem everyKind_square (every : v.EveryKind p) : (square v).tree.EveryKind p :=
  everyKind_binary built (everyKind_copy every) (everyKind_integer built 2)

theorem everyKind_reciprocal {d : Draft} (every : d.tree.EveryKind p) :
    (reciprocal d).tree.EveryKind p :=
  everyKind_binaryBackwards built (everyKind_integer built 1) every

theorem everyKind_arcsine (every : v.EveryKind p) : (arcsine v).tree.EveryKind p :=
  everyKind_reciprocal built (everyKind_apply built
    (everyKind_binary built (everyKind_integer built 1) (everyKind_square built every)))

theorem everyKind_arctangent (every : v.EveryKind p) : (arctangent v).tree.EveryKind p :=
  everyKind_reciprocal built
    (everyKind_binary built (everyKind_integer built 1) (everyKind_square built every))

theorem everyKind_outer {f : Elementary} {outer : Draft} (onCall : t.EveryKind p)
    (every : v.EveryKind p) (found : outer? t v f = some outer) : outer.tree.EveryKind p := by
  have squareOf : ∀ g, (squareOf g v).tree.EveryKind p := fun g =>
    everyKind_binary built (everyKind_apply built (everyKind_copy every)) (everyKind_integer built 2)
  cases f <;> cases found
  case sqrt =>
    exact everyKind_reciprocal built
      (everyKind_binary built (everyKind_integer built 2) (everyKind_copy onCall))
  case exp => exact everyKind_copy onCall
  case sin => exact everyKind_apply built (everyKind_copy every)
  case cos => exact everyKind_negate built (everyKind_apply built (everyKind_copy every))
  case tan => exact everyKind_reciprocal built (squareOf .cos)
  case cot => exact everyKind_negate built (everyKind_reciprocal built (squareOf .sin))
  case arcsin => exact everyKind_arcsine built every
  case arccos => exact everyKind_negate built (everyKind_arcsine built every)
  case arctan => exact everyKind_arctangent built every
  case arccot => exact everyKind_negate built (everyKind_arctangent built every)

/-- Whatever is built or copied into a derivative has the property. -/
theorem everyKind_of (shaped : t.WellShaped) (every : t.EveryKind p) :
    (of t).tree.EveryKind p := by
  induction shaped with
  | @leaf kind span noOperator =>
    cases kind with
    | operator => cases noOperator
    | integer | fraction | var | param => exact everyKind_integer built _
  | negation onOperand ih =>
    rw [of_negation onOperand.ne_absent]
    exact everyKind_negate built (ih every.2.2)
  | @binary op span left right onLeft onRight ihLeft ihRight =>
    have copyLeft := everyKind_copy every.2.1
    have copyRight := everyKind_copy every.2.2
    have derivedLeft := ihLeft every.2.1
    have derivedRight := ihRight every.2.2
    have products : (binary .mul _ _).tree.EveryKind p := everyKind_binary built derivedLeft copyRight
    have products' : (binary .mul _ _).tree.EveryKind p := everyKind_binary built copyLeft derivedRight
    rw [of_binary onLeft.ne_absent onRight.ne_absent]
    cases op with
    | add | sub => exact everyKind_binary built derivedLeft derivedRight
    | mul => exact everyKind_binary built products products'
    | div =>
      exact everyKind_binary built (everyKind_binary built products products')
        (everyKind_square built every.2.2)
    | pow =>
      exact everyKind_binary built derivedLeft (everyKind_binaryBackwards built copyRight
        (everyKind_binaryBackwards built copyLeft
          (everyKind_binary built copyRight (everyKind_integer built 1))))
  | @call f span argument onArgument ih =>
    have derived := ih every.2.2
    rw [of_call onArgument.ne_absent, ofCall]
    split
    · next found =>
      exact everyKind_binary built (everyKind_outer built every every.2.2 found) derived
    · exact everyKind_binary built derived (everyKind_copy every.2.2)

end
end Derivative

/-! ## Simplification -/

namespace Tree

open Simplification

section
variable (built : Kind.Constructive p)
include built

theorem everyKind_literal (n : Int64) (span : Span) : (literal n span).EveryKind p :=
  everyKind_leaf.mpr (built.integer n)

theorem Law.everyKind {op : BinaryOp} {step : Step} (law : Law span op l r step t)
    (left : l.EveryKind p) (right : r.EveryKind p) : t.EveryKind p := by
  cases law with
  | zeroAdd | oneMul => exact right
  | addZero | subZero | mulOne | divOne | powOne => exact left
  | negateZero | zeroMul | mulZero | zeroDiv | powZero => exact everyKind_literal built _ _
  | zeroSub => exact ⟨built.operator _, trivial, right⟩
  | reciprocalMul reciprocal =>
    obtain ⟨place, one, rfl, -, -⟩ := reciprocal
    exact ⟨built.operator _, right, left.2.2⟩
  | mulReciprocal reciprocal =>
    obtain ⟨place, one, rfl, -, -⟩ := reciprocal
    exact ⟨built.operator _, left, right.2.2⟩

theorem EveryKind.rewrite? {t' : Tree} {step : Step} (every : t.EveryKind p)
    (rewritten : t.rewrite? = some (step, t')) : t'.EveryKind p := by
  obtain ⟨op, span, l, r, rfl, rewrites⟩ := exists_op_of_rewrite? rewritten
  cases rewrites with
  | fold => exact everyKind_literal built _ _
  | law _ law => exact law.everyKind built every.2.1 every.2.2

theorem EveryKind.rewriteOnce (every : t.EveryKind p) : t.rewriteOnce.2.EveryKind p := by
  unfold Tree.rewriteOnce
  split
  · exact every
  · next rewritten => exact every.rewrite? built rewritten

theorem EveryKind.rewriteNode (every : t.EveryKind p) : t.rewriteNode.2.EveryKind p := by
  unfold Tree.rewriteNode
  split
  · exact every
  · next step t' rewritten =>
    have once := every.rewrite? built rewritten
    split
    · exact once.rewriteOnce built
    · exact once

/-- Whatever is kept or folded has the property. -/
theorem EveryKind.simplify (every : t.EveryKind p) : t.simplify.2.EveryKind p := by
  induction t with
  | absent => trivial
  | node kind span left right ihLeft ihRight =>
    exact EveryKind.rewriteNode built
      (t := .node kind span left.simplify.2 right.simplify.2)
      ⟨every.1, ihLeft every.2.1, ihRight every.2.2⟩

end
end Tree
end Fluxion
