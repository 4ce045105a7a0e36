import Fluxion.Proofs.Arena.Links
import Fluxion.Proofs.Derivative.Correctness
import Fluxion.Proofs.Function.Pipeline
/- Derivatives of constants. The rules take the derivative of a tree without the variable to sums,
   products and quotients in which derivatives of operands, zeros all of them, stand beside copies
   of operands. One pass of simplification makes zero of every one (`Vanishes`): zeros are folded
   (`rewriteNode_of_zeros`), and a product absorbs whatever its other factor is
   (`rewriteNode_product`). By induction on the tree, so the whole derivative vanishes
   (`vanishes_of`), and its body is a single literal in an arena that holds nothing else
   (`simplify_derivative_of_constant`).

   A quotient absorbs its denominator unless that is the literal zero. The denominators that are
   built are powers, which no rule turns into a literal (`integer?_square`); only the argument of a
   logarithm becomes a denominator as it is, which is why it is asked for by `HasNonzeroLogarithms`.
   Nothing is asked of the values: parts without a value may be absorbed like others. -/
namespace Fluxion
namespace Tree

open Simplification

variable {op : BinaryOp} {span : Span} {l r t : Tree} {n : Int64} {step : Step}

/-! ## Nodes that become zero -/

/-- A literal is not rewritten again. -/
theorem rewriteNode_of_literal (rewritten : t.rewrite? = some (step, literal n span)) :
    t.rewriteNode.2 = literal n span := by
  have settled : (literal n span).rewriteOnce = ([], literal n span) := rfl
  simp only [rewriteNode, rewritten, settled]
  split <;> rfl

/-- Sums and differences of zeros are folded. -/
theorem rewriteNode_of_zeros (additive : op = .add ∨ op = .sub) (left : l.integer? = some 0)
    (right : r.integer? = some 0) :
    (node (.operator (.binary op)) span l r).rewriteNode.2 = literal 0 span := by
  have arithmetic : op.isArithmetic = true := by
    obtain rfl | rfl := additive <;> rfl
  have computed : op.exactWord? 0 0 = some 0 := by
    obtain rfl | rfl := additive <;> rfl
  have rewritten : (node (.operator (.binary op)) span l r).rewrite? =
      some (.foldConstants, literal 0 span) := by
    simp [rewrite?, arithmetic, left, right, computed]
  exact rewriteNode_of_literal rewritten

theorem rewriteNode_opposite (zero : r.integer? = some 0) :
    (node (.operator (.binary .sub)) span absent r).rewriteNode.2 = literal 0 span := by
  have rewritten : (node (.operator (.binary .sub)) span absent r).rewrite? =
      some (.negateZero, literal 0 span) := by
    simp [rewrite?, show absent.integer? = none from rfl, law?, isZero, zero]
  exact rewriteNode_of_literal rewritten

/-- A product with a zero is zero, by arithmetic or by a law. -/
theorem rewriteNode_product (zero : l.integer? = some 0 ∨ r.integer? = some 0) :
    (node (.operator (.binary .mul)) span l r).rewriteNode.2 = literal 0 span := by
  have law : law? .mul span l r = some (.multiplyZero, literal 0 span) := by
    obtain zero | zero := zero <;> simp [law?, isZero, zero]
  obtain ⟨step, rewritten⟩ : ∃ step, (node (.operator (.binary .mul)) span l r).rewrite? =
      some (step, literal 0 span) := by
    cases left : l.integer? with
    | none => exact ⟨.multiplyZero, by simp [rewrite?, left, law]⟩
    | some m =>
      cases right : r.integer? with
      | none => exact ⟨.multiplyZero, by simp [rewrite?, right, law]⟩
      | some n =>
        have computed : BinaryOp.mul.exactWord? m n = some 0 := by
          rw [BinaryOp.exactWord?_eq_some_iff]
          show (0 : Int64).toInt = m.toInt * n.toInt
          obtain zero | zero := zero
          · obtain rfl : m = 0 := by simpa [left] using zero
            simp
          · obtain rfl : n = 0 := by simpa [right] using zero
            simp
        exact ⟨.foldConstants, by simp [rewrite?, BinaryOp.isArithmetic, left, right, computed]⟩
  exact rewriteNode_of_literal rewritten

/-- A quotient of zero is zero, unless it is a quotient of literal zeros. -/
theorem rewriteNode_quotient (zero : l.integer? = some 0) (nonzero : r.integer? ≠ some 0) :
    (node (.operator (.binary .div)) span l r).rewriteNode.2 = literal 0 span := by
  obtain ⟨step, rewritten⟩ : ∃ step, (node (.operator (.binary .div)) span l r).rewrite? =
      some (step, literal 0 span) := by
    cases right : r.integer? with
    | none => exact ⟨.divideZero, by simp [rewrite?, zero, right, law?, isZero]⟩
    | some n =>
      have computed : BinaryOp.div.exactWord? 0 n = some 0 := by
        rw [BinaryOp.exactWord?_eq_some_iff]
        refine ⟨fun same => nonzero ?_, by simp⟩
        rw [right, Int64.toInt_inj.mp (same.trans Int64.toInt_zero.symm)]
      exact ⟨.foldConstants, by simp [rewrite?, BinaryOp.isArithmetic, zero, right, computed]⟩
  exact rewriteNode_of_literal rewritten

/-- The exponent two is no reason to rewrite a power. -/
theorem rewriteNode_square {place : Span} :
    (node (.operator (.binary .pow)) span l (literal 2 place)).rewriteNode.2 =
      node (.operator (.binary .pow)) span l (literal 2 place) := by
  rfl

/-- Simplification turns no argument of a logarithm into the literal zero. -/
def HasNonzeroLogarithms : Tree → Prop :=
  Every fun kind _ argument =>
    kind = .operator (.apply .log) → argument.simplify.2.integer? ≠ some 0

instance (t : Tree) : Decidable t.HasNonzeroLogarithms :=
  Every.decidable (fun kind _ argument =>
    kind = .operator (.apply .log) → argument.simplify.2.integer? ≠ some 0) t

/-- The tree simplifies to a zero that comes from no place in a source. -/
def Vanishes (t : Tree) : Prop := t.simplify.2 = literal 0 .nowhere

theorem Vanishes.integer? (vanishes : t.Vanishes) : t.simplify.2.integer? = some 0 := by
  rw [vanishes]
  rfl

end Tree

namespace Derivative

open Draft Fluxion.Tree

variable {t u v : Tree} {d e : Draft} {f : Elementary}

/-! ## Drafts that vanish -/

theorem vanishes_integer : (integer 0).tree.Vanishes := rfl

theorem vanishes_negate (zero : d.tree.Vanishes) : (negate d).tree.Vanishes :=
  rewriteNode_opposite zero.integer?

theorem vanishes_binary {op : BinaryOp} (additive : op = .add ∨ op = .sub) (left : d.tree.Vanishes)
    (right : e.tree.Vanishes) : (binary op d e).tree.Vanishes :=
  rewriteNode_of_zeros additive left.integer? right.integer?

theorem vanishes_product (zero : d.tree.Vanishes ∨ e.tree.Vanishes) :
    (binary .mul d e).tree.Vanishes :=
  rewriteNode_product (zero.imp Vanishes.integer? Vanishes.integer?)

theorem vanishes_quotient (zero : d.tree.Vanishes) (nonzero : e.tree.simplify.2.integer? ≠ some 0) :
    (binary .div d e).tree.Vanishes :=
  rewriteNode_quotient zero.integer? nonzero

/-- A square is no literal, whatever its base simplifies to. -/
theorem integer?_square (v : Tree) : (square v).tree.simplify.2.integer? = none := by
  have kept : (square v).tree.simplify.2 =
      node (.operator (.binary .pow)) .nowhere (copy v).tree.simplify.2 (literal 2 .nowhere) :=
    rewriteNode_square
  rw [kept]
  rfl

/-! ## Rules -/

theorem vanishes_ofProduct (left : d.tree.Vanishes) (right : e.tree.Vanishes) :
    (ofProduct u v d e).tree.Vanishes :=
  vanishes_binary (.inl rfl) (vanishes_product (.inl left)) (vanishes_product (.inr right))

theorem vanishes_ofQuotient (left : d.tree.Vanishes) (right : e.tree.Vanishes) :
    (ofQuotient u v d e).tree.Vanishes := by
  apply vanishes_quotient
  · exact vanishes_binary (.inr rfl) (vanishes_product (.inl left)) (vanishes_product (.inr right))
  · rw [integer?_square]
    exact nofun

/-- By the chain rule the derivative of the argument is a factor or, for the logarithm, the
    numerator. -/
theorem vanishes_ofCall (call : Tree) (argument : d.tree.Vanishes)
    (nonzero : f = .log → v.simplify.2.integer? ≠ some 0) : (ofCall f call v d).tree.Vanishes := by
  rw [ofCall]
  cases found : outer? call v f with
  | some outer => exact vanishes_product (.inr argument)
  | none =>
    have isLog : f = .log := by
      cases f <;> first | rfl | cases found
    apply vanishes_quotient argument
    rw [tree_copy]
    exact nonzero isLog

/-- The derivative of a constant simplifies to zero. -/
theorem vanishes_of (shaped : t.WellShaped) (constant : t.IsConstant)
    (logarithms : t.HasNonzeroLogarithms) : (of t).tree.Vanishes := by
  induction shaped with
  | @leaf kind span noOperator =>
    cases kind with
    | operator => cases noOperator
    | var => exact absurd rfl constant.1
    | integer | fraction | param => exact vanishes_integer
  | negation onOperand ih =>
    rw [of_negation onOperand.ne_absent]
    exact vanishes_negate (ih constant.2.2 logarithms.2.2)
  | @binary op span left right onLeft onRight ihLeft ihRight =>
    have zeroLeft := ihLeft constant.2.1 logarithms.2.1
    have zeroRight := ihRight constant.2.2 logarithms.2.2
    rw [of_binary onLeft.ne_absent onRight.ne_absent]
    cases op with
    | add => exact vanishes_binary (.inl rfl) zeroLeft zeroRight
    | sub => exact vanishes_binary (.inr rfl) zeroLeft zeroRight
    | mul => exact vanishes_ofProduct zeroLeft zeroRight
    | div => exact vanishes_ofQuotient zeroLeft zeroRight
    | pow => exact vanishes_product (.inl zeroLeft)
  | @call f span argument onArgument ih =>
    rw [of_call onArgument.ne_absent]
    apply vanishes_ofCall _ (ih constant.2.2 logarithms.2.2)
    rintro rfl
    exact logarithms.1 rfl

end Derivative

namespace Function

/-- The derivative of a function without the variable simplifies to the literal zero, in an arena
    that holds nothing else, if no argument of a logarithm simplifies to zero. -/
theorem simplify_derivative_of_constant (f : Function) (formed : f.body.WellFormed)
    (constant : f.body.tree.IsConstant) (logarithms : f.body.tree.HasNonzeroLogarithms) :
    f.derivative.simplify.body.tree = .leaf (.integer 0) .nowhere ∧
      f.derivative.simplify.body.size = 1 := by
  have vanishes := Derivative.vanishes_of formed.tree constant logarithms
  have shaped := Derivative.wellShaped_of formed.tree
  rw [← tree_body_derivative f formed] at vanishes shaped
  obtain ⟨L, fills, -⟩ := fills_body_derivative f formed
  rw [fills.holds.tree_eq] at vanishes shaped
  obtain ⟨M, after, tree⟩ := fills.simplify shaped
  have zero : M.tree = .leaf (.integer 0) .nowhere := tree.trans vanishes
  refine ⟨after.holds.tree_eq.trans zero, ?_⟩
  show f.derivative.body.simplify.2.size = 1
  rw [after.size_eq, ← Layout.size_tree, zero]
  rfl

/-- The definition `f(x)=log(2*a+0)^b/0-3^sqrt(a)`. -/
def differenceOfConstants : Definition :=
  ⟨"f", "x", .binary .sub
    (.binary .div
      (.binary .pow
        (.call .log
          (.binary .add (.binary .mul (.integer 2 ⟨9, 10⟩) (.name "a" ⟨11, 12⟩) ⟨9, 12⟩)
            (.integer 0 ⟨13, 14⟩) ⟨9, 14⟩) ⟨5, 15⟩)
        (.name "b" ⟨16, 17⟩) ⟨5, 17⟩)
      (.integer 0 ⟨18, 19⟩) ⟨5, 19⟩)
    (.binary .pow (.integer 3 ⟨20, 21⟩) (.call .sqrt (.name "a" ⟨27, 28⟩) ⟨22, 29⟩) ⟨20, 29⟩)
    ⟨5, 29⟩⟩

theorem simplify_derivative_of_constant_difference :
    let f := ofDefinition differenceOfConstants
    Definition.parse "f(x)=log(2*a+0)^b/0-3^sqrt(a)" = .ok differenceOfConstants ∧
      f.body.WellFormed ∧ f.body.tree.IsConstant ∧ f.body.tree.HasNonzeroLogarithms ∧
      f.derivative.simplify.body.tree = .leaf (.integer 0) .nowhere ∧
      f.derivative.simplify.body.size = 1 := by
  have formed := wellFormed_body_ofDefinition differenceOfConstants
  have constant : (ofDefinition differenceOfConstants).body.tree.IsConstant := by decide +kernel
  have logarithms : (ofDefinition differenceOfConstants).body.tree.HasNonzeroLogarithms := by
    decide +kernel
  exact ⟨by decide +kernel, formed, constant, logarithms,
    simplify_derivative_of_constant _ formed constant logarithms⟩

-- The derivative of a logarithm divides by the argument, and `0/0` is left as it is.
example :
    (parse "f(x)=log(0*a)").toOption.map (fun f => f.derivative.simplify.bodyLinear) =
      some "0/0" := by
  decide +kernel

end Function
end Fluxion
