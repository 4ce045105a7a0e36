import Fluxion.Proofs.Notation.Printing
import Fluxion.Proofs.Tree.Value
import Mathlib.Logic.Relation
/- Regrouping sums and products to the left. The linear notation has no parentheses around a sum
   that is the right operand of a sum, nor around a product or a quotient in a product, and reading
   joins to the left. One step of regrouping (`Regroups`) moves a pair of parentheses that is not
   printed, anywhere in the tree. It keeps what is printed (`Regroups.text_eq`), what the tree is
   worth (`Regroups.value?_eq`), its shape, and its parameters in their order.

   No tree can be regrouped for ever, as every step takes weight from the right of some operator
   (`Regroups.rightWeight_lt`), so each tree comes to one that is grouped to the left
   (`exists_isLeftGrouped`). That there is only one, up to places, is not shown here but follows
   from reading: all of them have the same print. The end of the module is about trees without
   places (`bare`). -/
namespace Fluxion

/-- `a o (b i c)` is printed like `(a o b) i c`. -/
inductive BinaryOp.Associates : BinaryOp → BinaryOp → Prop where
  | addAdd : Associates .add .add
  | addSub : Associates .add .sub
  | mulMul : Associates .mul .mul
  | mulDiv : Associates .mul .div

namespace Tree

/-- A right operand is regrouped to the left somewhere in the tree. Operators that come
    about have no place in the source. -/
inductive Regroups : Tree → Tree → Prop where
  | here {outer inner : BinaryOp} {a b c : Tree} {s₁ s₂ s₃ s₄ : Span}
      (associates : outer.Associates inner) (there : b ≠ absent) :
      Regroups
        (node (.operator (.binary outer)) s₁ a (node (.operator (.binary inner)) s₂ b c))
        (node (.operator (.binary inner)) s₃ (node (.operator (.binary outer)) s₄ a b) c)
  | left {kind : Kind} {span : Span} {l l' r : Tree} (step : Regroups l l') :
      Regroups (node kind span l r) (node kind span l' r)
  | right {kind : Kind} {span : Span} {l r r' : Tree} (step : Regroups r r') :
      Regroups (node kind span l r) (node kind span l r')

/-- No operand is left that could be regrouped. -/
def IsLeftGrouped (t : Tree) : Prop := ∀ t', ¬t.Regroups t'

variable {t t' : Tree} {kind : Kind} {span : Span} {l r : Tree}

theorem IsLeftGrouped.left (grouped : (node kind span l r).IsLeftGrouped) : l.IsLeftGrouped :=
  fun _ step => grouped _ (.left step)

theorem IsLeftGrouped.right (grouped : (node kind span l r).IsLeftGrouped) : r.IsLeftGrouped :=
  fun _ step => grouped _ (.right step)

/-! ## Termination -/

/-- How much stands on the right of operators, each node counted as often as it does. -/
def rightWeight : Tree → Nat
  | absent => 0
  | node _ _ left right => left.rightWeight + right.rightWeight + right.size

theorem Regroups.size_eq (step : t.Regroups t') : t'.size = t.size := by
  induction step with
  | here =>
    simp only [size]
    omega
  | left _ ih | right _ ih => simp only [size, ih]

theorem Regroups.rightWeight_lt (step : t.Regroups t') : t'.rightWeight < t.rightWeight := by
  induction step with
  | here =>
    simp only [rightWeight, size]
    omega
  | left _ ih =>
    simp only [rightWeight]
    omega
  | right step ih =>
    simp only [rightWeight, step.size_eq]
    omega

theorem exists_isLeftGrouped (t : Tree) :
    ∃ t', Relation.ReflTransGen Regroups t t' ∧ t'.IsLeftGrouped := by
  induction weight : t.rightWeight using Nat.strong_induction_on generalizing t with
  | _ n ih =>
    by_cases grouped : t.IsLeftGrouped
    · exact ⟨t, .refl, grouped⟩
    · obtain ⟨t', step⟩ : ∃ t', t.Regroups t' := by simpa [IsLeftGrouped] using grouped
      obtain ⟨t'', steps, grouped⟩ := ih t'.rightWeight (weight ▸ step.rightWeight_lt) t' rfl
      exact ⟨t'', .head step steps, grouped⟩

/-- What every step keeps is kept by any number of steps. -/
theorem regroups_induction {p : Tree → Prop} (step : ∀ t t', t.Regroups t' → p t → p t')
    (steps : Relation.ReflTransGen Regroups t t') (start : p t) : p t' := by
  induction steps with
  | refl => exact start
  | tail _ last ih => exact step _ _ last ih

/-- What no step changes is the same after any number of steps. -/
theorem eq_of_regroups {α : Type*} (view : Tree → α)
    (step : ∀ t t', t.Regroups t' → view t' = view t)
    (steps : Relation.ReflTransGen Regroups t t') : view t' = view t := by
  refine regroups_induction (p := fun n => view n = view t) ?_ steps rfl
  exact fun u u' regroups same => (step u u' regroups).trans same

/-! ## Shapes and kinds -/

theorem Regroups.ne_absent (step : t.Regroups t') : t ≠ absent ∧ t' ≠ absent := by
  cases step <;> exact ⟨Tree.noConfusion, Tree.noConfusion⟩

theorem Regroups.priority_eq (step : t.Regroups t') : t'.priority = t.priority := by
  cases step with
  | here associates => cases associates <;> rfl
  | left | right => rfl

theorem Regroups.wellShaped (step : t.Regroups t') (shaped : t.WellShaped) : t'.WellShaped := by
  induction step with
  | here associates there =>
    obtain ⟨onInner, onLeft⟩ := shaped.operands_of_binary
    obtain ⟨onRight, onMiddle⟩ := onInner.operands_of_binary
    have onMiddle := onMiddle.resolve_right fun missing => there missing.2
    have onLeft := onLeft.resolve_right fun missing => by
      cases associates <;> cases missing.1
    exact .binary (.binary onLeft onMiddle) onRight
  | left step ih =>
    cases shaped with
    | leaf | negation | call => exact absurd rfl step.ne_absent.1
    | binary onLeft onRight => exact .binary (ih onLeft) onRight
  | right step ih =>
    cases shaped with
    | leaf => exact absurd rfl step.ne_absent.1
    | negation onOperand => exact .negation (ih onOperand)
    | binary onLeft onRight => exact .binary onLeft (ih onRight)
    | call onArgument => exact .call (ih onArgument)

theorem Regroups.everyKind {p : Kind → Prop} (step : t.Regroups t') (every : t.EveryKind p) :
    t'.EveryKind p := by
  induction step with
  | here => exact ⟨every.2.2.1, ⟨every.1, every.2.1, every.2.2.2.1⟩, every.2.2.2.2⟩
  | left _ ih => exact ⟨every.1, ih every.2.1, every.2.2⟩
  | right _ ih => exact ⟨every.1, every.2.1, ih every.2.2⟩

/-! ## Print and value -/

theorem Regroups.text_eq (step : t.Regroups t') (f : Function) : f.text t' = f.text t := by
  induction step with
  | @here outer inner a b c s₁ s₂ s₃ s₄ associates =>
    -- The operand in the middle is enclosed under both operators or under neither.
    have middle : inner.encloses false b.priority = outer.encloses true b.priority := by
      cases associates <;> rfl
    have above : outer.encloses true inner.priority = false := by cases associates <;> rfl
    have below : inner.encloses false outer.priority = false := by cases associates <;> rfl
    have enclosed : ∀ u v s, (node (.operator (.binary inner)) s u v).priority = inner.priority :=
      fun _ _ _ => rfl
    have enclosed' : ∀ u v s, (node (.operator (.binary outer)) s u v).priority = outer.priority :=
      fun _ _ _ => rfl
    simp only [Function.text_binary, Function.operandText, enclosed, enclosed', middle, above, below,
      Phrase.wrapped, List.append_assoc, Bool.false_eq_true, if_false]
  | @left kind _ _ _ _ step ih =>
    obtain _ | _ | _ | _ | (op | g) := kind
    case operator.binary =>
      simp only [Function.text_binary, Function.operandText, step.priority_eq, ih]
    all_goals rfl
  | @right kind _ _ _ _ step ih =>
    obtain _ | _ | _ | _ | (op | g) := kind
    case operator.binary =>
      simp only [Function.text_binary, Function.operandText, step.priority_eq, ih]
    case operator.apply => simp only [Function.text_apply, ih]
    all_goals rfl

section
variable {K : Type*} [Field K] [DecidableEq K] {ι : Interpretation K}

theorem value?_binary_eq {op : BinaryOp} (there : l ≠ absent) :
    (node (.operator (.binary op)) span l r).value? ι =
      (l.value? ι).bind fun u => (r.value? ι).bind fun w => ι.operation? op u w := by
  ext v
  rw [value?_binary there]
  simp [Option.bind_eq_some_iff]

theorem Regroups.value?_eq (step : t.Regroups t') (shaped : t.WellShaped) :
    t'.value? ι = t.value? ι := by
  induction step with
  | @here outer inner a b c s₁ s₂ s₃ s₄ associates there =>
    have onLeft : a ≠ absent := by
      obtain ⟨-, onLeft | ⟨sub, -⟩⟩ := shaped.operands_of_binary
      · exact onLeft.ne_absent
      · cases associates <;> cases sub
    rw [value?_binary_eq Tree.noConfusion, value?_binary_eq onLeft, value?_binary_eq onLeft,
      value?_binary_eq there]
    cases a.value? ι with
    | none => rfl
    | some u =>
      cases b.value? ι with
      | none => rfl
      | some v =>
        cases c.value? ι with
        | none => cases associates <;> rfl
        | some w =>
          cases associates with
          | addAdd => exact congrArg some (add_assoc u v w)
          | addSub => exact congrArg some (add_sub_assoc u v w)
          | mulMul => exact congrArg some (mul_assoc u v w)
          | mulDiv =>
            by_cases zero : w = 0
            · simp [Interpretation.operation?, zero]
            · simp [Interpretation.operation?, zero, mul_div_assoc]
  | left step ih =>
    cases shaped with
    | leaf | negation | call => exact absurd rfl step.ne_absent.1
    | binary onLeft onRight =>
      rw [value?_binary_eq step.ne_absent.1, value?_binary_eq step.ne_absent.2, ih onLeft]
  | right step ih =>
    cases shaped with
    | leaf => exact absurd rfl step.ne_absent.1
    | negation onOperand => simp only [value?, ih onOperand]
    | binary onLeft onRight =>
      rw [value?_binary_eq onLeft.ne_absent, value?_binary_eq onLeft.ne_absent, ih onRight]
    | call onArgument => simp only [value?, ih onArgument]

end

/-! ## Parameters -/

/-- The indexes of the parameters, from left to right and as often as they occur. -/
def paramIndexes : Tree → List Nat
  | absent => []
  | node (.param index) .. => [index]
  | node _ _ left right => left.paramIndexes ++ right.paramIndexes

theorem Regroups.paramIndexes_eq (step : t.Regroups t') : t'.paramIndexes = t.paramIndexes := by
  induction step with
  | here => simp only [paramIndexes, List.append_assoc]
  | @left kind _ _ _ _ _ ih | @right kind _ _ _ _ _ ih =>
    cases kind with
    | param => rfl
    | integer | fraction | var | operator => simp only [paramIndexes, ih]

/-! ## Places -/

/-- The tree without its places in the source. -/
def bare : Tree → Tree
  | absent => absent
  | node kind _ left right => node kind .nowhere left.bare right.bare

theorem isWrapped_bare (outer : Operator) (right : Bool) (t : Tree) :
    t.bare.isWrapped outer right = t.isWrapped outer right := by
  cases t <;> rfl

/-- Places are not printed. -/
theorem phrase_bare (leaf : Kind → Phrase) (t : Tree) : t.bare.phrase leaf = t.phrase leaf := by
  induction t with
  | absent => rfl
  | node kind span left right ihLeft ihRight =>
    cases kind with
    | operator op => simp only [bare, phrase, ihLeft, ihRight, isWrapped_bare]
    | integer | fraction | var | param => rfl

theorem text_bare (f : Function) (t : Tree) : f.text t.bare = f.text t := by
  rw [Function.text, phrase_bare, Function.text]

end Tree
end Fluxion
