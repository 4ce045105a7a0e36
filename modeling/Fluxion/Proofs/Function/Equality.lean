import Fluxion.Proofs.Notation.Faithfulness
import Fluxion.Proofs.Simplification.Refinement
import Fluxion.Proofs.Tree.Places
/- Equality of functions. Two trees are equal if and only if they are the same without their places
   (`Tree.same_iff`). Fractions are compared as numbers, so this holds where none of them is a
   negative zero or no number at all (`Kind.IsDistinctive`); derivatives and simplification make no
   such fractions.

   What prints, checks, derives and simplifies a function goes by its tree and uses places for
   nothing but faults. So functions that differ in the places of their nodes only, and in the slots
   in which these are stored (`Alike`), stay so whatever is done with both (`Alike.run`), and they
   are never told apart: `indistinguishable_of_same` lists print, verdicts, derivatives, laws
   applied and results. Each of them is brought down to trees by a lemma for bodies that are well
   formed, and to trees without places by `Fluxion.Proofs.Tree.Places`. -/
namespace Fluxion

/-! ## Kinds -/

/-- A number other than the negative zero: among these, only one number is equal to it. -/
def Binary64.IsDistinctive (x : Binary64) : Prop :=
  x ≠ .nan ∧ ∀ rank, x = .finite true rank → rank.val ≠ 0

/-- A fraction of this kind is a number and no negative zero. -/
def Kind.IsDistinctive (kind : Kind) : Prop := ∀ x, kind = .fraction x → x.IsDistinctive

theorem Binary64.beq_iff {x y : Binary64} (left : x.IsDistinctive) (right : y.IsDistinctive) :
    (x == y) = true ↔ x = y := by
  show x.same y = true ↔ x = y
  cases x with
  | nan => exact absurd rfl left.1
  | infinity negative => cases y <;> simp [Binary64.same]
  | finite negative rank =>
    cases y with
    | nan | infinity => simp [Binary64.same]
    | finite other rank' =>
      simp only [Binary64.same, Bool.and_eq_true, Bool.or_eq_true, beq_iff_eq, finite.injEq]
      constructor
      · rintro ⟨rfl, rfl | zero⟩
        · exact ⟨rfl, rfl⟩
        -- Neither zero has a sign.
        · cases negative with
          | true => exact absurd zero (left.2 rank rfl)
          | false =>
            cases other with
            | true => exact absurd zero (right.2 rank rfl)
            | false => exact ⟨rfl, rfl⟩
      · rintro ⟨rfl, rfl⟩
        exact ⟨rfl, .inl rfl⟩

theorem Kind.same_iff {k k' : Kind} (left : k.IsDistinctive) (right : k'.IsDistinctive) :
    k.same k' = true ↔ k = k' := by
  cases k with
  | fraction x =>
    cases k' with
    | fraction y =>
      rw [Kind.same, Binary64.beq_iff (left x rfl) (right y rfl), Kind.fraction.injEq]
    | integer | var | param | operator => simp [Kind.same]
  | integer | var | param | operator => simp [Kind.same]

theorem Kind.constructive_isDistinctive : Kind.Constructive Kind.IsDistinctive := ⟨nofun, nofun⟩

namespace Tree

variable {t u : Tree}

/-- Trees are equal if and only if they differ in places only. -/
theorem same_iff (left : t.EveryKind Kind.IsDistinctive) (right : u.EveryKind Kind.IsDistinctive) :
    t.same u = true ↔ t.bare = u.bare := by
  induction t generalizing u with
  | absent => cases u <;> simp [same, bare]
  | node kind span l r ihLeft ihRight =>
    cases u with
    | absent => simp [same, bare]
    | node kind' span' l' r' =>
      obtain ⟨here, onLeft, onRight⟩ := left
      obtain ⟨here', onLeft', onRight'⟩ := right
      simp only [same, bare, Bool.and_eq_true, Kind.same_iff here here', ihLeft onLeft onLeft',
        ihRight onRight onRight', node.injEq, true_and, and_assoc]

end Tree

/-! ## Functions -/

namespace Function

variable {f g : Function}

/-- The functions differ in the places of their nodes only, wherever these are stored. -/
structure Alike (f g : Function) : Prop where
  name : f.name = g.name
  variableName : f.variableName = g.variableName
  params : f.params = g.params
  tree : f.body.tree.bare = g.body.tree.bare

theorem same_iff (left : f.body.tree.EveryKind Kind.IsDistinctive)
    (right : g.body.tree.EveryKind Kind.IsDistinctive) : f.same g = true ↔ f.Alike g := by
  simp only [same, Arena.same, Bool.and_eq_true, beq_iff_eq, Tree.same_iff left right]
  constructor
  · rintro ⟨⟨⟨name, variableName⟩, params⟩, tree⟩
    exact ⟨name, variableName, params, tree⟩
  · rintro ⟨name, variableName, params, tree⟩
    exact ⟨⟨⟨name, variableName⟩, params⟩, tree⟩

theorem wellFormed_transform (formed : f.body.WellFormed) (step : Transformation) :
    (f.transform step).body.WellFormed := by
  cases step with
  | derivative => exact wellFormed_body_derivative f formed
  | simplification => exact formed.simplify

namespace Alike

variable (alike : f.Alike g) (onLeft : f.body.WellFormed) (onRight : g.body.WellFormed)
include alike

theorem leafPhrase : f.leafPhrase = g.leafPhrase := by
  funext kind
  cases kind <;> simp only [Function.leafPhrase, alike.variableName, alike.params]

include onLeft onRight

theorem phrase : f.phrase = g.phrase := by
  rw [phrase_eq onLeft, phrase_eq onRight, ← Tree.phrase_bare, alike.tree, Tree.phrase_bare,
    alike.leafPhrase]

theorem check : f.check.mapError (·.fault) = g.check.mapError (·.fault) := by
  have faults : f.body.tree.faults.head?.map (·.fault) = g.body.tree.faults.head?.map (·.fault) := by
    rw [← List.head?_map, ← List.head?_map, ← Tree.faults_bare, alike.tree, Tree.faults_bare]
  rw [check_eq onLeft, check_eq onRight]
  generalize f.body.tree.faults.head? = first at faults ⊢
  generalize g.body.tree.faults.head? = second at faults ⊢
  cases first with
  | none =>
    cases second with
    | none => rfl
    | some => cases faults
  | some fault =>
    cases second with
    | none => cases faults
    | some fault' => exact congrArg Except.error (Option.some.inj faults)

theorem derivative : f.derivative.Alike g.derivative where
  name := congrArg (· ++ "'") alike.name
  variableName := alike.variableName
  params := alike.params
  tree := by
    rw [tree_body_derivative f onLeft, tree_body_derivative g onRight, ← Tree.bare_of onLeft.tree,
      alike.tree, Tree.bare_of onRight.tree]

theorem steps : f.simplifyWithSteps.1 = g.simplifyWithSteps.1 := by
  show f.body.simplify.1 = g.body.simplify.1
  have left : f.body.tree.bare.simplify.1 = f.body.tree.simplify.1 := by rw [Tree.simplify_bare]
  have right : g.body.tree.bare.simplify.1 = g.body.tree.simplify.1 := by rw [Tree.simplify_bare]
  rw [onLeft.simplify_eq.1, onRight.simplify_eq.1, ← left, alike.tree, right]

theorem simplify : f.simplify.Alike g.simplify where
  name := alike.name
  variableName := alike.variableName
  params := alike.params
  tree := by
    show f.body.simplify.2.tree.bare = g.body.simplify.2.tree.bare
    have left : f.body.tree.bare.simplify.2 = f.body.tree.simplify.2.bare := by
      rw [Tree.simplify_bare]
    have right : g.body.tree.bare.simplify.2 = g.body.tree.simplify.2.bare := by
      rw [Tree.simplify_bare]
    rw [onLeft.simplify_eq.2, onRight.simplify_eq.2, ← left, alike.tree, right]

theorem transform (step : Transformation) : (f.transform step).Alike (g.transform step) := by
  cases step with
  | derivative => exact alike.derivative onLeft onRight
  | simplification => exact alike.simplify onLeft onRight

/-- What is done with functions that are alike, step by step, gives functions that are alike. -/
theorem run (steps : List Transformation) : (f.run steps).Alike (g.run steps) := by
  induction steps generalizing f g with
  | nil => exact alike
  | cons step rest ih =>
    exact ih (alike.transform onLeft onRight step) (wellFormed_transform onLeft step)
      (wellFormed_transform onRight step)

end Alike

/-- Equal functions print alike, are accepted or refused for the same reason, and have equal
    derivatives, and the same laws simplify them to equal functions. -/
theorem indistinguishable_of_same (formed : f.body.WellFormed) (formed' : g.body.WellFormed)
    (distinctive : f.body.tree.EveryKind Kind.IsDistinctive)
    (distinctive' : g.body.tree.EveryKind Kind.IsDistinctive) (same : f.same g = true) :
    f.bodyLinear = g.bodyLinear ∧ f.bodyLatex = g.bodyLatex ∧ f.linear = g.linear ∧
      f.latex = g.latex ∧ f.check.mapError (·.fault) = g.check.mapError (·.fault) ∧
      f.derivative.same g.derivative = true ∧ f.simplifyWithSteps.1 = g.simplifyWithSteps.1 ∧
      f.simplifyWithSteps.2.same g.simplifyWithSteps.2 = true := by
  have built := Kind.constructive_isDistinctive
  have alike := (same_iff distinctive distinctive').mp same
  have phrase := alike.phrase formed formed'
  have linear : f.bodyLinear = g.bodyLinear := by rw [bodyLinear, bodyLinear, phrase]
  have latex : f.bodyLatex = g.bodyLatex := by rw [bodyLatex, bodyLatex, phrase]
  refine ⟨linear, latex, ?_, ?_, alike.check formed formed', ?_, alike.steps formed formed', ?_⟩
  · rw [Function.linear, Function.linear, alike.name, alike.variableName, linear]
  · rw [Function.latex, Function.latex, alike.name, alike.variableName, latex]
  · rw [same_iff (everyKind_derivative built formed distinctive)
      (everyKind_derivative built formed' distinctive')]
    exact alike.derivative formed formed'
  · have simplified := everyKind_simplify built formed distinctive
    have simplified' := everyKind_simplify built formed' distinctive'
    exact (same_iff simplified simplified').mpr (alike.simplify formed formed')

/-- The function `f(x)=(0+x)*(1/y)` with its nodes out of order. -/
def scatteredProduct : Function :=
  { name := "f", variableName := "x", params := ⟨["y"]⟩, body := .scattered }

/-- The definition `f(x)=(0+x)*(1/y)`. -/
def sumTimesReciprocal : Definition :=
  ⟨"f", "x", .binary .mul
    (.binary .add (.integer 0 ⟨6, 7⟩) (.name "x" ⟨8, 9⟩) ⟨6, 9⟩)
    (.binary .div (.integer 1 ⟨12, 13⟩) (.name "y" ⟨14, 15⟩) ⟨12, 15⟩) ⟨6, 15⟩⟩

theorem indistinguishable_of_same_scattered :
    let g := ofDefinition sumTimesReciprocal
    scatteredProduct.same g = true ∧ scatteredProduct.body ≠ g.body ∧
      scatteredProduct.bodyLatex = g.bodyLatex ∧
      scatteredProduct.derivative.same g.derivative = true ∧
      scatteredProduct.simplifyWithSteps.1 = g.simplifyWithSteps.1 ∧
      scatteredProduct.simplifyWithSteps.2.same g.simplifyWithSteps.2 = true := by
  intro g
  have formed : scatteredProduct.body.WellFormed :=
    ⟨_, Arena.holds_scattered,
      .binary (.binary (.leaf rfl) (.leaf rfl)) (.binary (.leaf rfl) (.leaf rfl))⟩
  have distinctive : scatteredProduct.body.tree.EveryKind Kind.IsDistinctive := by
    rw [scatteredProduct, Arena.holds_scattered.tree_eq]
    simp [Arena.scatteredLayout, Layout.tree, Tree.EveryKind, Tree.Every, Kind.IsDistinctive]
  have distinctive' : g.body.tree.EveryKind Kind.IsDistinctive := by
    rw [tree_body_ofDefinition]
    simp [sumTimesReciprocal, Term.resolve, Tree.leaf, Tree.EveryKind, Tree.Every,
      Kind.IsDistinctive]
  have same : scatteredProduct.same g = true := by decide +kernel
  obtain ⟨-, latex, -, -, -, derivative, steps, simplified⟩ := indistinguishable_of_same formed
    (wellFormed_body_ofDefinition _) distinctive distinctive' same
  exact ⟨same, by decide +kernel, latex, derivative, steps, simplified⟩

end Function
end Fluxion
