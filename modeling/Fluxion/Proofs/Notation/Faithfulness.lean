import Fluxion.Proofs.Function.Pipeline
import Fluxion.Proofs.Notation.Refusal
import Fluxion.Proofs.Notation.RoundTrip
/- What a printed body is worth. Derivatives and simplification make literals and signs that no
   source has, and print has no parentheses of its own for them. So a print may fail to be read:
   where an operator stands in front of a minus, as in `1+-sin(x)`, it is not read at all
   (`exists_unreadable_derivative`). Where none does, the print of the function and of its
   simplified derivative is read and worth what they are worth, whatever the variable and the
   parameters are (`print_preserves_value`); the two cases leave nothing between.

   What is read need not be the same tree. Sums and products come back grouped to the left, which
   keeps their value, and a power of a negative literal comes back as the opposite of a power, which
   has the same print (`text_power_of_negative`), so no reading could be right about both. Such
   powers are excluded, and so are exponents that are neither leaves nor calls and fractions that
   are too large to be read. -/
namespace Fluxion

open Grammar

namespace Function

variable {f d r : Function}

/-! ## What is rendered -/

theorem constructive_isNamed (f : Function) : Kind.Constructive f.IsNamed :=
  ⟨fun _ => trivial, fun _ => trivial⟩

theorem everyKind_derivative {p : Kind → Prop} (built : Kind.Constructive p)
    (formed : f.body.WellFormed) (every : f.body.tree.EveryKind p) :
    f.derivative.body.tree.EveryKind p := by
  rw [tree_body_derivative f formed]
  exact Derivative.everyKind_of built formed.tree every

theorem everyKind_simplify {p : Kind → Prop} (built : Kind.Constructive p)
    (formed : f.body.WellFormed) (every : f.body.tree.EveryKind p) :
    f.simplify.body.tree.EveryKind p := by
  have tree : f.simplify.body.tree = f.body.tree.simplify.2 := formed.simplify_eq.2
  rw [tree]
  exact every.simplify built

/-- No transformation has a new name for a leaf. -/
theorem everyKind_run {p : Kind → Prop} (built : Kind.Constructive p) (sound : f.IsSound)
    (every : f.body.tree.EveryKind p) (steps : List Transformation) :
    (f.run steps).body.tree.EveryKind p := by
  induction steps generalizing f with
  | nil => exact every
  | cons step rest ih =>
    refine ih (sound.transform step) ?_
    cases step with
    | derivative => exact everyKind_derivative built sound.wellFormed every
    | simplification => exact everyKind_simplify built sound.wellFormed every

theorem isNamed_congr (variableName : r.variableName = f.variableName) (params : r.params = f.params) :
    r.IsNamed = f.IsNamed := by
  funext kind
  cases kind <;> simp only [IsNamed, variableName, params]

theorem differentiate_eq_ok {source : String} (accepted : differentiate source = .ok (f, d)) :
    parse source = .ok f ∧ d = f.derivative.simplify := by
  rw [differentiate] at accepted
  obtain ⟨g, parsed, rest⟩ := bind_eq_ok.mp accepted
  obtain ⟨_, -, rest⟩ := bind_eq_ok.mp rest
  cases rest
  refine ⟨?_, rfl⟩
  cases result : parse source with
  | error e =>
    rw [result] at parsed
    cases parsed
  | ok h =>
    rw [result] at parsed
    cases parsed
    rfl

theorem differentiate_of_parse {source : String} (parsed : parse source = .ok f)
    (checked : f.check = .ok ()) : differentiate source = .ok (f, f.derivative.simplify) := by
  rw [differentiate, parsed]
  simp only [Except.mapError, bind, Except.bind, checked]

theorem tree_derivative_simplify (formed : f.body.WellFormed) :
    f.derivative.simplify.body.tree = (Derivative.of f.body.tree).tree.simplify.2 := by
  have derived := wellFormed_body_derivative f formed
  have simplified : f.derivative.simplify.body.tree = f.derivative.body.tree.simplify.2 :=
    derived.simplify_eq.2
  rw [simplified, tree_body_derivative f formed]

/-! ## What is read -/

theorem IsWritten.isReadable_run (written : f.IsWritten) (sound : f.IsSound)
    (steps : List Transformation) (exponents : (f.run steps).body.tree.HasSimpleExponents)
    (signs : (f.run steps).body.tree.HasReadableSigns)
    (small : (f.run steps).body.tree.EveryKind Kind.IsSmall) :
    (f.run steps).IsReadable (f.run steps).body.tree := by
  have leaves := everyKind_run (constructive_isNamed f) sound written.leaves steps
  rw [← isNamed_congr (variableName_run f steps) (params_run f steps)] at leaves
  exact ⟨(sound.run steps).wellFormed.tree, everyKind_isLegible leaves small, signs, exponents⟩

section
variable {K : Type*} [Field K] [DecidableEq K] (ι : Interpretation K) (σ : String → K)

/-- A definition of a term that stands for a tree has the value of the tree. -/
theorem Stands.value?_ofDefinition {u : Term} {t : Tree} (stands : f.Stands false u t)
    (name : String) :
    (ofDefinition ⟨name, f.variableName, u⟩).body.tree.value?
        (ι.named (ofDefinition ⟨name, f.variableName, u⟩).params σ) =
      t.value? (ι.named f.params σ) := by
  rw [tree_body_ofDefinition_eq]
  refine stands.value?_eq fun parameter mem => ?_
  show parameter ∈ (ofDefinition ⟨name, f.variableName, u⟩).params.names
  rw [names_params_ofDefinition]
  exact mem_foldl_enter mem []

theorem value?_of_regroups {t t' : Tree} (steps : Relation.ReflTransGen Tree.Regroups t t')
    (shaped : t.WellShaped) : t'.value? ι = t.value? ι := by
  have both : t'.WellShaped ∧ t'.value? ι = t.value? ι :=
    Tree.regroups_induction (p := fun n => n.WellShaped ∧ n.value? ι = t.value? ι)
      (fun _ _ step before => ⟨step.wellShaped before.1, (step.value?_eq before.1).trans before.2⟩)
      steps ⟨shaped, rfl⟩
  exact both.2

end

/-- What is printed after a run, if it can be read, is worth what the function is worth. -/
theorem IsWritten.print_run (written : f.IsWritten) (sound : f.IsSound) (steps : List Transformation)
    (exponents : (f.run steps).body.tree.HasSimpleExponents)
    (signs : (f.run steps).body.tree.HasReadableSigns)
    (small : (f.run steps).body.tree.EveryKind Kind.IsSmall) :
    ∃ g, parse (f.name ++ "(" ++ f.variableName ++ ")=" ++ (f.run steps).bodyLinear) = .ok g ∧
      g.variableName = f.variableName ∧
      ∀ (K : Type*) [Field K] [DecidableEq K] (ι : Interpretation K) (σ : String → K),
        g.body.tree.value? (ι.named g.params σ) =
          (f.run steps).body.tree.value? (ι.named (f.run steps).params σ) := by
  have readable := written.isReadable_run sound steps exponents signs small
  obtain ⟨t, grouping, grouped⟩ := Tree.exists_isLeftGrouped (f.run steps).body.tree
  have variableName := written.variableName
  rw [← variableName_run f steps] at variableName ⊢
  obtain ⟨u, stands, again⟩ := readable.exists_parse grouping grouped written.name variableName
  rw [bodyLinear_eq (sound.run steps).wellFormed]
  refine ⟨_, again, rfl, fun K _ _ ι σ => ?_⟩
  rw [stands.value?_ofDefinition, value?_of_regroups _ grouping readable.shaped]

/-- A power of a negative literal is printed like the opposite of a power, so no reading can be
    right about both. -/
theorem text_power_of_negative {n : Int64} (negative : n < 0) (bounded : n ≠ .minValue)
    (span : Span) (exponent : Tree) (f : Function) :
    f.text (.node (.operator (.binary .pow)) span (.leaf (.integer n) span) exponent) =
      f.text (.node (.operator (.binary .sub)) span .absent
        (.node (.operator (.binary .pow)) span (.leaf (.integer (-n)) span) exponent)) := by
  obtain ⟨k, digits, opposite⟩ := exists_digits_of_negative negative bounded
  have base : f.text (.leaf (.integer n) span) = '-' :: f.text (.leaf (.integer (-n)) span) := by
    show Phrase.decimal n.toInt = '-' :: Phrase.decimal (-n).toInt
    rw [digits, opposite]
    rfl
  have power (m : Int64) :
      f.text (.node (.operator (.binary .pow)) span (.leaf (.integer m) span) exponent) =
        f.text (.leaf (.integer m) span) ++ '^' :: f.text exponent := by
    rw [text_binary, List.append_assoc]
    rfl
  have negation (t : Tree) : f.text (.node (.operator (.binary .sub)) span .absent t) =
      '-' :: f.operandText .sub true t := text_binary ..
  rw [power, base, negation, List.cons_append, ← power]
  rfl

/-- What the program prints for a source, if its exponents are leaves or calls, no power has a
    negative literal for its base and its fractions are less than `2 ^ 63`, is read as an
    expression with the same value, whatever the variable and the parameters are, exactly if
    no operator stands in front of a minus and no literal is the least integer. Where one
    does, the print is not read at all. -/
theorem print_preserves_value {source : String} (accepted : differentiate source = .ok (f, d))
    (rendered : r = f ∨ r = d ∨ r = f.simplify) (exponents : r.body.tree.HasSimpleExponents)
    (bases : r.body.tree.Every Tree.BaseIsUnsigned) (small : r.body.tree.EveryKind Kind.IsSmall) :
    (∃ g, parse (f.name ++ "(" ++ f.variableName ++ ")=" ++ r.bodyLinear) = .ok g ∧
      g.variableName = f.variableName ∧
      ∀ (K : Type*) [Field K] [DecidableEq K] (ι : Interpretation K) (σ : String → K),
        g.body.tree.value? (ι.named g.params σ) = r.body.tree.value? (ι.named r.params σ)) ↔
      r.body.tree.Every Tree.SignIsReadable := by
  obtain ⟨parsed, rfl⟩ := differentiate_eq_ok accepted
  obtain ⟨steps, rfl⟩ : ∃ steps, r = f.run steps := by
    obtain rfl | rfl | rfl := rendered
    · exact ⟨[], rfl⟩
    · exact ⟨[.derivative, .simplification], rfl⟩
    · exact ⟨[.simplification], rfl⟩
  have sound := isSound_of_parse parsed
  constructor
  · rintro ⟨g, again, -⟩
    rw [bodyLinear_eq (sound.run steps).wellFormed] at again
    exact every_signIsReadable_of_parse (sound.run steps).wellFormed.tree again
  · intro signs
    exact (isWritten_of_parse parsed).print_run sound steps exponents (signs.and bases) small

/-- The definition `f(x)=a-x^3`. -/
def differenceOfCube : Definition :=
  ⟨"f", "x", .binary .sub (.name "a" ⟨5, 6⟩)
    (.binary .pow (.name "x" ⟨7, 8⟩) (.integer 3 ⟨9, 10⟩) ⟨7, 10⟩) ⟨5, 10⟩⟩

theorem print_preserves_value_differenceOfCube :
    ∃ f d, differentiate "f(x)=a-x^3" = .ok (f, d) ∧ d.body.tree.HasSimpleExponents ∧
      d.body.tree.Every Tree.BaseIsUnsigned ∧ d.body.tree.EveryKind Kind.IsSmall ∧
      d.body.tree.Every Tree.SignIsReadable ∧ d.bodyLinear = "-3*x^2" ∧
      ∃ g, parse "f(x)=-3*x^2" = .ok g ∧ g.variableName = "x" ∧
        ∀ (K : Type) [Field K] [DecidableEq K] (ι : Interpretation K) (σ : String → K),
          g.body.tree.value? (ι.named g.params σ) = d.body.tree.value? (ι.named d.params σ) := by
  have read : Definition.parse "f(x)=a-x^3" = .ok differenceOfCube := by decide +kernel
  have parsed := parse_eq_ok_iff.mpr ⟨_, read, rfl⟩
  have accepted := differentiate_of_parse parsed (by decide +kernel)
  have tree : (ofDefinition differenceOfCube).derivative.simplify.body.tree =
      .node (.operator (.binary .sub)) .nowhere .absent
        (.node (.operator (.binary .mul)) .nowhere (.leaf (.integer 3) ⟨9, 10⟩)
          (.node (.operator (.binary .pow)) .nowhere (.leaf .var ⟨7, 8⟩)
            (.leaf (.integer 2) .nowhere))) := by
    rw [tree_derivative_simplify (wellFormed_body_ofDefinition _), tree_body_ofDefinition]
    decide +kernel
  have text : (ofDefinition differenceOfCube).derivative.simplify.bodyLinear = "-3*x^2" := by
    decide +kernel
  generalize (ofDefinition differenceOfCube).derivative.simplify = d at accepted tree text
  have exponents : d.body.tree.HasSimpleExponents := by
    rw [tree]
    simp [Tree.leaf, Tree.HasSimpleExponents, Tree.Every, Tree.ExponentIsSimple, Tree.operator?,
      Kind.operator?]
  have bases : d.body.tree.Every Tree.BaseIsUnsigned := by
    rw [tree]
    simp [Tree.leaf, Tree.Every, Tree.BaseIsUnsigned, Tree.integer?, Kind.integer?]
  have small : d.body.tree.EveryKind Kind.IsSmall := by
    rw [tree]
    simp [Tree.leaf, Tree.EveryKind, Tree.Every, Kind.IsSmall]
  have signs : d.body.tree.Every Tree.SignIsReadable := by
    rw [tree]
    simp [Tree.leaf, Tree.Every, Tree.SignIsReadable, Tree.BeginsWithMinus]
    decide
  have printed := (print_preserves_value accepted (.inr (.inl rfl)) exponents bases small).mpr signs
  rw [text] at printed
  exact ⟨_, d, accepted, exponents, bases, small, signs, text, printed⟩

/-- The definition `f(x)=x+cos(x)`. -/
def sumWithCosine : Definition :=
  ⟨"f", "x", .binary .add (.name "x" ⟨5, 6⟩) (.call .cos (.name "x" ⟨11, 12⟩) ⟨7, 13⟩) ⟨5, 13⟩⟩

/-- The derivative of a sum can be a sum with a change of sign on its right, and print does not
    enclose it. -/
theorem exists_unreadable_derivative :
    ∃ f d, differentiate "f(x)=x+cos(x)" = .ok (f, d) ∧ d.body.tree.HasSimpleExponents ∧
      d.body.tree.EveryKind Kind.IsSmall ∧ d.bodyLinear = "1+-sin(x)" ∧
      ∀ g, parse (f.name ++ "(" ++ f.variableName ++ ")=" ++ d.bodyLinear) ≠ .ok g := by
  have read : Definition.parse "f(x)=x+cos(x)" = .ok sumWithCosine := by decide +kernel
  have parsed := parse_eq_ok_iff.mpr ⟨_, read, rfl⟩
  have accepted := differentiate_of_parse parsed (by decide +kernel)
  have tree : (ofDefinition sumWithCosine).derivative.simplify.body.tree =
      .node (.operator (.binary .add)) .nowhere (.leaf (.integer 1) .nowhere)
        (.node (.operator (.binary .sub)) .nowhere .absent
          (.node (.operator (.apply .sin)) .nowhere .absent (.leaf .var ⟨11, 12⟩))) := by
    rw [tree_derivative_simplify (wellFormed_body_ofDefinition _), tree_body_ofDefinition]
    decide +kernel
  have text : (ofDefinition sumWithCosine).derivative.simplify.bodyLinear = "1+-sin(x)" := by
    decide +kernel
  have refused : (parse "f(x)=1+-sin(x)").toOption = none := by decide +kernel
  refine ⟨_, _, accepted, ?_, ?_, text, fun g parsed => ?_⟩
  · rw [tree]
    simp [Tree.leaf, Tree.HasSimpleExponents, Tree.Every, Tree.ExponentIsSimple]
  · rw [tree]
    simp [Tree.leaf, Tree.EveryKind, Tree.Every, Kind.IsSmall]
  · rw [text] at parsed
    rw [show parse "f(x)=1+-sin(x)" = .ok g from parsed] at refused
    cases refused

end Function
end Fluxion
