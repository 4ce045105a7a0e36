import Fluxion.Proofs.Notation.Parsed
import Fluxion.Proofs.Notation.Printed
/- Definitions are read back from print (`linear_reads_back`). Print leaves out the parentheses that
   sums and products would need on their right, so what is read is the tree with all of them moved
   to the left. There is such a tree and it is unique; the names, the table and everything else
   about the function stay as they were, and printed again, the definition is the same.

   Three things are asked of a parsed function. Its exponents are leaves or calls, since any other
   is printed without the parentheses that it had. No change of sign follows a plus, which would not
   be read. Its fractions are less than `2 ^ 63`, because the number in front of a point has to be
   read as an integer. The rest is known of every parsed function (`IsWritten.isReadable`). -/
namespace Fluxion

open Grammar Token

/-- A fraction of this kind is less than `2 ^ 63`, as the number in front of a point has
    to be. -/
def Kind.IsSmall (kind : Kind) : Prop := ∀ x, kind = .fraction x → x.IsBelow (2 ^ 63)

namespace Function

variable {f g : Function} {t t' : Tree}

theorem isLegible_of_isNamed {kind : Kind} (named : f.IsNamed kind) (small : kind.IsSmall) :
    f.IsLegible kind := by
  cases kind with
  | fraction x => exact Binary64.readsBack named (small x rfl)
  | integer | var | param | operator => exact named

theorem everyKind_isLegible (named : t.EveryKind f.IsNamed) (small : t.EveryKind Kind.IsSmall) :
    t.EveryKind f.IsLegible :=
  (Tree.Every.and named small).mono fun _ _ _ both => isLegible_of_isNamed both.1 both.2

theorem IsReadable.regroups (readable : f.IsReadable t) (step : t.Regroups t') : f.IsReadable t' :=
  ⟨step.wellShaped readable.shaped, step.everyKind readable.legible,
    step.hasReadableSigns readable.signs, step.hasSimpleExponents readable.exponents⟩

/-- What is printed depends on the names of leaves alone. -/
theorem text_congr (variableName : g.variableName = f.variableName) (params : g.params = f.params)
    (t : Tree) : g.text t = f.text t := by
  have leaves : g.leafPhrase = f.leafPhrase := by
    funext kind
    cases kind <;> simp only [leafPhrase, variableName, params]
  rw [text, text, leaves]

/-- The print of a readable tree is read as any tree that it is grouped to. -/
theorem IsReadable.exists_parse (readable : f.IsReadable t)
    (steps : Relation.ReflTransGen Tree.Regroups t t') (grouped : t'.IsLeftGrouped) {name : String}
    (onName : IsIdentifier name.toList) (onVariable : IsIdentifier f.variableName.toList) :
    ∃ u, f.Stands false u t' ∧
      parse (name ++ "(" ++ f.variableName ++ ")=" ++ String.ofList (f.text t)) =
        .ok (ofDefinition ⟨name, f.variableName, u⟩) := by
  have readable' : f.IsReadable t' :=
    Tree.regroups_induction (fun _ _ step readable => readable.regroups step) steps readable
  rw [← Tree.eq_of_regroups f.text (fun _ _ step => step.text_eq f) steps]
  exact Function.exists_parse onName onVariable (readable'.isRead grouped).sum

theorem IsWritten.isReadable (written : f.IsWritten) (exponents : f.body.tree.HasSimpleExponents)
    (unsigned : f.body.tree.Every Tree.PlusIsUnsigned) (small : f.body.tree.EveryKind Kind.IsSmall) :
    f.IsReadable f.body.tree :=
  ⟨written.formed.tree, everyKind_isLegible written.leaves small,
    Tree.hasReadableSigns_of_plusIsUnsigned written.nonneg exponents unsigned, exponents⟩

/-- A written function is read back from its print, with its tree grouped to the left. -/
theorem IsWritten.reads_back (written : f.IsWritten) (readable : f.IsReadable f.body.tree)
    (steps : Relation.ReflTransGen Tree.Regroups f.body.tree t) (grouped : t.IsLeftGrouped) :
    ∃ g, parse f.linear = .ok g ∧ g.name = f.name ∧ g.variableName = f.variableName ∧
      g.params = f.params ∧ g.body.tree.bare = t.bare ∧ g.linear = f.linear := by
  obtain ⟨u, stands, parsed⟩ := readable.exists_parse steps grouped written.name written.variableName
  rw [← bodyLinear_eq written.formed] at parsed
  have order := Tree.eq_of_regroups Tree.paramIndexes (fun _ _ step => step.paramIndexes_eq) steps
  have nonneg : t.EveryKind Kind.IsNonneg :=
    Tree.regroups_induction (fun _ _ step => step.everyKind) steps written.nonneg
  have text := Tree.eq_of_regroups f.text (fun _ _ step => step.text_eq f) steps
  let d : Definition := ⟨f.name, f.variableName, u⟩
  have names : (ofDefinition d).params.names = f.params.names := by
    rw [names_params_ofDefinition, stands.parameterNames_eq, parameterNames, order, written.params]
    rfl
  have params : (ofDefinition d).params = f.params := congrArg ParameterTable.mk names
  have tree : (ofDefinition d).body.tree.bare = t.bare := by
    rw [tree_body_ofDefinition_eq, names]
    exact (stands.bare_tree written.nodup nonneg).2
  refine ⟨ofDefinition d, parsed, rfl, rfl, params, tree, ?_⟩
  have body : (ofDefinition d).bodyLinear = f.bodyLinear := by
    rw [bodyLinear_eq (wellFormed_body_ofDefinition d), bodyLinear_eq written.formed,
      text_congr (g := ofDefinition d) (f := f) rfl params, ← Tree.text_bare, tree, Tree.text_bare, text]
  rw [linear, linear, body]
  rfl

/-- A parsed function is read back from its definition in print, if its exponents are leaves
    or calls, no change of sign follows a plus and its fractions are less than `2 ^ 63`. The
    names are the same, and the tree is the one with all sums and products grouped to the
    left; there is such a tree, and it is unique. Printed again, the definition is the same. -/
theorem linear_reads_back {source : String} (parsed : parse source = .ok f)
    (exponents : f.body.tree.HasSimpleExponents) (unsigned : f.body.tree.Every Tree.PlusIsUnsigned)
    (small : f.body.tree.EveryKind Kind.IsSmall) :
    ∃ g, parse f.linear = .ok g ∧ g.name = f.name ∧ g.variableName = f.variableName ∧
      g.params = f.params ∧
      (∃ t, Relation.ReflTransGen Tree.Regroups f.body.tree t ∧ t.IsLeftGrouped) ∧
      (∀ t, Relation.ReflTransGen Tree.Regroups f.body.tree t → t.IsLeftGrouped →
        g.body.tree.bare = t.bare) ∧ g.linear = f.linear := by
  have written := isWritten_of_parse parsed
  have readable := written.isReadable exponents unsigned small
  obtain ⟨t, steps, grouped⟩ := Tree.exists_isLeftGrouped f.body.tree
  obtain ⟨g, again, name, variableName, params, -, linear⟩ := written.reads_back readable steps grouped
  refine ⟨g, again, name, variableName, params, ⟨t, steps, grouped⟩, fun t' steps' grouped' => ?_,
    linear⟩
  -- Parsing has one result, whatever tree the steps lead to.
  obtain ⟨g', again', -, -, -, tree, -⟩ := written.reads_back readable steps' grouped'
  rw [again] at again'
  cases again'
  exact tree

/-- The definition `f(x)=a+(x^2-1.5)`. -/
def sumOfDifference : Definition :=
  ⟨"f", "x", .binary .add (.name "a" ⟨5, 6⟩)
    (.binary .sub (.binary .pow (.name "x" ⟨8, 9⟩) (.integer 2 ⟨10, 11⟩) ⟨8, 11⟩)
      (.fraction (.ofPlaces ['1'] ['5']) ⟨12, 15⟩) ⟨8, 15⟩) ⟨5, 15⟩⟩

/-- The tree of `a+x^2-1.5`, made of the parts of the other. -/
def differenceOfSum : Tree :=
  .node (.operator (.binary .sub)) ⟨5, 15⟩
    (.node (.operator (.binary .add)) ⟨5, 11⟩ (.leaf (.param 0) ⟨5, 6⟩)
      (.node (.operator (.binary .pow)) ⟨8, 11⟩ (.leaf .var ⟨8, 9⟩) (.leaf (.integer 2) ⟨10, 11⟩)))
    (.leaf (.fraction (.ofPlaces ['1'] ['5'])) ⟨12, 15⟩)

theorem isBelow_oneAndHalf : (Binary64.ofPlaces ['1'] ['5']).IsBelow (2 ^ 63) := by
  have rank : Binary64.ofPlaces ['1'] ['5'] = .finite false ⟨4609434218613702656, by decide⟩ := by
    decide +kernel
  rw [rank]
  exact .inr (by decide +kernel)

theorem linear_reads_back_sumOfDifference :
    ∃ f g, parse "f(x)=a+(x^2-1.5)" = .ok f ∧ f.body.tree.HasSimpleExponents ∧
      f.body.tree.Every Tree.PlusIsUnsigned ∧ f.body.tree.EveryKind Kind.IsSmall ∧
      f.linear = "f(x)=a+x^2-1.5" ∧ parse f.linear = .ok g ∧ g.params.names = ["a"] ∧
      g.body.tree.bare = differenceOfSum.bare := by
  have read : Definition.parse "f(x)=a+(x^2-1.5)" = .ok sumOfDifference := by decide +kernel
  have parsed := parse_eq_ok_iff.mpr ⟨_, read, rfl⟩
  have tree : (ofDefinition sumOfDifference).body.tree =
      .node (.operator (.binary .add)) ⟨5, 15⟩ (.leaf (.param 0) ⟨5, 6⟩)
        (.node (.operator (.binary .sub)) ⟨8, 15⟩
          (.node (.operator (.binary .pow)) ⟨8, 11⟩ (.leaf .var ⟨8, 9⟩) (.leaf (.integer 2) ⟨10, 11⟩))
          (.leaf (.fraction (.ofPlaces ['1'] ['5'])) ⟨12, 15⟩)) := by
    rw [tree_body_ofDefinition]
    rfl
  have exponents : (ofDefinition sumOfDifference).body.tree.HasSimpleExponents := by
    rw [tree]
    simp [Tree.leaf, Tree.HasSimpleExponents, Tree.Every, Tree.ExponentIsSimple, Tree.operator?,
      Kind.operator?]
  have unsigned : (ofDefinition sumOfDifference).body.tree.Every Tree.PlusIsUnsigned := by
    rw [tree]
    simp [Tree.leaf, Tree.Every, Tree.PlusIsUnsigned, Tree.LeadsToNegation]
  have small : (ofDefinition sumOfDifference).body.tree.EveryKind Kind.IsSmall := by
    rw [tree]
    simp [Tree.leaf, Tree.EveryKind, Tree.Every, Kind.IsSmall, isBelow_oneAndHalf, -Nat.reducePow]
  obtain ⟨g, again, -, -, params, -, grouped, -⟩ := linear_reads_back parsed exponents unsigned small
  have step : (ofDefinition sumOfDifference).body.tree.Regroups differenceOfSum := by
    rw [tree]
    exact .here .addSub (by exact Tree.noConfusion)
  have last : differenceOfSum.IsLeftGrouped := by
    intro t step
    repeat' first | cases ‹BinaryOp.Associates _ _› | cases ‹Tree.Regroups _ _›
  refine ⟨_, g, parsed, exponents, unsigned, small, by decide +kernel, again, ?_, ?_⟩
  · rw [params]
    rfl
  · exact grouped _ (.single step) last

end Function
end Fluxion
