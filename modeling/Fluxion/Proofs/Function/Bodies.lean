import Fluxion.Derivative
import Fluxion.Function
import Fluxion.Proofs.Arena.Building
import Fluxion.Proofs.Tree.Every
/- Bodies of functions. The body of a parsed function is stored from a draft, as that of a
   derivative is, so it holds the tree that was drafted (`tree_body_ofDefinition`) and nothing else
   (`fills_body_ofDefinition`).

   Binding the names of a term makes a well-shaped tree (`Term.wellShaped_resolve`): terms have no
   other shapes than the grammar allows, and each becomes a node with the operands that its kind
   asks for. The parameters of the tree are entries of the table, none of which has the name of the
   variable (`Term.isBound_resolve`); the table grows while the names are bound, but what was
   entered stays where it is (`Term.get?_resolve_of_some`). These are the facts about a new function
   from which everything that becomes of it starts. -/
namespace Fluxion

theorem Term.wellShaped_resolve (term : Term) (variableName : String) (table : ParameterTable) :
    (term.resolve variableName table).1.WellShaped := by
  induction term generalizing table with
  | integer | fraction => exact .leaf rfl
  | name text span =>
    rw [resolve]
    split
    · exact .leaf rfl
    · exact .leaf rfl
  | negate operand span ih => exact .negation (ih table)
  | call f argument span ih => exact .call (ih table)
  | binary op left right span ihLeft ihRight => exact .binary (ihLeft table) (ihRight _)

/-- A parameter has an entry in the table, whose name is not that of the variable. -/
def Kind.IsBound (variableName : String) (table : ParameterTable) (kind : Kind) : Prop :=
  ∀ index, kind = .param index → ∃ name, table.get? index = some name ∧ name ≠ variableName

theorem Term.get?_resolve_of_some (term : Term) (variableName : String) {table : ParameterTable}
    {index : Nat} {name : String} (entry : table.get? index = some name) :
    (term.resolve variableName table).2.get? index = some name := by
  induction term generalizing table with
  | integer | fraction => exact entry
  | name text span =>
    rw [resolve]
    split
    · exact entry
    · exact table.get?_intern_of_some text entry
  | negate operand span ih => exact ih entry
  | call f argument span ih => exact ih entry
  | binary op left right span ihLeft ihRight => exact ihRight (ihLeft entry)

theorem Term.isBound_resolve (term : Term) (variableName : String) (table : ParameterTable) :
    (term.resolve variableName table).1.EveryKind
      (Kind.IsBound variableName (term.resolve variableName table).2) := by
  induction term generalizing table with
  | integer | fraction => exact Tree.everyKind_leaf.mpr nofun
  | name text span =>
    rw [resolve]
    by_cases bound : text = variableName
    · rw [if_pos bound]
      exact Tree.everyKind_leaf.mpr nofun
    · rw [if_neg bound]
      refine Tree.everyKind_leaf.mpr fun index same => ?_
      cases same
      exact ⟨text, table.get?_intern text, bound⟩
  | negate operand span ih => exact ⟨nofun, trivial, ih table⟩
  | call f argument span ih => exact ⟨nofun, trivial, ih table⟩
  | binary op left right span ihLeft ihRight =>
    -- Binding the right operand keeps the entries that the left one made.
    refine ⟨nofun, (ihLeft table).mono fun kind bound index same => ?_, ihRight _⟩
    obtain ⟨name, entry, other⟩ := bound index same
    exact ⟨name, right.get?_resolve_of_some variableName entry, other⟩

namespace Function

/-- The tree of a definition's body, with its names bound. -/
theorem tree_body_ofDefinition (d : Definition) :
    (ofDefinition d).body.tree = (d.body.resolve d.variableName {}).1 := by
  have shaped := d.body.wellShaped_resolve d.variableName {}
  have tree := Draft.tree_copy (d.body.resolve d.variableName {}).1
  rw [ofDefinition, Arena.tree_ofDraft, tree]
  rw [tree]
  exact shaped.ne_absent

theorem fills_body_ofDefinition (d : Definition) :
    ∃ L, (ofDefinition d).body.Fills L ∧ L.tree = (d.body.resolve d.variableName {}).1 := by
  have shaped := d.body.wellShaped_resolve d.variableName {}
  have tree := Draft.tree_copy (d.body.resolve d.variableName {}).1
  rw [← tree] at shaped ⊢
  exact Arena.fills_ofDraft shaped.ne_absent

theorem wellFormed_body_ofDefinition (d : Definition) : (ofDefinition d).body.WellFormed := by
  apply Arena.wellFormed_ofDraft
  rw [Draft.tree_copy]
  exact d.body.wellShaped_resolve d.variableName {}

end Function
end Fluxion
