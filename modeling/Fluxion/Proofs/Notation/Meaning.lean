import Fluxion.Proofs.Definition.Names
import Fluxion.Proofs.Notation.Reading
/- What a term that stands for a tree makes of it. A term stands for a tree if it is what a reader
   makes of the tree's print; names are given by their text and places do not count, and a negative
   literal may have come back as a change of sign.

   Binding the term gives the tree back, up to places, if the tree has no negative literals
   (`Stands.bare_tree`). It names the parameters of the tree in their order
   (`Stands.parameterNames_eq`), so the table that binding makes is the one of the function as far
   as the tree uses it. And with every parameter given by name (`Interpretation.named`) it has the
   value of the tree, negative literals or not, or no value where the tree has none
   (`Stands.value?_eq`). A change of sign may be pulled out of products and quotients, but not out
   of powers, which is where readable signs come in. -/
namespace Fluxion

/-- Gives every parameter of a table the element of its name. -/
def Interpretation.named {K : Type*} (ι : Interpretation K) (params : ParameterTable)
    (σ : String → K) : Interpretation K :=
  { ι with param := fun index => σ ((params.get? index).getD "?") }

namespace Function

open Grammar

variable {f : Function} {opposite : Bool} {t : Term} {n : Tree}

theorem Stands.ne_absent (stands : f.Stands opposite t n) : n ≠ .absent := by
  induction stands with
  | sign _ ih => exact ih
  | _ => exact Tree.noConfusion

/-- The names of the parameters of a tree, from left to right. -/
def parameterNames (f : Function) (n : Tree) : List String :=
  n.paramIndexes.map fun index => (f.params.get? index).getD "?"

theorem parameterNames_binary (op : BinaryOp) (span : Span) (l r : Tree) :
    f.parameterNames (.node (.operator (.binary op)) span l r) =
      f.parameterNames l ++ f.parameterNames r :=
  List.map_append

theorem Stands.parameterNames_eq (stands : f.Stands opposite t n) :
    Grammar.parameterNames f.variableName t = f.parameterNames n := by
  induction stands with
  | integer | negative | fraction => rfl
  | var => exact if_pos rfl
  | param entry other =>
    rw [Grammar.parameterNames, if_neg other, parameterNames]
    simp [Tree.paramIndexes, Tree.leaf, entry]
  | negation _ ih | sign _ ih | call _ ih => exact ih
  | binary _ _ _ ihLeft ihRight =>
    rw [Grammar.parameterNames, ihLeft, ihRight, parameterNames_binary]

/-- Without negative literals the tree itself is read. -/
theorem Stands.bare_tree (stands : f.Stands opposite t n) (nodup : f.params.names.Nodup)
    (nonneg : n.EveryKind Kind.IsNonneg) :
    opposite = false ∧ (Grammar.tree f.variableName f.params.names t).bare = n.bare := by
  induction stands with
  | integer | fraction => exact ⟨rfl, rfl⟩
  | negative below => exact absurd (nonneg.1 _ rfl) (Int64.not_le.mpr below)
  | var => exact ⟨rfl, by rw [Grammar.tree, if_pos rfl]; rfl⟩
  | @param index name s s' entry other =>
    obtain ⟨bound, same⟩ := List.getElem?_eq_some_iff.mp entry
    have position : f.params.names.idxOf name = index := by
      rw [← same]
      exact nodup.idxOf_getElem index bound
    exact ⟨rfl, by rw [Grammar.tree, if_neg other, position]; rfl⟩
  | negation _ ih | call _ ih =>
    refine ⟨rfl, ?_⟩
    simp only [Grammar.tree, Tree.bare, (ih nonneg.2.2).2]
  | sign _ ih => cases (ih nonneg).1
  | binary _ _ _ ihLeft ihRight =>
    obtain ⟨same, left⟩ := ihLeft nonneg.2.1
    refine ⟨same, ?_⟩
    simp only [Grammar.tree, Tree.bare, left, (ihRight nonneg.2.2).2]

section
variable {K : Type*} [Field K] [DecidableEq K] {ι : Interpretation K} {σ : String → K}

theorem tree_ne_absent (variableName : String) (all : List String) (t : Term) :
    Grammar.tree variableName all t ≠ .absent := by
  cases t with
  | name =>
    rw [Grammar.tree]
    split <;> exact Tree.noConfusion
  | _ => exact Tree.noConfusion

theorem operation?_neg {op : BinaryOp} (factors : op = .mul ∨ op = .div) (u v : K) :
    ι.operation? op (-u) v = (ι.operation? op u v).map (-·) := by
  obtain rfl | rfl := factors
  · simp [Interpretation.operation?, neg_mul]
  · by_cases zero : v = 0
    · simp [Interpretation.operation?, zero]
    · simp [Interpretation.operation?, zero, neg_div]

theorem Stands.value?_eq (stands : f.Stands opposite t n) {all : List String}
    (known : ∀ name ∈ Grammar.parameterNames f.variableName t, name ∈ all) :
    (Grammar.tree f.variableName all t).value? (ι.named ⟨all⟩ σ) =
      if opposite then (n.value? (ι.named f.params σ)).map (-·) else n.value? (ι.named f.params σ) := by
  induction stands with
  | integer | fraction => rfl
  | negative _ exact =>
    simp only [Grammar.tree, Tree.leaf, Tree.value?, exact, Option.map_some, if_true, Int.cast_neg]
  | var =>
    rw [Grammar.tree, if_pos rfl]
    rfl
  | @param index name s s' entry other =>
    have mem : name ∈ all := by
      apply known
      rw [Grammar.parameterNames, if_neg other]
      exact List.mem_singleton_self name
    have found : ParameterTable.get? ⟨all⟩ (all.idxOf name) = some name := by
      rw [ParameterTable.get?, List.getElem?_eq_getElem (List.idxOf_lt_length_iff.mpr mem),
        List.getElem_idxOf]
    rw [Grammar.tree, if_neg other]
    simp only [Tree.leaf, Tree.value?, Interpretation.named, found, entry, Bool.false_eq_true, if_false]
  | negation _ ih =>
    simp only [Grammar.tree, Tree.value?, ih known, Bool.false_eq_true, if_false]
  | sign _ ih =>
    simp only [Grammar.tree, Tree.value?, ih known, if_true, Bool.false_eq_true, if_false,
      Option.map_map, Function.comp_def, neg_neg, Option.map_id']
  | call _ ih =>
    simp only [Grammar.tree, Tree.value?, ih known, Bool.false_eq_true, if_false]
    rfl
  | @binary op opposite t u l r s s' factors left right ihLeft ihRight =>
    have onLeft := ihLeft fun name mem => known name (List.mem_append_left _ mem)
    have onRight := ihRight fun name mem => known name (List.mem_append_right _ mem)
    rw [Grammar.tree, Tree.value?_binary_eq (tree_ne_absent _ _ _), Tree.value?_binary_eq left.ne_absent,
      onLeft, onRight]
    cases opposite with
    | false => rfl
    | true =>
      -- The sign of a product is that of its first factor.
      cases l.value? (ι.named f.params σ) with
      | none => rfl
      | some u =>
        cases r.value? (ι.named f.params σ) with
        | none => rfl
        | some v => exact operation?_neg (factors rfl) u v

end
end Function
end Fluxion
