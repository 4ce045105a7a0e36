import Fluxion.Proofs.Definition.Leaves
import Fluxion.Proofs.Definition.Parsing
import Fluxion.Proofs.Notation.Meaning
/- What is known of a function that was parsed, in terms of its tree (`IsWritten`): all its names
   can be written in a source, its integers have no sign, and its table holds the parameters of the
   tree in order of first use, each once. This is read off the derivation of the source by way of
   the term (`everyKind_tree`, `isWritten_of_parse`), and it is all that printing and reading back
   need to know of where a function came from.

   Conversely, a printed tree that is read makes a definition that is parsed: a header of two names
   is put in front of it (`exists_header`), and the term of the body stands for the tree
   (`IsRead.exists_parse`). Both names must be identifiers. Neither half says anything about
   derivatives, which have names with primes and literals of any sign. -/
namespace Fluxion

open Grammar Token

namespace Grammar

theorem nodup_enter {used : List String} (nodup : used.Nodup) (name : String) :
    (enter used name).Nodup := by
  rw [enter]
  split
  · exact nodup
  · next new => exact List.nodup_append_comm.mp (List.nodup_cons.mpr ⟨new, nodup⟩)

theorem nodup_foldl_enter (names : List String) {used : List String} (nodup : used.Nodup) :
    (names.foldl enter used).Nodup := by
  induction names generalizing used with
  | nil => exact nodup
  | cons name rest ih => exact ih (nodup_enter nodup name)

theorem mem_foldl_enter_iff {names used : List String} {name : String} :
    name ∈ names.foldl enter used ↔ name ∈ used ∨ name ∈ names := by
  induction names generalizing used with
  | nil => simp
  | cons first rest ih =>
    have entered : name ∈ enter used first ↔ name ∈ used ∨ name = first := by
      rw [enter]
      split
      · next old => exact ⟨.inl, fun either => either.elim id fun same => same ▸ old⟩
      · simp
    rw [List.foldl_cons, ih, entered, List.mem_cons, or_assoc]

theorem mem_foldl_enter {names : List String} {name : String} (mem : name ∈ names)
    (used : List String) : name ∈ names.foldl enter used :=
  mem_foldl_enter_iff.mpr (.inr mem)

end Grammar

namespace Function

variable {f : Function}

/-! ## Functions of definitions -/

theorem names_params_ofDefinition (d : Definition) : (ofDefinition d).params.names =
    (Grammar.parameterNames d.variableName d.body).foldl enter [] :=
  names_resolve d.variableName d.body {}

theorem tree_body_ofDefinition_eq (d : Definition) : (ofDefinition d).body.tree =
    Grammar.tree d.variableName (ofDefinition d).params.names d.body := by
  rw [tree_body_ofDefinition]
  exact tree_resolve d.variableName d.body {} List.prefix_rfl

/-- What the function calls a leaf of this kind can be written in a source. -/
def IsNamed (f : Function) : Kind → Prop
  | .fraction x => x.IsUnsigned
  | .var => IsFreeName f.variableName
  | .param index => ∃ name, f.params.get? index = some name ∧ name ≠ f.variableName ∧ IsFreeName name
  | _ => True

theorem get?_idxOf {name : String} {params : ParameterTable} (mem : name ∈ params.names) :
    params.get? (params.names.idxOf name) = some name := by
  rw [ParameterTable.get?, List.getElem?_eq_getElem (List.idxOf_lt_length_iff.mpr mem),
    List.getElem_idxOf]

/-- A bound term is made of what it was written with. -/
theorem everyKind_tree {t : Term} (written : Grammar.IsWritten t)
    (known : ∀ name ∈ Grammar.parameterNames f.variableName t, name ∈ f.params.names) :
    let n := Grammar.tree f.variableName f.params.names t
    n.EveryKind f.IsNamed ∧ n.EveryKind Kind.IsNonneg ∧
      f.parameterNames n = Grammar.parameterNames f.variableName t := by
  have other {kind : Kind} (none : kind.integer? = none) := Kind.isNonneg_of_integer?_eq_none none
  induction t with
  | integer n span =>
    refine ⟨Tree.everyKind_leaf.mpr trivial, Tree.everyKind_leaf.mpr ?_, rfl⟩
    rintro m ⟨⟩
    exact written
  | fraction x span =>
    exact ⟨Tree.everyKind_leaf.mpr written, Tree.everyKind_leaf.mpr (other rfl), rfl⟩
  | name text span =>
    simp only [Grammar.tree, Grammar.parameterNames] at known ⊢
    by_cases bound : text = f.variableName
    · simp only [if_pos bound]
      rw [bound] at written
      exact ⟨Tree.everyKind_leaf.mpr written, Tree.everyKind_leaf.mpr (other rfl), rfl⟩
    · simp only [if_neg bound] at known ⊢
      have entry := get?_idxOf (known text (List.mem_singleton_self text))
      refine ⟨Tree.everyKind_leaf.mpr ⟨text, entry, bound, written⟩,
        Tree.everyKind_leaf.mpr (other rfl), ?_⟩
      simp only [parameterNames, Tree.leaf, Tree.paramIndexes, List.map_cons, List.map_nil, entry,
        Option.getD_some]
  | negate operand span ih | call _ operand span ih =>
    obtain ⟨named, nonneg, names⟩ := ih written known
    exact ⟨⟨trivial, trivial, named⟩, ⟨other rfl, trivial, nonneg⟩, names⟩
  | binary op left right span ihLeft ihRight =>
    obtain ⟨namedLeft, nonnegLeft, namesLeft⟩ :=
      ihLeft written.1 fun name mem => known name (List.mem_append_left _ mem)
    obtain ⟨namedRight, nonnegRight, namesRight⟩ :=
      ihRight written.2 fun name mem => known name (List.mem_append_right _ mem)
    refine ⟨⟨trivial, namedLeft, namedRight⟩, ⟨other rfl, nonnegLeft, nonnegRight⟩, ?_⟩
    rw [Grammar.parameterNames, ← namesLeft, ← namesRight]
    exact parameterNames_binary op span _ _

/-! ## Parsed functions -/

/-- The function could have been written as it is. -/
structure IsWritten (f : Function) : Prop where
  formed : f.body.WellFormed
  name : IsIdentifier f.name.toList
  variableName : IsIdentifier f.variableName.toList
  leaves : f.body.tree.EveryKind f.IsNamed
  nonneg : f.body.tree.EveryKind Kind.IsNonneg
  params : f.params.names = (f.parameterNames f.body.tree).foldl enter []

theorem IsWritten.nodup (written : f.IsWritten) : f.params.names.Nodup := by
  rw [written.params]
  exact nodup_foldl_enter _ List.nodup_nil

theorem isWritten_of_parse {source : String} (parsed : parse source = .ok f) : f.IsWritten := by
  obtain ⟨d, read, rfl⟩ := parse_eq_ok_iff.mp parsed
  obtain ⟨body, trailing, header, derives, -⟩ := sound_read read
  have named := areNamed_tokenize source
  have params := names_params_ofDefinition d
  have mem : ∀ name ∈ Grammar.parameterNames d.variableName d.body,
      name ∈ (ofDefinition d).params.names := fun name mem => by
    rw [params]
    exact mem_foldl_enter mem []
  obtain ⟨name, variableName, suffix⟩ := header.isIdentifier named
  obtain ⟨leaves, nonneg, names⟩ := everyKind_tree (f := ofDefinition d)
    (derives.isWritten (named.of_suffix suffix) trivial) mem
  exact ⟨wellFormed_body_ofDefinition d, name, variableName,
    by rw [tree_body_ofDefinition_eq]; exact leaves,
    by rw [tree_body_ofDefinition_eq]; exact nonneg,
    by rw [tree_body_ofDefinition_eq]; exact params.trans (congrArg _ names.symm)⟩

/-! ## Printed functions -/

theorem exists_header (start : Nat) {name variableName : String}
    (onName : IsIdentifier name.toList) (onVariable : IsIdentifier variableName.toList)
    (body : List Char) :
    ∃ stop, Header (scan start (name.toList ++ '(' :: (variableName.toList ++ ')' :: '=' :: body)))
      name variableName (scan stop body) := by
  obtain ⟨named, s₁, rfl, first⟩ := exists_terminal_word start onName
    (apart_cons (c := '(') rfl (variableName.toList ++ ')' :: '=' :: body))
  obtain ⟨opening, s₂, opens⟩ := exists_terminal_mark s₁ (c := '(') rfl (fun _ => rfl)
    (variableName.toList ++ ')' :: '=' :: body)
  obtain ⟨bound, s₃, rfl, second⟩ := exists_terminal_word s₂ onVariable
    (apart_cons (c := ')') rfl ('=' :: body))
  obtain ⟨closing, s₄, closes⟩ := exists_terminal_mark s₃ (c := ')') rfl (fun _ => rfl)
    ('=' :: body)
  obtain ⟨equals, stop, defines⟩ := exists_terminal_mark s₄ (c := '=') rfl (fun _ => rfl) body
  exact ⟨stop, .mk first opens second closes defines⟩

/-- A definition with a printed body is parsed, and the term of its body stands for the tree. -/
theorem exists_parse {name : String} {n : Tree} (onName : IsIdentifier name.toList)
    (onVariable : IsIdentifier f.variableName.toList) (reads : f.Reads .sum false (f.text n) n) :
    ∃ t, f.Stands false t n ∧
      parse (name ++ "(" ++ f.variableName ++ ")=" ++ String.ofList (f.text n)) =
        .ok (ofDefinition ⟨name, f.variableName, t⟩) := by
  have chars : (name ++ "(" ++ f.variableName ++ ")=" ++ String.ofList (f.text n)).toList =
      name.toList ++ '(' :: (f.variableName.toList ++ ')' :: '=' :: (f.text n ++ [])) := by simp
  obtain ⟨start, header⟩ := exists_header 0 onName onVariable (f.text n ++ [])
  obtain ⟨t, stop, derives, stands⟩ := reads start [] apart_nil
  have nothing : scan stop [] = [] := by rw [scan]
  rw [← chars] at header
  rw [nothing] at derives
  refine ⟨t, stands, parse_eq_ok_iff.mpr ⟨_, ?_, rfl⟩⟩
  exact complete_read (c := .ofSource _) header derives (.refl [])

end Function
end Fluxion
