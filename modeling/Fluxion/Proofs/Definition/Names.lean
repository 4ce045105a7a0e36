import Fluxion.Proofs.Definition.Grammar
/- The names in a body. Binding enters parameters one by one as it comes to them, while the grammar
   looks every name up in the table of all of them. The two agree (`tree_resolve`), since the table
   only grows (`prefix_enter`) and an index once given stays the same (`idxOf_of_prefix`).

   The names of a term are those of the tokens that it was derived from, in the same order and in
   the same places (`Derives.occurrences_eq`): a name in front of a parenthesis is a function, a
   name that is the variable is no parameter, and no other token names anything. So the parameters
   of a derived body are those that binding enters (`parameters_eq`), and each leaf that is a
   parameter stands where its name does (`Derives.leaves_eq`). -/
namespace Fluxion
namespace Grammar

/-! ## Tables of parameters -/

theorem mem_enter (used : List String) (name : String) : name ∈ enter used name := by
  by_cases old : name ∈ used
  · rwa [enter, if_pos old]
  · rw [enter, if_neg old]
    simp

theorem prefix_enter (used : List String) (name : String) : used <+: enter used name := by
  rw [enter]
  split
  · exact List.prefix_rfl
  · exact List.prefix_append used [name]

theorem prefix_foldl_enter (names used : List String) : used <+: names.foldl enter used := by
  induction names generalizing used with
  | nil => exact List.prefix_rfl
  | cons name rest ih => exact (prefix_enter used name).trans (ih (enter used name))

/-- A longer table gives the names of a shorter one the same indexes. -/
theorem idxOf_of_prefix {used all : List String} (longer : used <+: all) {name : String}
    (mem : name ∈ used) : all.idxOf name = used.idxOf name := by
  obtain ⟨more, rfl⟩ := longer
  rw [List.idxOf_append, if_pos mem]

theorem intern_eq (table : ParameterTable) (name : String) :
    table.intern name = ((enter table.names name).idxOf name, ⟨enter table.names name⟩) := by
  rw [ParameterTable.intern]
  cases position : table.position? name with
  | some index =>
    obtain ⟨bound, first⟩ := List.findIdx?_eq_some_iff_findIdx_eq.mp position
    have index_eq : table.names.idxOf name = index := first
    have old : name ∈ table.names := List.idxOf_lt_length_iff.mp (by rwa [index_eq])
    simp only [enter, if_pos old, index_eq]
  | none =>
    have new : name ∉ table.names := by
      intro mem
      have differs := List.findIdx?_eq_none_iff.mp position name mem
      simp at differs
    simp only [ParameterTable.push, ParameterTable.size, enter, if_neg new, List.idxOf_append,
      List.idxOf_cons_self, Nat.zero_add]

/-! ## Names in terms -/

/-- The parameters that a term names, as often as it does. -/
def parameterNames (variableName : String) : Term → List String
  | .integer .. | .fraction .. => []
  | .name text _ => if text = variableName then [] else [text]
  | .negate operand _ => parameterNames variableName operand
  | .call _ argument _ => parameterNames variableName argument
  | .binary _ left right _ => parameterNames variableName left ++ parameterNames variableName right

theorem names_resolve (variableName : String) (t : Term) (table : ParameterTable) :
    (t.resolve variableName table).2.names =
      (parameterNames variableName t).foldl enter table.names := by
  induction t generalizing table with
  | integer | fraction => rfl
  | name text span =>
    rw [Term.resolve, parameterNames]
    by_cases bound : text = variableName
    · rw [if_pos bound, if_pos bound]
      rfl
    · rw [if_neg bound, if_neg bound, intern_eq]
      rfl
  | negate operand span ih => exact ih table
  | call f argument span ih => exact ih table
  | binary op left right span ihLeft ihRight =>
    rw [parameterNames, List.foldl_append, ← ihLeft]
    exact ihRight _

/-- Binding makes the tree of the grammar, whatever else comes into the table later. -/
theorem tree_resolve (variableName : String) (t : Term) (table : ParameterTable)
    {all : List String} (longer : (t.resolve variableName table).2.names <+: all) :
    (t.resolve variableName table).1 = tree variableName all t := by
  induction t generalizing table with
  | integer | fraction => rfl
  | name text span =>
    rw [Term.resolve] at longer ⊢
    rw [tree]
    by_cases bound : text = variableName
    · rw [if_pos bound, if_pos bound]
    · -- The name keeps the index that it got when it was entered.
      rw [if_neg bound, intern_eq] at longer ⊢
      rw [if_neg bound, idxOf_of_prefix longer (mem_enter table.names text)]
  | negate operand span ih =>
    rw [tree, ← ih table longer]
    rfl
  | call f argument span ih =>
    rw [tree, ← ih table longer]
    rfl
  | binary op left right span ihLeft ihRight =>
    -- The left operand was bound in a shorter table than the right one leaves.
    have first : (left.resolve variableName table).2.names <+:
        (right.resolve variableName (left.resolve variableName table).2).2.names := by
      rw [names_resolve variableName right]
      exact prefix_foldl_enter _ _
    rw [tree, ← ihLeft table (first.trans longer), ← ihRight _ longer]
    rfl

/-! ## Names in tokens -/

/-- The parameters that tokens name, with the places of the names. -/
def occurrences (variableName : String) (tokens : List Token) : List (String × Span) :=
  (tokens.filter (isParameter variableName)).map fun t => (t.text, t.span)

/-- The parameters that a term names, with the places of the names. -/
def leaves (variableName : String) : Term → List (String × Span)
  | .integer .. | .fraction .. => []
  | .name text span => if text = variableName then [] else [(text, span)]
  | .negate operand _ => leaves variableName operand
  | .call _ argument _ => leaves variableName argument
  | .binary _ left right _ => leaves variableName left ++ leaves variableName right

theorem named_eq_map (variableName : String) (tokens : List Token) :
    named variableName tokens = (occurrences variableName tokens).map Prod.fst := by
  rw [named, occurrences, List.map_map]
  rfl

theorem parameterNames_eq_map (variableName : String) (t : Term) :
    parameterNames variableName t = (leaves variableName t).map Prod.fst := by
  induction t with
  | integer | fraction => rfl
  | name text span =>
    rw [parameterNames, leaves]
    split <;> rfl
  | negate operand span ih => exact ih
  | call f argument span ih => exact ih
  | binary op left right span ihLeft ihRight =>
    rw [parameterNames, leaves, ihLeft, ihRight, List.map_append]

theorem occurrences_of_blanks {a b : List Token} (blanks : Blanks a b) (variableName : String) :
    occurrences variableName a = occurrences variableName b := by
  obtain ⟨between, blank, rfl⟩ := blanks
  have none : between.filter (isParameter variableName) = [] := by
    rw [List.filter_eq_nil_iff]
    intro t mem
    have kind : t.kind = .blank := eq_of_beq (blank t mem)
    simp [isParameter, kind]
  rw [occurrences, List.filter_append, none, List.nil_append, occurrences]

/-- Only names are parameters. -/
theorem Terminal.occurrences_eq {kind : Token.Kind} {a b : List Token} {token : Token}
    (terminal : Terminal kind a token b) (other : kind ≠ .name) (variableName : String) :
    occurrences variableName a = occurrences variableName b := by
  obtain ⟨rfl, blanks⟩ := terminal
  have noParameter : ¬isParameter variableName token = true := by
    simp [isParameter, other]
  rw [occurrences_of_blanks blanks, occurrences, List.filter_cons_of_neg noParameter, occurrences]

theorem occurrences_of_function {a b : List Token} {word : Token} (name : Terminal .name a word b)
    {f : Elementary} (function : Elementary.ofName? word.text = some f) (variableName : String) :
    occurrences variableName a = occurrences variableName b := by
  have noParameter : ¬isParameter variableName word = true := by
    simp [isParameter, function]
  rw [occurrences_of_blanks name.2, occurrences, List.filter_cons_of_neg noParameter, occurrences]

theorem occurrences_of_name {a b : List Token} {word : Token} (name : Terminal .name a word b)
    (other : Elementary.ofName? word.text = none) (variableName : String) :
    occurrences variableName a =
      leaves variableName (.name word.text word.span) ++ occurrences variableName b := by
  rw [occurrences_of_blanks name.2, leaves]
  by_cases bound : word.text = variableName
  · have noParameter : ¬isParameter variableName word = true := by
      simp [isParameter, bound]
    rw [if_pos bound, occurrences, List.filter_cons_of_neg noParameter, List.nil_append,
      occurrences]
  · have parameter : isParameter variableName word = true := by
      simp [isParameter, bound, name.1, other]
    rw [if_neg bound, occurrences, List.filter_cons_of_pos parameter, List.map_cons]
    rfl

/-- The parameters that a part has read already. -/
def Part.mentioned (variableName : String) : Part → List (String × Span)
  | .rest _ left => leaves variableName left
  | _ => []

theorem Rank.mentioned_operand (rank : Rank) (variableName : String) :
    rank.operand.mentioned variableName = [] := by
  cases rank <;> rfl

theorem Rank.ne_name_of_operator? {rank : Rank} {kind : Token.Kind} {op : BinaryOp}
    (operator : rank.operator? kind = some op) : kind ≠ .name := by
  rintro rfl
  cases rank <;> cases operator

/-- The names of a term are the names of its tokens, and stand in their places. -/
theorem Derives.occurrences_eq {p : Part} {a b : List Token} {t : Term} (derives : Derives p a t b)
    (variableName : String) :
    p.mentioned variableName ++ occurrences variableName a =
      leaves variableName t ++ occurrences variableName b := by
  induction derives with
  | sum _ _ ihStart ihMore => exact ihStart.trans ihMore
  | unsigned _ ih => exact ih
  | plus mark _ ih =>
    have skip := mark.occurrences_eq nofun variableName
    exact (congrArg _ skip).trans ih
  | minus mark _ ih =>
    have skip := mark.occurrences_eq nofun variableName
    exact (congrArg _ skip).trans ih
  | product _ _ ihStart ihMore => exact ihStart.trans ihMore
  | stop => rfl
  | @more a b c d rank mark op left right t operator next _ _ ihOperand ihOthers =>
    -- The names on the left come from the part in front of the rest.
    have skip := next.occurrences_eq (Rank.ne_name_of_operator? operator) variableName
    rw [rank.mentioned_operand] at ihOperand
    calc leaves variableName left ++ occurrences variableName a
        = leaves variableName left ++
            (leaves variableName right ++ occurrences variableName c) := by
          rw [skip, ← ihOperand, List.nil_append]
      _ = (Part.rest rank (join op left right)).mentioned variableName ++
            occurrences variableName c :=
          (List.append_assoc _ _ _).symm
      _ = leaves variableName t ++ occurrences variableName d := ihOthers
  | base _ ih => exact ih
  | @power a b c d mark base exponent _ caret _ ihBase ihExponent =>
    have skip := caret.occurrences_eq nofun variableName
    calc occurrences variableName a
        = leaves variableName base ++ occurrences variableName b := ihBase
      _ = leaves variableName base ++
            (leaves variableName exponent ++ occurrences variableName d) := by
          rw [skip]
          exact congrArg _ ihExponent
      _ = leaves variableName (join .pow base exponent) ++ occurrences variableName d :=
          (List.append_assoc _ _ _).symm
  | enclosed opens _ closes ih =>
    have skip := opens.occurrences_eq nofun variableName
    have skip' := closes.occurrences_eq nofun variableName
    rw [skip'] at ih
    exact (congrArg _ skip).trans ih
  | integer number => exact number.occurrences_eq nofun variableName
  | @fraction a b digits separator places number _ separates fractional =>
    have skip := number.occurrences_eq nofun variableName
    have noSeparator : ¬isParameter variableName separator = true := by
      obtain dot | comma := separates
      · simp [isParameter, dot]
      · simp [isParameter, comma]
    have noPlaces : ¬isParameter variableName places = true := by
      simp [isParameter, fractional]
    refine skip.trans ?_
    rw [occurrences, List.filter_cons_of_neg noSeparator, List.filter_cons_of_neg noPlaces]
    rfl
  | call name function opens _ closes ih =>
    have skip := occurrences_of_function name function variableName
    have skip' := opens.occurrences_eq nofun variableName
    have skip'' := closes.occurrences_eq nofun variableName
    rw [skip''] at ih
    exact (congrArg _ (skip.trans skip')).trans ih
  | name name other => exact occurrences_of_name name other variableName

/-- The parameters of a derived body, with their places, are those of its term. -/
theorem Derives.leaves_eq {body trailing : List Token} {t : Term}
    (derives : Derives .sum body t trailing) (ends : Blanks trailing []) (variableName : String) :
    occurrences variableName body = leaves variableName t := by
  have names : occurrences variableName body =
      leaves variableName t ++ occurrences variableName trailing :=
    derives.occurrences_eq variableName
  have none : occurrences variableName trailing = [] := occurrences_of_blanks ends variableName
  rw [names, none, List.append_nil]

/-- The parameters of a derived body are those that binding enters. -/
theorem parameters_eq {body trailing : List Token} {t : Term}
    (derives : Derives .sum body t trailing) (ends : Blanks trailing []) (variableName : String) :
    parameters variableName body = (t.resolve variableName {}).2.names := by
  rw [names_resolve, parameters, named_eq_map, derives.leaves_eq ends, parameterNames_eq_map]

end Grammar
end Fluxion
