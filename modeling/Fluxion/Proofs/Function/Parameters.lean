import Fluxion.Proofs.Function.SourceSpans
/- The table of parameters. Whatever is entered into a table, pushed or interned, every index that
   was answered leads to its name from then on (`ParameterTable.get?_run`), a name is found at its
   first index, and interning it again changes nothing (`intern_of_mem`). This is said of any table
   and any sequence of entries.

   The table of a parsed function is filled by binding the names of its body. A body names its
   parameters in the same places as its tokens do (`Grammar.Derives.leaves_eq`), so the table lists
   the free names of the body, and nothing else, each once and in order of their first occurrence,
   and each leaf has the index of the name that stands under its span (`parse_listsFreeNames`). Free
   are those that are neither the variable nor functions. `params_list_free_names` joins both
   parts. -/
namespace Fluxion

/-! ## Entries -/

namespace ParameterTable

/-- One way of entering a name. -/
inductive Entry where
  | push (name : String)
  | intern (name : String)

namespace Entry

def name : Entry → String
  | push name | intern name => name

/-- Enters the name and answers its index. -/
def enter (table : ParameterTable) : Entry → Nat × ParameterTable
  | push name => table.push name
  | intern name => table.intern name

end Entry

/-- Makes entries one after the other and lists the indexes that they answer. -/
def run (table : ParameterTable) : List Entry → List Nat × ParameterTable
  | [] => ([], table)
  | entry :: rest =>
    let (index, table) := entry.enter table
    let (indexes, table) := table.run rest
    (index :: indexes, table)

variable (table : ParameterTable)

theorem get?_enter (entry : Entry) :
    (entry.enter table).2.get? (entry.enter table).1 = some entry.name := by
  cases entry with
  | push name => exact get?_push table name
  | intern name => exact get?_intern table name

variable {table}

theorem get?_enter_of_some {index : Nat} {old : String} (entry : Entry)
    (found : table.get? index = some old) : (entry.enter table).2.get? index = some old := by
  cases entry with
  | push name => exact get?_push_of_some name found
  | intern name => exact get?_intern_of_some name found

theorem get?_run_of_some {index : Nat} {old : String} (entries : List Entry)
    (found : table.get? index = some old) : (table.run entries).2.get? index = some old := by
  induction entries generalizing table with
  | nil => exact found
  | cons entry rest ih => exact ih (get?_enter_of_some entry found)

/-- An index that was answered leads to its name, whatever is entered later. -/
theorem get?_run (table : ParameterTable) (entries later : List Entry) :
    (table.run entries).1.map ((table.run entries).2.run later).2.get? =
      entries.map fun entry => some entry.name := by
  induction entries generalizing table with
  | nil => rfl
  | cons entry rest ih =>
    have kept := get?_run_of_some later (get?_run_of_some rest (get?_enter table entry))
    exact congr (congrArg List.cons kept) (ih (entry.enter table).2)

theorem position?_eq_some_iff {name : String} {index : Nat} : table.position? name = some index ↔
    table.get? index = some name ∧ ∀ earlier < index, table.get? earlier ≠ some name := by
  rw [position?, List.findIdx?_eq_some_iff_getElem]
  constructor
  · rintro ⟨bound, here, before⟩
    refine ⟨?_, fun earlier less found => ?_⟩
    · rw [get?, List.getElem?_eq_getElem bound, eq_of_beq here]
    · obtain ⟨bound', same⟩ := List.getElem?_eq_some_iff.mp found
      have differs := before earlier less
      simp [same] at differs
  · rintro ⟨here, before⟩
    obtain ⟨bound, same⟩ := List.getElem?_eq_some_iff.mp here
    refine ⟨bound, by simp [same], fun earlier less => ?_⟩
    have bound' := less.trans bound
    have differs := before earlier less
    rw [get?, List.getElem?_eq_getElem bound'] at differs
    simpa using differs

theorem position?_eq_none_iff {name : String} :
    table.position? name = none ↔ name ∉ table.names := by
  rw [position?, List.findIdx?_eq_none_iff]
  constructor
  · intro differs mem
    simpa using differs name mem
  · rintro absent other mem
    rw [beq_eq_false_iff_ne]
    rintro rfl
    exact absent mem

/-- Interning a name that is there changes nothing and answers its first index. -/
theorem intern_of_mem {name : String} (mem : name ∈ table.names) :
    ∃ index, table.position? name = some index ∧ table.intern name = (index, table) := by
  obtain ⟨index, position⟩ : ∃ index, table.position? name = some index := by
    rw [← Option.isSome_iff_exists, Option.isSome_iff_ne_none, Ne, position?_eq_none_iff]
    exact not_not_intro mem
  refine ⟨index, position, ?_⟩
  rw [intern, position]

end ParameterTable

/-! ## Order of entry -/

namespace Grammar

/-- The table has the names in order of their first occurrence. -/
theorem pairwise_foldl_enter (names : List String) :
    (names.foldl enter []).Pairwise fun first second => names.idxOf first < names.idxOf second := by
  -- The last name is the only one that may be new.
  induction names using List.reverseRecOn with
  | nil => exact .nil
  | append_singleton names last ih =>
    have mem : ∀ name ∈ names.foldl enter [], name ∈ names := fun name mem =>
      (mem_foldl_enter_iff.mp mem).resolve_left List.not_mem_nil
    have ordered : (names.foldl enter []).Pairwise fun first second =>
        (names ++ [last]).idxOf first < (names ++ [last]).idxOf second := by
      refine ih.imp_of_mem fun {first second} memFirst memSecond less => ?_
      rwa [List.idxOf_append_of_mem (mem first memFirst),
        List.idxOf_append_of_mem (mem second memSecond)]
    rw [List.foldl_append, List.foldl_cons, List.foldl_nil, enter]
    split
    · exact ordered
    · next new =>
      have absent : last ∉ names := fun old => new (mem_foldl_enter old [])
      refine List.pairwise_append.mpr ⟨ordered, List.pairwise_singleton _ last, ?_⟩
      intro first memFirst second memSecond
      obtain rfl := List.mem_singleton.mp memSecond
      rw [List.idxOf_append_of_mem (mem first memFirst), List.idxOf_append_of_notMem absent,
        List.idxOf_cons_self, Nat.add_zero]
      exact List.idxOf_lt_length_iff.mpr (mem first memFirst)

theorem mem_named {variableName name : String} {body : List Token} :
    name ∈ named variableName body ↔ ∃ t ∈ body, t.kind = .name ∧ t.text = name ∧
      name ≠ variableName ∧ Elementary.ofName? name = none := by
  simp only [named, List.mem_map, List.mem_filter, isParameter, Bool.and_eq_true, beq_iff_eq,
    Option.isNone_iff_eq_none, bne_iff_ne]
  constructor
  · rintro ⟨t, ⟨mem, ⟨isName, other⟩, free⟩, rfl⟩
    exact ⟨t, mem, isName, rfl, free, other⟩
  · rintro ⟨t, mem, isName, rfl, free, other⟩
    exact ⟨t, ⟨mem, ⟨isName, other⟩, free⟩, rfl⟩

end Grammar

/-! ## Leaves -/

namespace Tree

/-- The index of a parameter, and its place. -/
def param? : Tree → Option (Nat × Span)
  | node (.param index) span _ _ => some (index, span)
  | _ => none

/-- The parameters among the leaves, from left to right, with their places. -/
def paramLeaves (t : Tree) : List (Nat × Span) := t.parts.filterMap param?

end Tree

/-- A bound term has a leaf for each name of a parameter, in the place of the name. -/
theorem Grammar.paramLeaves_tree (variableName : String) (names : List String) (t : Term) :
    (tree variableName names t).paramLeaves =
      (leaves variableName t).map fun leaf => (names.idxOf leaf.1, leaf.2) := by
  induction t with
  | integer | fraction => rfl
  | name text span =>
    rw [tree, leaves]
    split <;> rfl
  | negate operand span ih | call f operand span ih =>
    rw [tree, leaves, ← ih, Tree.paramLeaves, Tree.parts, List.filterMap_append,
      List.filterMap_append]
    exact List.append_nil _
  | binary op left right span ihLeft ihRight =>
    rw [tree, leaves, List.map_append, ← ihLeft, ← ihRight, Tree.paramLeaves, Tree.parts,
      List.filterMap_append, List.filterMap_append]
    exact List.append_nil _

namespace Function

open Grammar Token

/-- The table of the function lists the names in the body, the tokens behind the header, that are
    neither the variable nor functions, and the leaves of the tree lead to these names. -/
structure ListsFreeNames (source : String) (f : Function) (body : List Token) : Prop where
  header : Header (tokenize source) f.name f.variableName body
  nodup : f.params.names.Nodup
  mem_iff : ∀ name, name ∈ f.params.names ↔ ∃ t ∈ body, t.kind = .name ∧ t.text = name ∧
    name ≠ f.variableName ∧ Elementary.ofName? name = none
  ordered : f.params.names.Pairwise fun first second =>
    (named f.variableName body).idxOf first < (named f.variableName body).idxOf second
  leaves : f.body.tree.paramLeaves.map (fun leaf => (f.params.get? leaf.1, leaf.2)) =
    (body.filter (isParameter f.variableName)).map fun t => (some t.text, t.span)
  resolves : ∀ index span, (index, span) ∈ f.body.tree.paramLeaves → index < f.params.size ∧
    ∃ name, f.params.get? index = some name ∧ span.CutsOut source name
  used : ∀ index < f.params.size, ∃ span, (index, span) ∈ f.body.tree.paramLeaves

theorem parse_listsFreeNames {source : String} {f : Function} (parsed : parse source = .ok f) :
    ∃ body, f.ListsFreeNames source body := by
  obtain ⟨d, read, rfl⟩ := parse_eq_ok_iff.mp parsed
  obtain ⟨body, trailing, header, derives, ends⟩ := sound_read read
  let f := ofDefinition d
  have params : f.params.names = (named f.variableName body).foldl enter [] :=
    (bound_eq derives ends d.name d.variableName).1
  have mem_iff : ∀ name, name ∈ f.params.names ↔ name ∈ named f.variableName body := fun name => by
    rw [params, mem_foldl_enter_iff]
    exact or_iff_right List.not_mem_nil
  have places : f.body.tree.paramLeaves = (occurrences f.variableName body).map
      fun leaf => (f.params.names.idxOf leaf.1, leaf.2) := by
    rw [tree_body_ofDefinition_eq, paramLeaves_tree, derives.leaves_eq ends]
    rfl
  have nodup : f.params.names.Nodup := by
    rw [params]
    exact nodup_foldl_enter _ List.nodup_nil
  have entry : ∀ t ∈ body.filter (isParameter f.variableName),
      f.params.get? (f.params.names.idxOf t.text) = some t.text := fun t mem =>
    get?_idxOf ((mem_iff t.text).mpr (List.mem_map_of_mem mem))
  have suffix : body <:+ tokenize source := (header.isIdentifier (areNamed_tokenize source)).2.2
  refine ⟨body, header, nodup, fun name => (mem_iff name).trans mem_named, ?_, ?_, ?_, ?_⟩
  · have ordered := pairwise_foldl_enter (named f.variableName body)
    rwa [← params] at ordered
  · rw [places, occurrences, List.map_map, List.map_map]
    exact List.map_congr_left fun t mem => congrArg (·, t.span) (entry t mem)
  · intro index span mem
    rw [places, occurrences, List.map_map, List.mem_map] at mem
    obtain ⟨t, mem, same⟩ := mem
    cases same
    have found := entry t mem
    exact ⟨(List.getElem?_eq_some_iff.mp found).1, t.text, found,
      cutsOut_of_mem (suffix.subset (List.mem_of_mem_filter mem))⟩
  · intro index bound
    obtain ⟨t, mem, text⟩ := List.mem_map.mp ((mem_iff _).mp (List.getElem_mem bound))
    refine ⟨t.span, ?_⟩
    rw [places, occurrences, List.map_map, List.mem_map]
    refine ⟨t, mem, congrArg (·, t.span) ?_⟩
    show f.params.names.idxOf t.text = index
    rw [text]
    exact nodup.idxOf_getElem index bound

/-- The table of a parsed function lists the free names of the body, each once and in order of
    first occurrence, and the leaves of the tree are the occurrences of these names. In any
    table, an index that was answered leads to its name from then on; a name is found at its
    first index, and interning it again answers this index and changes nothing. -/
theorem params_list_free_names :
    (∀ (source : String) (f : Function), parse source = .ok f →
      ∃ body, f.ListsFreeNames source body) ∧
    (∀ (table : ParameterTable) (entries later : List ParameterTable.Entry),
      (table.run entries).1.map ((table.run entries).2.run later).2.get? =
        entries.map fun entry => some entry.name) ∧
    (∀ (table : ParameterTable) (name : String),
      (∀ index, table.position? name = some index ↔
        table.get? index = some name ∧ ∀ earlier < index, table.get? earlier ≠ some name) ∧
      (table.position? name = none ↔ name ∉ table.names)) ∧
    ∀ (table : ParameterTable) (name : String), name ∈ table.names →
      ∃ index, table.position? name = some index ∧ table.intern name = (index, table) :=
  ⟨fun _ _ => parse_listsFreeNames, ParameterTable.get?_run,
    fun _ _ => ⟨fun _ => ParameterTable.position?_eq_some_iff, ParameterTable.position?_eq_none_iff⟩,
    fun _ _ => ParameterTable.intern_of_mem⟩

/-- The variable and the functions are not in the table, and a name that occurs twice is once. -/
theorem params_list_free_names_repeated :
    (∃ f body, parse "f(x)=b*sin(a)+b/x" = .ok f ∧ f.params.names = ["b", "a"] ∧
      f.body.tree.paramLeaves = [(0, ⟨5, 6⟩), (1, ⟨11, 12⟩), (0, ⟨14, 15⟩)] ∧
      f.ListsFreeNames "f(x)=b*sin(a)+b/x" body) ∧
    ParameterTable.intern ⟨["a", "b", "b"]⟩ "b" = (1, ⟨["a", "b", "b"]⟩) := by
  obtain ⟨onParsed, -, -, onPresent⟩ := params_list_free_names
  constructor
  · have seen : (parse "f(x)=b*sin(a)+b/x").toOption.map
        (fun f => (f.params.names, f.body.tree.paramLeaves)) =
          some (["b", "a"], [(0, ⟨5, 6⟩), (1, ⟨11, 12⟩), (0, ⟨14, 15⟩)]) := by
      decide +kernel
    cases parsed : parse "f(x)=b*sin(a)+b/x" with
    | error e =>
      rw [parsed] at seen
      cases seen
    | ok f =>
      rw [parsed] at seen
      obtain ⟨names, leaves⟩ := Prod.mk.inj (Option.some.inj seen)
      obtain ⟨body, lists⟩ := onParsed _ f parsed
      exact ⟨f, body, rfl, names, leaves, lists⟩
  · obtain ⟨index, position, interned⟩ := onPresent ⟨["a", "b", "b"]⟩ "b" (by decide)
    have first : ParameterTable.position? ⟨["a", "b", "b"]⟩ "b" = some 1 := by decide
    rw [interned, Option.some.inj (position.symm.trans first)]

end Function
end Fluxion
