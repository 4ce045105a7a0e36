import Fluxion.Proofs.Definition.Renaming
import Fluxion.Proofs.Definition.Spacing
import Fluxion.Proofs.Notation.LongestMatch
/- How names are spelled does not matter. The names of a source behind the first one, which is that
   of the function, are replaced token by token (`renamedSource`); new names must be identifiers and
   differ as the old ones do, and functions keep theirs (`IsRenaming`). Names may change places with
   each other.

   A renamed source has the tokens that one would think (`renamedBehind_tokenize`), so it is a
   definition if and only if the source is one, and its function has the renamed variable, the
   renamed parameters in their order and the same tree. All that is done with a function goes by its
   tree, so what comes of both stays the same (`IsRenamed.run`): trees, verdicts of the check and
   steps of simplification (`parse_renamedSource`). The faults of sources that are refused are not
   compared. -/
namespace Fluxion

open Grammar

/-! ## Renamed sources -/

/-- Other names for these, which are identifiers and differ as they do; functions keep theirs, and
    nothing else gets the name of one. -/
structure IsRenaming (ρ : String → String) (names : List String) : Prop where
  identifier : ∀ n ∈ names, Token.IsIdentifier (ρ n).toList
  injective : ∀ n ∈ names, ∀ m ∈ names, ρ n = ρ m → n = m
  function : ∀ n ∈ names, (Elementary.ofName? n).isSome → ρ n = n
  parameter : ∀ n ∈ names, Elementary.ofName? n = none → Elementary.ofName? (ρ n) = none

namespace Token

/-- The token with another name, if it is a name. -/
def renamed (ρ : String → String) (t : Token) : Token :=
  if t.kind = .name then { t with text := ρ t.text } else t

/-- Renames what is behind the first name. -/
def renameBehind (ρ : String → String) : List Token → List Token
  | [] => []
  | t :: rest => t :: if t.kind = .name then rest.map (renamed ρ) else renameBehind ρ rest

/-- The names behind the first one. -/
def namesBehind : List Token → List String
  | [] => []
  | t :: rest =>
    if t.kind = .name then (rest.filter (·.kind = .name)).map (·.text) else namesBehind rest

/-- The source with its names renamed, all but the first. -/
def renamedSource (ρ : String → String) (source : String) : String :=
  joined (renameBehind ρ (tokenize source))

variable {ρ : String → String} {tokens : List Token} {t : Token}

theorem kind_renamed (ρ : String → String) (t : Token) : (t.renamed ρ).kind = t.kind := by
  rw [renamed]
  split <;> rfl

theorem map_kind_renameBehind (ρ : String → String) (tokens : List Token) :
    (renameBehind ρ tokens).map (·.kind) = tokens.map (·.kind) := by
  induction tokens with
  | nil => rfl
  | cons t rest ih =>
    rw [renameBehind, List.map_cons, List.map_cons]
    split
    · rw [List.map_map]
      exact congrArg _ (List.map_congr_left fun u _ => kind_renamed ρ u)
    · rw [ih]

theorem mem_namesBehind_of_name {rest : List Token} (name : t.kind = .name) {u : Token}
    (mem : u ∈ rest) (isName : u.kind = .name) : u.text ∈ namesBehind (t :: rest) := by
  rw [namesBehind, if_pos name]
  exact List.mem_map_of_mem (List.mem_filter.mpr ⟨mem, decide_eq_true isName⟩)

/-- What a renamed token was before. -/
theorem mem_renameBehind (mem : t ∈ renameBehind ρ tokens) :
    t ∈ tokens ∨ t.kind = .name ∧ ∃ n ∈ namesBehind tokens, t.text = ρ n := by
  induction tokens with
  | nil => exact .inl mem
  | cons first rest ih =>
    rw [renameBehind] at mem
    rcases List.mem_cons.mp mem with rfl | mem
    · exact .inl List.mem_cons_self
    · by_cases name : first.kind = .name
      · rw [if_pos name] at mem
        obtain ⟨u, within, rfl⟩ := List.mem_map.mp mem
        by_cases isName : u.kind = .name
        · refine .inr ⟨(kind_renamed ρ u).trans isName, u.text, ?_, ?_⟩
          · exact mem_namesBehind_of_name name within isName
          · rw [renamed, if_pos isName]
        · rw [renamed, if_neg isName]
          exact .inl (List.mem_cons_of_mem first within)
      · rw [if_neg name] at mem
        rw [namesBehind, if_neg name]
        exact (ih mem).imp_left (List.mem_cons_of_mem first)

end Token

/-- A name of these with its new spelling. -/
def Renames (ρ : String → String) (names : List String) (n n' : String) : Prop :=
  n ∈ names ∧ n' = ρ n

namespace IsRenaming

variable {ρ : String → String} {names : List String} {tokens : List Token} {source : String}

theorem isCorrespondence (respells : IsRenaming ρ names) : IsCorrespondence (Renames ρ names) where
  unique := by
    refine ⟨?_, ?_⟩
    · rintro n m k ⟨mem, rfl⟩ ⟨mem', same⟩
      exact respells.injective n mem m mem' same
    · rintro n k k' ⟨-, rfl⟩ ⟨-, rfl⟩
      rfl
  function := by
    rintro n k ⟨mem, rfl⟩
    cases found : Elementary.ofName? n with
    | none => exact (respells.parameter n mem found).symm
    | some f =>
      rw [respells.function n mem (by rw [found]; rfl), found]

theorem eq_map_of_forall₂ {old new : List String} (spelled : List.Forall₂ (Renames ρ names) old new) :
    new = old.map ρ := by
  induction spelled with
  | nil => rfl
  | cons here _ ih => rw [List.map_cons, here.2, ih]

theorem forall₂_place_map {rest : List Token}
    (all : ∀ t ∈ rest, t.kind = .name → t.text ∈ names) (start : Nat) :
    List.Forall₂ (Token.Corresponds (Renames ρ names)) rest
      (Token.place start (rest.map (Token.renamed ρ))) := by
  induction rest generalizing start with
  | nil => exact .nil
  | cons t rest ih =>
    rw [List.forall_mem_cons] at all
    rw [List.map_cons, Token.place]
    refine .cons ?_ (ih all.2 _)
    by_cases name : t.kind = .name
    · rw [Token.renamed, if_pos name]
      exact ⟨rfl, fun _ => ⟨all.1 name, rfl⟩, fun other => absurd name other⟩
    · rw [Token.renamed, if_neg name]
      exact ⟨rfl, fun isName => absurd isName name, fun _ => rfl⟩

theorem renamedBehind_place (all : ∀ n ∈ Token.namesBehind tokens, n ∈ names) (start : Nat) :
    RenamedBehind (Renames ρ names) tokens (Token.place start (Token.renameBehind ρ tokens)) := by
  induction tokens generalizing start with
  | nil => exact .nil
  | cons t rest ih =>
    rw [Token.renameBehind, Token.place]
    by_cases name : t.kind = .name
    · rw [if_pos name]
      refine .name name name rfl (forall₂_place_map ?_ _)
      intro u mem isName
      exact all u.text (Token.mem_namesBehind_of_name name mem isName)
    · rw [if_neg name]
      rw [Token.namesBehind, if_neg name] at all
      exact .other name ⟨rfl, fun isName => absurd isName name, fun _ => rfl⟩ (ih all _)

/-- The tokens of a renamed source are those of the source with the names renamed. -/
theorem renamedBehind_tokenize (respells : IsRenaming ρ (Token.namesBehind (Token.tokenize source))) :
    RenamedBehind (Renames ρ (Token.namesBehind (Token.tokenize source))) (Token.tokenize source)
      (Token.tokenize (Token.renamedSource ρ source)) := by
  obtain ⟨-, -, lexemes, apart⟩ := Token.isPartition_scan 0 source.toList
  change ∀ t ∈ Token.tokenize source, _ at lexemes
  have lexemes' : ∀ t ∈ Token.renameBehind ρ (Token.tokenize source),
      t.kind.IsLexeme t.text.toList := by
    intro t mem
    rcases Token.mem_renameBehind mem with mem | ⟨name, n, mem, text⟩
    · exact lexemes t mem
    · rw [name, text, Token.Kind.isLexeme_iff_isRun]
      exact (Token.Kind.isRun_iff_takes Token.Kind.noConfusion).mpr (respells.identifier n mem)
  have apart' : Token.AreApart (Token.renameBehind ρ (Token.tokenize source)) := by
    rw [Token.AreApart, Token.map_kind_renameBehind]
    exact apart
  rw [Token.renamedSource, Token.tokenize_joined lexemes' apart']
  exact renamedBehind_place (fun _ mem => mem) 0

end IsRenaming

namespace Function

variable {ρ : String → String} {f g : Function} {source : String}

/-! ## Functions -/

/-- The same function but for the places of its nodes and the names of variable and parameters. -/
structure IsRenamed (ρ : String → String) (f g : Function) : Prop where
  name : g.name = f.name
  variableName : g.variableName = ρ f.variableName
  params : g.params.names = f.params.names.map ρ
  tree : f.body.tree.bare = g.body.tree.bare

/-- What becomes of a body does not depend on names. -/
theorem body_run (same : f.body = g.body) (steps : List Transformation) :
    (f.run steps).body = (g.run steps).body := by
  induction steps generalizing f g with
  | nil => exact same
  | cons step rest ih =>
    refine ih ?_
    cases step with
    | derivative => rw [transform, transform, derivative, derivative, same]
    | simplification => simp only [transform, simplify, simplifyWithSteps, same]

theorem check_congr (same : f.body = g.body) : f.check = g.check := by
  rw [check, check, same]

namespace IsRenamed

variable (renamed : f.IsRenamed ρ g)
include renamed

/-- With the old names back, the functions differ in places only. -/
theorem alike : f.Alike { f with body := g.body } :=
  ⟨rfl, rfl, rfl, renamed.tree⟩

variable (onLeft : f.IsSound) (onRight : g.IsSound)
include onLeft onRight

theorem alike_run (steps : List Transformation) :
    (f.run steps).Alike (({ f with body := g.body } : Function).run steps) :=
  renamed.alike.run onLeft.wellFormed onRight.wellFormed steps

theorem run (steps : List Transformation) : (f.run steps).IsRenamed ρ (g.run steps) where
  name := by rw [name_run, name_run, renamed.name]
  variableName := by rw [variableName_run, variableName_run, renamed.variableName]
  params := by rw [params_run, params_run, renamed.params]
  tree := by
    have same : (({ f with body := g.body } : Function).run steps).body = (g.run steps).body :=
      body_run (f := { f with body := g.body }) (g := g) rfl steps
    rw [(renamed.alike_run onLeft onRight steps).tree, same]

theorem check : f.check.mapError (·.fault) = g.check.mapError (·.fault) := by
  have same : ({ f with body := g.body } : Function).check = g.check := check_congr rfl
  rw [renamed.alike.check onLeft.wellFormed onRight.wellFormed, same]

theorem steps : f.simplifyWithSteps.1 = g.simplifyWithSteps.1 :=
  renamed.alike.steps onLeft.wellFormed onRight.wellFormed

end IsRenamed

/-- A renamed source is parsed if the source is, and then to the same function with renamed variable
    and parameters. Whatever is derived and simplified of both, the trees are equal, the check gives
    the same verdict and simplification takes the same steps. -/
theorem parse_renamedSource
    (respells : IsRenaming ρ (Token.namesBehind (Token.tokenize source))) :
    ((∃ f, parse source = .ok f) ↔ ∃ g, parse (Token.renamedSource ρ source) = .ok g) ∧
    ∀ f g, parse source = .ok f → parse (Token.renamedSource ρ source) = .ok g →
      f.IsRenamed ρ g ∧ ∀ steps,
        (f.run steps).body.same (g.run steps).body = true ∧
        (f.run steps).check.mapError (·.fault) = (g.run steps).check.mapError (·.fault) ∧
        (f.run steps).simplifyWithSteps.1 = (g.run steps).simplifyWithSteps.1 := by
  have correspondence := respells.isCorrespondence
  have tokens := respells.renamedBehind_tokenize
  refine ⟨⟨?_, ?_⟩, ?_⟩
  · rintro ⟨f, parsed⟩
    have definition := (isDefinition_of_parse parsed).mpr ⟨rfl, rfl, rfl, rfl⟩
    obtain ⟨_, _, _, definition', -⟩ := definition.exists_corresponding correspondence tokens
    exact parse_of_isDefinition definition'
  · rintro ⟨g, parsed⟩
    have definition := (isDefinition_of_parse parsed).mpr ⟨rfl, rfl, rfl, rfl⟩
    obtain ⟨_, _, _, definition', -⟩ :=
      definition.exists_corresponding correspondence.flip tokens.flip
    exact parse_of_isDefinition definition'
  · intro f g parsed parsed'
    have definition := (isDefinition_of_parse parsed).mpr ⟨rfl, rfl, rfl, rfl⟩
    obtain ⟨variableName, params, t, definition', bound, tables, trees⟩ :=
      definition.exists_corresponding correspondence tokens
    obtain ⟨name, rfl, rfl, rfl⟩ := (isDefinition_of_parse parsed').mp definition'
    have renamed : f.IsRenamed ρ g := {
      name := name.symm
      variableName := bound.2
      params := IsRenaming.eq_map_of_forall₂ tables
      tree := trees }
    have sound := isSound_of_parse parsed
    have sound' := isSound_of_parse parsed'
    refine ⟨renamed, ?_⟩
    intro steps
    have after := renamed.run sound sound' steps
    refine ⟨?_, after.check (sound.run steps) (sound'.run steps),
      after.steps (sound.run steps) (sound'.run steps)⟩
    have built := Kind.constructive_isDistinctive
    have distinctive := everyKind_run built sound (isWritten_of_parse parsed).isDistinctive steps
    have distinctive' := everyKind_run built sound' (isWritten_of_parse parsed').isDistinctive steps
    exact (Tree.same_iff distinctive distinctive').mpr after.tree

/-- Gives the names `x`, `a`, `b` and `f` new spellings, some of which were those of others. -/
def respelled : String → String
  | "x" => "t"
  | "a" => "cosh"
  | "b" => "a"
  | "f" => "x"
  | n => n

theorem parse_renamedSource_respelled :
    ∃ f g, parse "f(x)=a*sin(x)-b^x+f" = .ok f ∧ parse "f(t)=cosh*sin(t)-a^t+x" = .ok g ∧
      f.params.names = ["a", "b", "f"] ∧ g.params.names = ["cosh", "a", "x"] ∧
      let steps := [Transformation.derivative, .simplification]
      (f.run steps).body.same (g.run steps).body = true := by
  have names : Token.namesBehind (Token.tokenize "f(x)=a*sin(x)-b^x+f") =
      ["x", "a", "sin", "x", "b", "x", "f"] := by decide +kernel
  have respells : IsRenaming respelled
      (Token.namesBehind (Token.tokenize "f(x)=a*sin(x)-b^x+f")) := by
    rw [names]
    refine ⟨?_, by decide +kernel, by decide +kernel, by decide +kernel⟩
    have t : Token.IsIdentifier "t".toList := ⟨'t', [], by decide +kernel, by decide, nofun⟩
    have cosh : Token.IsIdentifier "cosh".toList :=
      ⟨'c', ['o', 's', 'h'], by decide +kernel, by decide, List.all_eq_true.mp rfl⟩
    have sin : Token.IsIdentifier "sin".toList :=
      ⟨'s', ['i', 'n'], by decide +kernel, by decide, List.all_eq_true.mp rfl⟩
    have a : Token.IsIdentifier "a".toList := ⟨'a', [], by decide +kernel, by decide, nofun⟩
    have x : Token.IsIdentifier "x".toList := ⟨'x', [], by decide +kernel, by decide, nofun⟩
    simp only [List.forall_mem_cons]
    exact ⟨t, cosh, sin, t, a, t, x, nofun⟩
  have source : Token.renamedSource respelled "f(x)=a*sin(x)-b^x+f" = "f(t)=cosh*sin(t)-a^t+x" := by
    decide +kernel
  have params : (parse "f(x)=a*sin(x)-b^x+f").toOption.map (·.params.names) =
      some ["a", "b", "f"] := by decide +kernel
  obtain ⟨both, results⟩ := parse_renamedSource respells
  cases parsed : parse "f(x)=a*sin(x)-b^x+f" with
  | error e =>
    rw [parsed] at params
    cases params
  | ok f =>
    rw [parsed] at params
    obtain ⟨g, parsed'⟩ := both.mp ⟨f, parsed⟩
    obtain ⟨renamed, after⟩ := results f g parsed parsed'
    have table : f.params.names = ["a", "b", "f"] := Option.some.inj params
    rw [source] at parsed'
    refine ⟨f, g, rfl, parsed', table, ?_, (after [.derivative, .simplification]).1⟩
    rw [renamed.params, table]
    decide

-- Two parameters that get one name are one parameter, so it takes a name for each.
example :
    let params (source : String) := (parse source).toOption.map fun f => f.params.names
    params "f(x)=a-b" = some ["a", "b"] ∧ params "f(x)=c-c" = some ["c"] := by
  decide +kernel

end Function
end Fluxion
