import Fluxion.Proofs.Definition.Completeness
import Fluxion.Proofs.Definition.Names
import Fluxion.Proofs.Function.Bodies
import Fluxion.Session
/- Parsing accepts the definitions of the grammar and nothing else (`parse_accepts_grammar`). What
   is read is derived by the grammar (`sound_read`), and what the grammar derives is read
   (`complete_read`). The two directions meet in the reader, which is a function: whatever the
   derivation of a source is, its reading is the same, so the names and the tree that the grammar
   gives it are unique, although the grammar is a relation.

   Between reading and the function stands the binding of names. It gives a derived body the
   parameters and the tree of the grammar (`bound_eq`), and the arena that is made of the tree is
   well formed and holds it. Nothing is asked of the source: any text, of any length and any depth
   of parentheses, is either a definition in exactly one way or refused. -/
namespace Fluxion
namespace Grammar

variable {body trailing : List Token} {t : Term}

/-- Binding gives a derived body the parameters and the tree of the grammar. -/
theorem bound_eq (derives : Derives .sum body t trailing) (ends : Blanks trailing [])
    (name variableName : String) :
    let f := Function.ofDefinition ⟨name, variableName, t⟩
    f.params.names = parameters variableName body ∧
      f.body.tree = tree variableName (parameters variableName body) t := by
  have names := parameters_eq derives ends variableName
  refine ⟨names.symm, ?_⟩
  rw [Function.tree_body_ofDefinition, names]
  exact tree_resolve variableName t {} List.prefix_rfl

end Grammar

namespace Function

open Grammar

theorem parse_eq_ok_iff {source : String} {f : Function} :
    parse source = .ok f ↔ ∃ d, Definition.parse source = .ok d ∧ ofDefinition d = f := by
  rw [parse]
  cases Definition.parse source with
  | error e => simp [Except.map]
  | ok d => simp [Except.map]

theorem parse_eq_error_iff {source : String} {e : SyntaxError} :
    parse source = .error e ↔ Definition.parse source = .error e := by
  rw [parse]
  cases Definition.parse source with
  | error e' => simp [Except.map]
  | ok d => simp [Except.map]

/-- What is parsed is a definition, and its only one. -/
theorem isDefinition_of_parse {source : String} {f : Function} (parsed : parse source = .ok f)
    {name variableName : String} {params : List String} {t : Tree} :
    IsDefinition (Token.tokenize source) name variableName params t ↔
      name = f.name ∧ variableName = f.variableName ∧ params = f.params.names ∧ t = f.body.tree := by
  obtain ⟨d, read, rfl⟩ := parse_eq_ok_iff.mp parsed
  constructor
  · rintro ⟨header, derives, ends⟩
    have read' := complete_read (c := .ofSource source) header derives ends
    cases Except.ok.inj (read.symm.trans read')
    obtain ⟨names, tree⟩ := bound_eq derives ends name variableName
    exact ⟨rfl, rfl, names.symm, tree.symm⟩
  · rintro ⟨rfl, rfl, rfl, rfl⟩
    obtain ⟨body, trailing, header, derives, ends⟩ := sound_read read
    obtain ⟨names, tree⟩ := bound_eq derives ends d.name d.variableName
    rw [names, tree]
    exact .mk header derives ends

theorem parse_of_isDefinition {source name variableName : String} {params : List String} {t : Tree}
    (definition : IsDefinition (Token.tokenize source) name variableName params t) :
    ∃ f, parse source = .ok f := by
  obtain ⟨header, derives, ends⟩ := definition
  have read := complete_read (c := .ofSource source) header derives ends
  exact ⟨_, parse_eq_ok_iff.mpr ⟨_, read, rfl⟩⟩

/-- A source is parsed if its tokens are a definition, and only then. The function has the
    name, the variable and the parameters of the definition, and its body is a well-formed
    arena with the tree of the definition, which is unique. -/
theorem parse_accepts_grammar (source : String) :
    ((∃ f, parse source = .ok f) ↔
      ∃ name variableName params t,
        IsDefinition (Token.tokenize source) name variableName params t) ∧
    ∀ f, parse source = .ok f → f.body.WellFormed ∧
      ∀ name variableName params t,
        IsDefinition (Token.tokenize source) name variableName params t ↔
          name = f.name ∧ variableName = f.variableName ∧ params = f.params.names ∧
            t = f.body.tree := by
  refine ⟨⟨?_, ?_⟩, ?_⟩
  · rintro ⟨f, parsed⟩
    exact ⟨_, _, _, _, (isDefinition_of_parse parsed).mpr ⟨rfl, rfl, rfl, rfl⟩⟩
  · rintro ⟨name, variableName, params, t, definition⟩
    exact parse_of_isDefinition definition
  · intro f parsed
    obtain ⟨d, -, rfl⟩ := parse_eq_ok_iff.mp parsed
    exact ⟨wellFormed_body_ofDefinition d, fun _ _ _ _ => isDefinition_of_parse parsed⟩

/-- The grammar has signs and blanks in front of operands, but no exponent of an exponent. -/
theorem parse_accepts_grammar_signAndPower :
    (∃ t, IsDefinition (Token.tokenize "f(x) = - a*x + 1.5") "f" "x" ["a"] t) ∧
      ¬∃ name variableName params t,
        IsDefinition (Token.tokenize "f(x)=x^2^3") name variableName params t := by
  constructor
  · have names : (parse "f(x) = - a*x + 1.5").toOption.map
        (fun f => (f.name, f.variableName, f.params.names)) = some ("f", "x", ["a"]) := by
      decide +kernel
    obtain ⟨f, parsed, same⟩ := Option.map_eq_some_iff.mp names
    have ok : parse "f(x) = - a*x + 1.5" = .ok f := by
      cases result : parse "f(x) = - a*x + 1.5" with
      | error e => simp [result, Except.toOption] at parsed
      | ok g => simpa [result, Except.toOption] using parsed
    obtain ⟨name, variableName, params⟩ : f.name = "f" ∧ f.variableName = "x" ∧
        f.params.names = ["a"] := by simpa using same
    exact ⟨_, (((parse_accepts_grammar _).2 f ok).2 _ _ _ _).mpr
      ⟨name.symm, variableName.symm, params.symm, rfl⟩⟩
  · rw [← (parse_accepts_grammar _).1]
    rintro ⟨f, parsed⟩
    have refused : (parse "f(x)=x^2^3").toOption = none := by decide +kernel
    rw [parsed] at refused
    cases refused

end Function
end Fluxion
