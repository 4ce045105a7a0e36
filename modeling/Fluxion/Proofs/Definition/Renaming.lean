import Fluxion.Proofs.Definition.Grammar
import Fluxion.Proofs.Notation.Regrouping
import Mathlib.Data.List.Forall2
/- Definitions that differ in the spelling of names. The grammar asks of a name whether it is that
   of a function, whether it is the variable and where in the table it was entered first. A
   correspondence of names that is one to one and keeps functions (`IsCorrespondence`) cannot change
   any answer, so what is derived from tokens is derived from tokens with corresponding names, place
   by place and for corresponding terms (`Derives.exists_corresponding`), and what comes of it is
   the same tree (`IsDefinition.exists_corresponding`).

   No name is left in a tree, but only what it is the name of, so corresponding terms have trees
   that differ in places alone (`bare_tree_eq`), with tables that correspond entry by entry. A
   correspondence turned round is one, too, which makes this a matter of both sides. The name of the
   function itself is kept. -/
namespace Fluxion

/-- One name for each, and a name of a function only for a name of the same function. -/
structure IsCorrespondence (S : String → String → Prop) : Prop where
  unique : Relator.BiUnique S
  function : ∀ {name name' : String}, S name name' →
    Elementary.ofName? name = Elementary.ofName? name'

theorem IsCorrespondence.flip {S : String → String → Prop} (correspondence : IsCorrespondence S) :
    IsCorrespondence (flip S) where
  unique := ⟨fun _ _ _ first second => correspondence.unique.2 first second,
    correspondence.unique.1.flip⟩
  function spelled := (correspondence.function spelled).symm

/-- The same tokens but for their places and the spelling of names. -/
structure Token.Corresponds (S : String → String → Prop) (t t' : Token) : Prop where
  kind : t.kind = t'.kind
  name : t.kind = .name → S t.text t'.text
  other : t.kind ≠ .name → t.text = t'.text

theorem Token.Corresponds.flip {S : String → String → Prop} {t t' : Token}
    (here : t.Corresponds S t') : t'.Corresponds (flip S) t where
  kind := here.kind.symm
  name isName := here.name (here.kind.trans isName)
  other other := (here.other (here.kind ▸ other)).symm

/-- The same terms but for their places and the spelling of names. -/
inductive Term.Corresponds (S : String → String → Prop) : Term → Term → Prop where
  | integer {value : Int64} {span span' : Span} :
      Corresponds S (.integer value span) (.integer value span')
  | fraction {value : Binary64} {span span' : Span} :
      Corresponds S (.fraction value span) (.fraction value span')
  | name {text text' : String} {span span' : Span} (spelled : S text text') :
      Corresponds S (.name text span) (.name text' span')
  | negate {operand operand' : Term} {span span' : Span} (onOperand : Corresponds S operand operand') :
      Corresponds S (.negate operand span) (.negate operand' span')
  | call {f : Elementary} {argument argument' : Term} {span span' : Span}
      (onArgument : Corresponds S argument argument') :
      Corresponds S (.call f argument span) (.call f argument' span')
  | binary {op : BinaryOp} {left left' right right' : Term} {span span' : Span}
      (onLeft : Corresponds S left left') (onRight : Corresponds S right right') :
      Corresponds S (.binary op left right span) (.binary op left' right' span')

namespace Grammar

/-- The same parts, behind corresponding terms. -/
inductive Part.Corresponds (S : String → String → Prop) : Part → Part → Prop where
  | sum : Corresponds S .sum .sum
  | signed : Corresponds S .signed .signed
  | product : Corresponds S .product .product
  | power : Corresponds S .power .power
  | primary : Corresponds S .primary .primary
  | rest {rank : Rank} {left left' : Term} (onLeft : left.Corresponds S left') :
      Corresponds S (.rest rank left) (.rest rank left')

/-- The first name is the same, and those behind it correspond. -/
inductive RenamedBehind (S : String → String → Prop) : List Token → List Token → Prop where
  | nil : RenamedBehind S [] []
  | name {t t' : Token} {rest rest' : List Token} (kind : t.kind = .name) (kind' : t'.kind = .name)
      (text : t.text = t'.text) (behind : List.Forall₂ (Token.Corresponds S) rest rest') :
      RenamedBehind S (t :: rest) (t' :: rest')
  | other {t t' : Token} {rest rest' : List Token} (other : t.kind ≠ .name)
      (here : t.Corresponds S t') (behind : RenamedBehind S rest rest') :
      RenamedBehind S (t :: rest) (t' :: rest')

variable {S : String → String → Prop} {a a' b c d body body' trailing trailing' : List Token}
  {t u : Term} {variableName variableName' : String}

/-! ## Parts -/

theorem Blanks.exists_corresponding (blanks : Blanks a b)
    (tokens : List.Forall₂ (Token.Corresponds S) a a') :
    ∃ b', Blanks a' b' ∧ List.Forall₂ (Token.Corresponds S) b b' := by
  obtain ⟨between, blank, rfl⟩ := blanks
  induction between generalizing a' with
  | nil => exact ⟨a', ⟨[], nofun, rfl⟩, tokens⟩
  | cons t rest ih =>
    obtain ⟨t', rest', here, behind, rfl⟩ := List.forall₂_cons_left_iff.mp tokens
    obtain ⟨b', ⟨between', blank', rfl⟩, left⟩ :=
      ih (fun u mem => blank u (List.mem_cons_of_mem t mem)) behind
    have isBlank : t'.isBlank = true := by
      rw [Token.isBlank, ← here.kind]
      exact blank t List.mem_cons_self
    exact ⟨b', ⟨t' :: between', List.forall_mem_cons.mpr ⟨isBlank, blank'⟩, rfl⟩, left⟩

theorem Terminal.exists_corresponding {kind : Token.Kind} {token : Token}
    (terminal : Terminal kind a token b) (tokens : List.Forall₂ (Token.Corresponds S) a a') :
    ∃ token' b', Terminal kind a' token' b' ∧ token.Corresponds S token' ∧
      List.Forall₂ (Token.Corresponds S) b b' := by
  obtain ⟨rfl, blanks⟩ := terminal
  obtain ⟨c', blanks', left⟩ := blanks.exists_corresponding tokens
  obtain ⟨token', b', here, behind, rfl⟩ := List.forall₂_cons_left_iff.mp left
  exact ⟨token', b', ⟨here.kind.symm, blanks'⟩, here, behind⟩

/-- What is derived from tokens is derived from corresponding ones, as far as it reaches. -/
theorem Derives.exists_corresponding {p p' : Part} (correspondence : IsCorrespondence S)
    (derives : Derives p a t b) (parts : p.Corresponds S p')
    (tokens : List.Forall₂ (Token.Corresponds S) a a') :
    ∃ t' b', Derives p' a' t' b' ∧ t.Corresponds S t' ∧
      List.Forall₂ (Token.Corresponds S) b b' := by
  induction derives generalizing p' a' with
  | sum start more ihStart ihMore =>
    cases parts
    obtain ⟨first, b', start', terms, tokens⟩ := ihStart .signed tokens
    obtain ⟨t', c', more', terms, tokens⟩ := ihMore (.rest terms) tokens
    exact ⟨t', c', .sum start' more', terms, tokens⟩
  | unsigned product ih =>
    cases parts
    obtain ⟨t', b', product', rest⟩ := ih .product tokens
    exact ⟨t', b', .unsigned product', rest⟩
  | plus mark product ih =>
    cases parts
    obtain ⟨sign, b', mark', -, tokens⟩ := mark.exists_corresponding tokens
    obtain ⟨t', c', product', rest⟩ := ih .product tokens
    exact ⟨t', c', .plus mark' product', rest⟩
  | minus mark product ih =>
    cases parts
    obtain ⟨sign, b', mark', -, tokens⟩ := mark.exists_corresponding tokens
    obtain ⟨t', c', product', terms, tokens⟩ := ih .product tokens
    exact ⟨_, c', .minus mark' product', .negate terms, tokens⟩
  | product start more ihStart ihMore =>
    cases parts
    obtain ⟨first, b', start', terms, tokens⟩ := ihStart .power tokens
    obtain ⟨t', c', more', terms, tokens⟩ := ihMore (.rest terms) tokens
    exact ⟨t', c', .product start' more', terms, tokens⟩
  | stop =>
    cases parts with
    | @rest rank left left' onLeft => exact ⟨left', a', .stop, onLeft, tokens⟩
  | @more a b c d rank mark op left right t operator next operand others ihOperand ihOthers =>
    cases parts with
    | @rest rank left left' onLeft =>
      obtain ⟨mark', b', next', here, tokens⟩ := next.exists_corresponding tokens
      have operands : rank.operand.Corresponds S rank.operand := by
        cases rank
        · exact .product
        · exact .power
      obtain ⟨right', c', operand', terms, tokens⟩ := ihOperand operands tokens
      obtain ⟨t', d', others', terms, tokens⟩ := ihOthers (.rest (.binary onLeft terms)) tokens
      rw [here.kind] at operator next'
      exact ⟨t', d', .more operator next' operand' others', terms, tokens⟩
  | base primary ih =>
    cases parts
    obtain ⟨t', b', primary', rest⟩ := ih .primary tokens
    exact ⟨t', b', .base primary', rest⟩
  | power onBase caret onExponent ihBase ihExponent =>
    cases parts
    obtain ⟨base', b', onBase', bases, tokens⟩ := ihBase .primary tokens
    obtain ⟨mark', c', caret', -, tokens⟩ := caret.exists_corresponding tokens
    obtain ⟨exponent', d', onExponent', exponents, tokens⟩ := ihExponent .primary tokens
    exact ⟨_, d', .power onBase' caret' onExponent', .binary bases exponents, tokens⟩
  | enclosed opens inner closes ih =>
    cases parts
    obtain ⟨opening', b', opens', -, tokens⟩ := opens.exists_corresponding tokens
    obtain ⟨t', c', inner', terms, tokens⟩ := ih .sum tokens
    obtain ⟨closing', d', closes', -, tokens⟩ := closes.exists_corresponding tokens
    exact ⟨t', d', .enclosed opens' inner' closes', terms, tokens⟩
  | integer number exact =>
    cases parts
    obtain ⟨digits', b', number', here, tokens⟩ := number.exists_corresponding tokens
    rw [here.other (by rw [number.1]; decide)] at exact
    exact ⟨_, b', .integer number' exact, .integer, tokens⟩
  | @fraction a b digits separator places number bounded separates fractional =>
    cases parts
    obtain ⟨digits', c', number', here, tokens⟩ := number.exists_corresponding tokens
    obtain ⟨separator', d', mark, others, rfl⟩ := List.forall₂_cons_left_iff.mp tokens
    obtain ⟨places', b', behind, rest, rfl⟩ := List.forall₂_cons_left_iff.mp others
    have whole := here.other (by rw [number.1]; decide)
    have part := behind.other (by rw [fractional]; decide)
    rw [mark.kind] at separates
    rw [behind.kind] at fractional
    rw [whole] at bounded ⊢
    rw [part]
    exact ⟨_, b', .fraction number' bounded separates fractional, .fraction, rest⟩
  | call name function opens argument closes ih =>
    cases parts
    obtain ⟨word', b', name', here, tokens⟩ := name.exists_corresponding tokens
    obtain ⟨opening', c', opens', -, tokens⟩ := opens.exists_corresponding tokens
    obtain ⟨t', d', argument', terms, tokens⟩ := ih .sum tokens
    obtain ⟨closing', e', closes', -, tokens⟩ := closes.exists_corresponding tokens
    rw [correspondence.function (here.name name.1)] at function
    exact ⟨_, e', .call name' function opens' argument' closes', .call terms, tokens⟩
  | name name other =>
    cases parts
    obtain ⟨word', b', name', here, tokens⟩ := name.exists_corresponding tokens
    have spelled := here.name name.1
    rw [correspondence.function spelled] at other
    exact ⟨_, b', .name name' other, .name spelled, tokens⟩

/-! ## Names -/

section
variable (correspondence : IsCorrespondence S) (bound : S variableName variableName')
include correspondence

theorem idxOf_eq {names names' : List String} {n n' : String}
    (tables : List.Forall₂ S names names') (spelled : S n n') : names.idxOf n = names'.idxOf n' := by
  induction tables with
  | nil => rfl
  | @cons m m' rest rest' here behind ih =>
    have same : m = n ↔ m' = n' := Relator.rel_eq correspondence.unique here spelled
    by_cases found : m = n
    · rw [found, same.mp found, List.idxOf_cons_self, List.idxOf_cons_self]
    · rw [List.idxOf_cons_ne rest found, List.idxOf_cons_ne rest' (mt same.mpr found), ih]

theorem forall₂_enter {used used' : List String} {n n' : String}
    (tables : List.Forall₂ S used used') (spelled : S n n') :
    List.Forall₂ S (enter used n) (enter used' n') := by
  have same : n ∈ used ↔ n' ∈ used' := List.rel_mem correspondence.unique spelled tables
  by_cases old : n ∈ used
  · rwa [enter, enter, if_pos old, if_pos (same.mp old)]
  · rw [enter, enter, if_neg old, if_neg (mt same.mpr old)]
    exact List.rel_append tables (.cons spelled .nil)

include bound

theorem isParameter_eq {t t' : Token} (here : t.Corresponds S t') :
    isParameter variableName t = isParameter variableName' t' := by
  rw [isParameter, isParameter, ← here.kind]
  by_cases name : t.kind = .name
  · have spelled := here.name name
    have same : t.text = variableName ↔ t'.text = variableName' :=
      Relator.rel_eq correspondence.unique spelled bound
    rw [correspondence.function spelled, Bool.eq_iff_iff]
    simp only [Bool.and_eq_true, bne_iff_ne, ne_eq, same]
  · rw [beq_eq_false_iff_ne.mpr name]
    rfl

theorem forall₂_named (tokens : List.Forall₂ (Token.Corresponds S) body body') :
    List.Forall₂ S (named variableName body) (named variableName' body') := by
  induction tokens with
  | nil => exact .nil
  | @cons t t' rest rest' here behind ih =>
    have same := isParameter_eq correspondence bound here
    by_cases parameter : isParameter variableName t = true
    · rw [named, named, List.filter_cons_of_pos parameter, List.filter_cons_of_pos (same ▸ parameter)]
      have name : t.kind = .name := by
        simp only [isParameter, Bool.and_eq_true, beq_iff_eq] at parameter
        exact parameter.1.1
      exact .cons (here.name name) ih
    · rw [named, named, List.filter_cons_of_neg parameter, List.filter_cons_of_neg (same ▸ parameter)]
      exact ih

/-- The tables of corresponding bodies correspond entry by entry. -/
theorem forall₂_parameters (tokens : List.Forall₂ (Token.Corresponds S) body body') :
    List.Forall₂ S (parameters variableName body) (parameters variableName' body') :=
  List.rel_foldl (P := List.Forall₂ S) (R := S)
    (fun _ _ tables _ _ spelled => forall₂_enter correspondence tables spelled) .nil
    (forall₂_named correspondence bound tokens)

/-- No name is left in a tree, but only what it is the name of. -/
theorem bare_tree_eq {names names' : List String} (tables : List.Forall₂ S names names')
    {t t' : Term} (terms : t.Corresponds S t') :
    (tree variableName names t).bare = (tree variableName' names' t').bare := by
  induction terms with
  | integer | fraction => rfl
  | @name text text' span span' spelled =>
    have same : text = variableName ↔ text' = variableName' :=
      Relator.rel_eq correspondence.unique spelled bound
    by_cases isVariable : text = variableName
    · rw [tree, tree, if_pos isVariable, if_pos (same.mp isVariable)]
      rfl
    · rw [tree, tree, if_neg isVariable, if_neg (mt same.mpr isVariable),
        idxOf_eq correspondence tables spelled]
      rfl
  | negate _ ih => rw [tree, tree, Tree.bare, Tree.bare, ih]; rfl
  | call _ ih => rw [tree, tree, Tree.bare, Tree.bare, ih]; rfl
  | binary _ _ ihLeft ihRight => rw [tree, tree, Tree.bare, Tree.bare, ihLeft, ihRight]

end

/-! ## Definitions -/

theorem RenamedBehind.flip (tokens : RenamedBehind S a b) : RenamedBehind (flip S) b a := by
  induction tokens with
  | nil => exact .nil
  | name kind kind' text behind =>
    have behind' := behind.imp fun _ _ here => here.flip
    exact .name kind' kind text.symm behind'.flip
  | other other here _ ih => exact .other (here.kind ▸ other) here.flip ih

/-- Nothing is renamed in front of the first name. -/
theorem Terminal.exists_renamedBehind {token : Token} (terminal : Terminal .name a token b)
    (tokens : RenamedBehind S a a') : ∃ token' b', Terminal .name a' token' b' ∧
      token.text = token'.text ∧ List.Forall₂ (Token.Corresponds S) b b' := by
  obtain ⟨isName, between, blank, rfl⟩ := terminal
  induction between generalizing a' with
  | nil =>
    cases tokens with
    | name kind kind' text behind => exact ⟨_, _, ⟨kind', [], nofun, rfl⟩, text, behind⟩
    | other other => exact absurd isName other
  | cons t rest ih =>
    have isBlank := blank t List.mem_cons_self
    cases tokens with
    | name kind =>
      rw [Token.isBlank, kind] at isBlank
      cases isBlank
    | @other t t' rest rest' other here behind =>
      obtain ⟨token', b', ⟨isName', between', blank', rfl⟩, others⟩ :=
        ih (fun u mem => blank u (List.mem_cons_of_mem t mem)) behind
      rw [Token.isBlank, here.kind] at isBlank
      exact ⟨token', b',
        ⟨isName', t' :: between', List.forall_mem_cons.mpr ⟨isBlank, blank'⟩, rfl⟩, others⟩

theorem Header.exists_corresponding {name : String} (header : Header a name variableName body)
    (tokens : RenamedBehind S a a') : ∃ variableName' body', Header a' name variableName' body' ∧
      S variableName variableName' ∧ List.Forall₂ (Token.Corresponds S) body body' := by
  obtain ⟨named, opens, binds, closes, defines⟩ := header
  obtain ⟨name', b', named', text, tokens⟩ := named.exists_renamedBehind tokens
  obtain ⟨opening', c', opens', -, tokens⟩ := opens.exists_corresponding tokens
  obtain ⟨bound', d', binds', here, tokens⟩ := binds.exists_corresponding tokens
  obtain ⟨closing', e', closes', -, tokens⟩ := closes.exists_corresponding tokens
  obtain ⟨equals', f', defines', -, tokens⟩ := defines.exists_corresponding tokens
  rw [text]
  exact ⟨bound'.text, f', ⟨named', opens', binds', closes', defines'⟩, here.name binds.1, tokens⟩

/-- Tokens whose names correspond behind the first are a definition of the same name, with
    corresponding variables and parameters and the same tree, but for its places. -/
theorem IsDefinition.exists_corresponding {name : String} {params : List String} {t : Tree}
    (correspondence : IsCorrespondence S)
    (definition : IsDefinition a name variableName params t) (tokens : RenamedBehind S a a') :
    ∃ variableName' params' t', IsDefinition a' name variableName' params' t' ∧
      S variableName variableName' ∧ List.Forall₂ S params params' ∧ t.bare = t'.bare := by
  obtain ⟨header, derives, ends⟩ := definition
  obtain ⟨variableName', body', header', bound, tokens⟩ := header.exists_corresponding tokens
  obtain ⟨t', trailing', derives', terms, left⟩ :=
    derives.exists_corresponding correspondence .sum tokens
  obtain ⟨rest, ends', none⟩ := ends.exists_corresponding left
  rw [List.forall₂_nil_left_iff.mp none] at ends'
  have tables := forall₂_parameters correspondence bound tokens
  exact ⟨variableName', _, _, .mk header' derives' ends', bound, tables,
    bare_tree_eq correspondence bound tables terms⟩

end Grammar
end Fluxion
