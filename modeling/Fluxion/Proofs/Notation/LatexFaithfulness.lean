import Fluxion.Proofs.Function.Equality
import Fluxion.Proofs.Notation.Parsed
import Fluxion.Proofs.Notation.Spelling
/- LaTeX loses nothing. The LaTeX of a tree is the text of a markup (`Function.Marks`), and markups
   are read back from their texts, so trees with the same LaTeX match node by node and print the
   same leaves (`matches_of_latex`). For this every leaf must have a word (`IsSpelled`): a fraction
   is a number, and the variable and the parameters are different identifiers.

   With the same names for the variable and the parameters this makes the trees equal. The LaTeX of
   a parsed definition even tells these names (`parts_of_latex`), since its table has no other
   parameters than its tree, in the order in which they first occur. `latex_faithful` has both
   statements. A name with a subscript is read back as the name that it was made of. Fractions are
   compared as numbers, and places do not count. -/
namespace Fluxion

open Grammar Phrase Token

/-! ## Trees that match -/

namespace Tree

variable {t u : Tree} {p q : Kind → Prop} {rel other : Kind → Kind → Prop}

/-- The trees have the same shape, and their kinds are related node by node. -/
def Matches (rel : Kind → Kind → Prop) : Tree → Tree → Prop
  | absent, absent => True
  | node kind _ l r, node kind' _ l' r' => rel kind kind' ∧ l.Matches rel l' ∧ r.Matches rel r'
  | _, _ => False

theorem Matches.mono (same : t.Matches rel u) (left : t.EveryKind p) (right : u.EveryKind q)
    (imp : ∀ kind kind', rel kind kind' → p kind → q kind' → other kind kind') : t.Matches other u := by
  induction t generalizing u with
  | absent => cases u <;> exact same
  | node kind span l r ihLeft ihRight =>
    cases u with
    | absent => exact same
    | node kind' span' l' r' =>
      obtain ⟨here, onLeft, onRight⟩ := same
      exact ⟨imp _ _ here left.1 right.1, ihLeft onLeft left.2.1 right.2.1,
        ihRight onRight left.2.2 right.2.2⟩

theorem same_of_matches (same : t.Matches (fun kind kind' => kind.same kind' = true) u) :
    t.same u = true := by
  induction t generalizing u with
  | absent =>
    cases u with
    | absent => rfl
    | node => exact same.elim
  | node kind span l r ihLeft ihRight =>
    cases u with
    | absent => exact same.elim
    | node kind' span' l' r' =>
      obtain ⟨here, onLeft, onRight⟩ := same
      rw [Tree.same, here, ihLeft onLeft, ihRight onRight]
      rfl

end Tree

namespace Function

variable {f g : Function} {t u : Tree} {kind kind' : Kind}

/-! ## Leaves -/

/-- The function has a word for a leaf of this kind: a fraction is a number, the variable an
    identifier, and a parameter is in the table under an identifier other than the variable. -/
def IsSpelled (f : Function) : Kind → Prop
  | .fraction x => x ≠ .nan
  | .var => IsIdentifier f.variableName.toList
  | .param index => ∃ name, f.params.get? index = some name ∧ name ≠ f.variableName ∧
      IsIdentifier name.toList
  | .integer _ | .operator _ => True

/-- The functions print the kinds alike. -/
def Agrees (f g : Function) (kind kind' : Kind) : Prop :=
  kind.operator? = kind'.operator? ∧ f.leafPhrase kind = g.leafPhrase kind'

theorem IsSpelled.leafPhrase (spelled : f.IsSpelled kind) (leaf : kind.operator? = none) :
    (f.leafPhrase kind).IsSpelled := by
  cases kind with
  | integer => trivial
  | fraction x => exact spelled
  | var => exact spelled
  | param index =>
    obtain ⟨name, entry, -, letters⟩ := spelled
    rw [Function.leafPhrase, entry]
    exact letters
  | operator => cases leaf

/-- Kinds that are printed alike are the same as far as the names of the parameters tell. -/
theorem Agrees.cases (agrees : f.Agrees g kind kind') (spelled : f.IsSpelled kind)
    (spelled' : g.IsSpelled kind') (variableName : f.variableName = g.variableName) :
    (kind = kind' ∧ ∀ index, kind ≠ .param index) ∨ ∃ index index' name,
      kind = .param index ∧ kind' = .param index' ∧ f.params.get? index = some name ∧
        g.params.get? index' = some name := by
  obtain ⟨operators, phrases⟩ := agrees
  cases kind with
  | integer n =>
    cases kind' with
    | integer m =>
      cases phrases
      exact .inl ⟨rfl, by simp⟩
    | fraction | var | param => cases phrases
    | operator => cases operators
  | fraction x =>
    cases kind' with
    | fraction y =>
      cases phrases
      exact .inl ⟨rfl, by simp⟩
    | integer | var | param => cases phrases
    | operator => cases operators
  | var =>
    cases kind' with
    | var => exact .inl ⟨rfl, by simp⟩
    | param index =>
      obtain ⟨name, entry, other, -⟩ := spelled'
      simp only [Function.leafPhrase, entry, Option.getD_some, Phrase.name.injEq] at phrases
      exact absurd (phrases.symm.trans variableName) other
    | integer | fraction => cases phrases
    | operator => cases operators
  | param index =>
    obtain ⟨name, entry, other, -⟩ := spelled
    simp only [Function.leafPhrase, entry, Option.getD_some] at phrases
    cases kind' with
    | var =>
      cases phrases
      exact absurd variableName.symm other
    | param index' =>
      obtain ⟨name', entry', -, -⟩ := spelled'
      simp only [entry', Option.getD_some, Phrase.name.injEq] at phrases
      subst phrases
      exact .inr ⟨index, index', name, rfl, rfl, entry, entry'⟩
    | integer | fraction => cases phrases
    | operator => cases operators
  | operator op =>
    cases kind' with
    | operator op' =>
      cases operators
      exact .inl ⟨rfl, by simp⟩
    | integer | fraction | var | param => cases operators

/-! ## Markup of trees -/

/-- The markup of a tree, with the names of a function. -/
inductive Marks (f : Function) : Tree → Markup → Prop where
  | leaf {kind : Kind} {span : Span} {signed : Bool} {w : Word} (leaf : kind.operator? = none)
      (text : (f.leafPhrase kind).latex = signText signed ++ w.text) :
      Marks f (.leaf kind span) (.word signed w)
  | power {kind : Kind} {span below : Span} {signed : Bool} {w : Word} {r : Tree} {m : Markup}
      (leaf : kind.operator? = none) (text : (f.leafPhrase kind).latex = signText signed ++ w.text)
      (onRight : Marks f r m) :
      Marks f (.node (.operator (.binary .pow)) span (.leaf kind below) r) (.power signed w m)
  | groupPower {span : Span} {l r : Tree} {m n : Markup} (noLeaf : l.isWrapped (.binary .pow) false = true)
      (onLeft : Marks f l m) (onRight : Marks f r n) :
      Marks f (.node (.operator (.binary .pow)) span l r) (.groupPower m n)
  | fraction {span : Span} {l r : Tree} {m n : Markup} (onLeft : Marks f l m) (onRight : Marks f r n) :
      Marks f (.node (.operator (.binary .div)) span l r) (.fraction m n)
  | joined {op : BinaryOp} {span : Span} {l r : Tree} {wrap wrap' : Bool} {m n : Markup}
      (inline : op ≠ .div ∧ op ≠ .pow) (wraps : l.isWrapped (.binary op) false = wrap)
      (wraps' : r.isWrapped (.binary op) true = wrap') (onLeft : Marks f l m) (onRight : Marks f r n) :
      Marks f (.node (.operator (.binary op)) span l r) (.joined op inline wrap m wrap' n)
  | negation {span : Span} {r : Tree} {wrap : Bool} {m : Markup}
      (wraps : r.isWrapped (.binary .sub) true = wrap) (onRight : Marks f r m) :
      Marks f (.node (.operator (.binary .sub)) span .absent r) (.negation wrap m)
  | root {span : Span} {r : Tree} {m : Markup} (onRight : Marks f r m) :
      Marks f (.node (.operator (.apply .sqrt)) span .absent r) (.root m)
  | call {h : Elementary} {span : Span} {r : Tree} {wrap : Bool} {m : Markup} (noRoot : h ≠ .sqrt)
      (wraps : r.isWrapped (.apply h) true = wrap) (onRight : Marks f r m) :
      Marks f (.node (.operator (.apply h)) span .absent r) (.call h noRoot wrap m)

/-- Every tree whose leaves have words has a markup. -/
theorem exists_marks (shaped : t.WellShaped) (spelled : t.EveryKind f.IsSpelled) :
    ∃ m, f.Marks t m := by
  induction shaped with
  | leaf noOperator =>
    obtain ⟨signed, w, text⟩ := (spelled.1.leafPhrase noOperator).exists_word
    exact ⟨_, .leaf noOperator text⟩
  | negation _ ih =>
    obtain ⟨m, marks⟩ := ih spelled.2.2
    exact ⟨_, .negation rfl marks⟩
  | @binary op span l r onLeft onRight ihLeft ihRight =>
    obtain ⟨m, marks⟩ := ihLeft spelled.2.1
    obtain ⟨n, marks'⟩ := ihRight spelled.2.2
    cases op with
    | add | sub | mul => exact ⟨_, .joined (by decide) rfl rfl marks marks'⟩
    | div => exact ⟨_, .fraction marks marks'⟩
    | pow =>
      cases onLeft with
      | leaf noOperator =>
        obtain ⟨signed, w, text⟩ := (spelled.2.1.1.leafPhrase noOperator).exists_word
        exact ⟨_, .power noOperator text marks'⟩
      | negation => exact ⟨_, .groupPower rfl marks marks'⟩
      | @binary inner =>
        refine ⟨_, .groupPower ?_ marks marks'⟩
        cases inner <;> rfl
      | call => exact ⟨_, .groupPower rfl marks marks'⟩
  | @call h span r _ ih =>
    obtain ⟨m, marks⟩ := ih spelled.2.2
    by_cases root : h = .sqrt
    · subst root
      exact ⟨_, .root marks⟩
    · exact ⟨_, .call root rfl marks⟩

theorem phrase_leaf (leaf : kind.operator? = none) (span : Span) :
    (Tree.leaf kind span).phrase f.leafPhrase = f.leafPhrase kind := by
  cases kind with
  | integer | fraction | var | param => rfl
  | operator => cases leaf

theorem latex_call {h : Elementary} (noRoot : h ≠ .sqrt) (span : Span) {r : Tree}
    (there : r.phrase f.leafPhrase ≠ .absent) :
    ((Tree.node (.operator (.apply h)) span .absent r).phrase f.leafPhrase).latex =
      braced (h.latex.toList ++
        braced (wrappedLatex (r.isWrapped (.apply h) true) (r.phrase f.leafPhrase).latex)) := by
  rw [Tree.phrase]
  generalize r.phrase f.leafPhrase = argument at there
  cases h with
  | sqrt => exact absurd rfl noRoot
  | exp | log | sin | cos | tan | cot | arcsin | arccos | arctan | arccot =>
    cases argument with
    | absent => exact absurd rfl there
    | integer | fraction | name | operation => rfl

theorem Marks.phrase_ne_absent {m : Markup} (marks : f.Marks t m) : t.phrase f.leafPhrase ≠ .absent := by
  cases marks with
  | @leaf kind _ _ _ leaf =>
    rw [phrase_leaf leaf]
    cases kind with
    | integer | fraction | var | param => exact nofun
    | operator => cases leaf
  | power | groupPower | fraction | joined | negation | root | call => exact nofun

theorem Marks.text_eq {m : Markup} (marks : f.Marks t m) : m.text = (t.phrase f.leafPhrase).latex := by
  induction marks with
  | leaf leaf text =>
    rw [phrase_leaf leaf, text]
    rfl
  | @power kind span below signed w r m leaf text onRight ih =>
    have noWrap : (Tree.leaf kind below).isWrapped (.binary .pow) false = false := by
      rw [Tree.isWrapped_binary, Tree.priority, show (Tree.leaf kind below).operator? = none from leaf]
      rfl
    rw [Tree.phrase, noWrap, phrase_leaf leaf, Phrase.latex, text, Markup.text_power, ih]
    simp [wrappedLatex, BinaryOp.latex]
  | groupPower noLeaf onLeft onRight ihLeft ihRight =>
    rw [Tree.phrase, noLeaf, Phrase.latex, Markup.text_groupPower, ihLeft, ihRight]
    simp [BinaryOp.latex]
  | fraction onLeft onRight ihLeft ihRight =>
    rw [Tree.phrase, Phrase.latex, Markup.text_fraction, ihLeft, ihRight]
    simp [BinaryOp.latex]
  | @joined op span l r wrap wrap' m n inline wraps wraps' onLeft onRight ihLeft ihRight =>
    rw [Tree.phrase, wraps, wraps', Markup.braced_joined, ihLeft, ihRight, ← List.append_assoc]
    cases op with
    | add | sub | mul => rfl
    | div => exact absurd rfl inline.1
    | pow => exact absurd rfl inline.2
  | negation wraps onRight ih =>
    rw [Tree.phrase, wraps, Markup.braced_negation, ih]
    rfl
  | root onRight ih =>
    rw [Tree.phrase, Phrase.latex, Markup.text_root, ih]
    rfl
  | call noRoot wraps onRight ih =>
    rw [latex_call noRoot _ onRight.phrase_ne_absent, wraps, Markup.braced_call, ih]

/-! ## Trees with the same markup -/

theorem IsSpelled.agrees (spelled : f.IsSpelled kind) (leaf : kind.operator? = none)
    (spelled' : g.IsSpelled kind') (leaf' : kind'.operator? = none) {text : List Char}
    (left : (f.leafPhrase kind).latex = text) (right : (g.leafPhrase kind').latex = text) :
    f.Agrees g kind kind' :=
  ⟨leaf.trans leaf'.symm,
    (spelled.leafPhrase leaf).eq_of_latex (spelled'.leafPhrase leaf') (left.trans right.symm)⟩

theorem agrees_operator (op : Operator) : f.Agrees g (.operator op) (.operator op) := ⟨rfl, rfl⟩

/-- Trees with the same markup match node by node. -/
theorem Marks.matches {m : Markup} (marks : f.Marks t m) (marks' : g.Marks u m)
    (spelled : t.EveryKind f.IsSpelled) (spelled' : u.EveryKind g.IsSpelled) :
    t.Matches (f.Agrees g) u := by
  induction marks generalizing u with
  | leaf leaf text =>
    cases marks' with
    | leaf leaf' text' => exact ⟨spelled.1.agrees leaf spelled'.1 leaf' text text', trivial, trivial⟩
  | power leaf text _ ih =>
    cases marks' with
    | power leaf' text' onRight =>
      have base := spelled.2.1.1.agrees leaf spelled'.2.1.1 leaf' text text'
      exact ⟨agrees_operator _, ⟨base, trivial, trivial⟩, ih onRight spelled.2.2 spelled'.2.2⟩
  | groupPower _ _ _ ihLeft ihRight =>
    cases marks' with
    | groupPower _ onLeft onRight =>
      exact ⟨agrees_operator _, ihLeft onLeft spelled.2.1 spelled'.2.1,
        ihRight onRight spelled.2.2 spelled'.2.2⟩
  | fraction _ _ ihLeft ihRight =>
    cases marks' with
    | fraction onLeft onRight =>
      exact ⟨agrees_operator _, ihLeft onLeft spelled.2.1 spelled'.2.1,
        ihRight onRight spelled.2.2 spelled'.2.2⟩
  | joined _ _ _ _ _ ihLeft ihRight =>
    cases marks' with
    | joined _ _ _ onLeft onRight =>
      exact ⟨agrees_operator _, ihLeft onLeft spelled.2.1 spelled'.2.1,
        ihRight onRight spelled.2.2 spelled'.2.2⟩
  | negation _ _ ih =>
    cases marks' with
    | negation _ onRight => exact ⟨agrees_operator _, trivial, ih onRight spelled.2.2 spelled'.2.2⟩
  | root _ ih =>
    cases marks' with
    | root onRight => exact ⟨agrees_operator _, trivial, ih onRight spelled.2.2 spelled'.2.2⟩
  | call _ _ _ ih =>
    cases marks' with
    | call _ _ onRight => exact ⟨agrees_operator _, trivial, ih onRight spelled.2.2 spelled'.2.2⟩

/-- Trees with the same LaTeX match node by node. -/
theorem matches_of_latex (shaped : t.WellShaped) (shaped' : u.WellShaped)
    (spelled : t.EveryKind f.IsSpelled) (spelled' : u.EveryKind g.IsSpelled)
    (same : (t.phrase f.leafPhrase).latex = (u.phrase g.leafPhrase).latex) :
    t.Matches (f.Agrees g) u := by
  obtain ⟨m, marks⟩ := exists_marks shaped spelled
  obtain ⟨n, marks'⟩ := exists_marks shaped' spelled'
  have texts : m.text = n.text := by rw [marks.text_eq, marks'.text_eq, same]
  rw [← Markup.text_injective texts] at marks'
  exact marks.matches marks' spelled spelled'

/-! ## Trees with the same names -/

theorem IsSpelled.same_self (spelled : f.IsSpelled kind) : kind.same kind = true := by
  cases kind with
  | fraction x =>
    cases x with
    | nan => exact absurd rfl spelled
    | infinity | finite => simp [Kind.same, BEq.beq, Binary64.same]
  | integer | var | param | operator => simp [Kind.same]

theorem same_of_matches (agree : t.Matches (f.Agrees g) u) (spelled : t.EveryKind f.IsSpelled)
    (spelled' : u.EveryKind g.IsSpelled) (variableName : f.variableName = g.variableName)
    (params : f.params = g.params) (nodup : f.params.names.Nodup) : t.same u = true := by
  refine Tree.same_of_matches (agree.mono spelled spelled' ?_)
  intro kind kind' agrees onLeft onRight
  have kinds : kind = kind' := by
    obtain ⟨rfl, -⟩ | ⟨index, index', name, rfl, rfl, entry, entry'⟩ :=
      agrees.cases onLeft onRight variableName
    · rfl
    · -- A name stands at one index of the table only.
      rw [← params] at entry'
      obtain ⟨bound, -⟩ := List.getElem?_eq_some_iff.mp entry
      exact congrArg Kind.param ((List.getElem?_inj bound nodup).mp (entry.trans entry'.symm))
  rw [← kinds]
  exact onLeft.same_self

/-- The names of the parameters are read off the leaves. -/
theorem parameterNames_of_matches (agree : t.Matches (f.Agrees g) u)
    (spelled : t.EveryKind f.IsSpelled) (spelled' : u.EveryKind g.IsSpelled)
    (variableName : f.variableName = g.variableName) : f.parameterNames t = g.parameterNames u := by
  induction t generalizing u with
  | absent =>
    cases u with
    | absent => rfl
    | node => exact agree.elim
  | node kind span l r ihLeft ihRight =>
    cases u with
    | absent => exact agree.elim
    | node kind' span' l' r' =>
      obtain ⟨here, onLeft, onRight⟩ := agree
      have left := ihLeft onLeft spelled.2.1 spelled'.2.1
      have right := ihRight onRight spelled.2.2 spelled'.2.2
      obtain ⟨rfl, noParam⟩ | ⟨index, index', name, rfl, rfl, entry, entry'⟩ :=
        here.cases spelled.1 spelled'.1 variableName
      · cases kind with
        | param index => exact absurd rfl (noParam index)
        | integer | fraction | var | operator =>
          simp only [parameterNames, Tree.paramIndexes, List.map_append] at left right ⊢
          rw [left, right]
      · simp [parameterNames, Tree.paramIndexes, entry, entry']

/-! ## Definitions -/

theorem IsWritten.spelled (written : f.IsWritten) : f.body.tree.EveryKind f.IsSpelled := by
  refine written.leaves.mono fun kind named => ?_
  cases kind with
  | fraction x =>
    rintro rfl
    exact named.elim
  | var => exact named.1
  | param index =>
    obtain ⟨name, entry, other, letters, -⟩ := named
    exact ⟨name, entry, other, letters⟩
  | integer | operator => trivial

/-- A definition in LaTeX, as far as the names and the body can be told. -/
theorem toList_latex (f : Function) : f.latex.toList =
    f.name.toList ++ '(' :: (identifier f.variableName ++ ')' :: '=' :: f.phrase.latex) := by
  simp [latex, bodyLatex]

theorem parts_of_latex (onName : IsIdentifier f.name.toList) (onName' : IsIdentifier g.name.toList)
    (onVariable : IsIdentifier f.variableName.toList)
    (onVariable' : IsIdentifier g.variableName.toList) (same : f.latex = g.latex) :
    f.name = g.name ∧ f.variableName = g.variableName ∧ f.phrase.latex = g.phrase.latex := by
  have chars := congrArg String.toList same
  rw [toList_latex, toList_latex] at chars
  have letters : ∀ {word : List Char}, IsIdentifier word → ∀ c ∈ word, c.isAlphanum = true := by
    rintro word ⟨first, rest, rfl, letter, others⟩ c mem
    obtain rfl | mem := List.mem_cons.mp mem
    · exact isAlphanum_iff.mpr (.inl letter)
    · exact others c mem
  have opening : ∀ t, ∀ c ∈ ('(' :: t).head?, Char.isAlphanum c = false := by
    rintro t c ⟨⟩
    rfl
  obtain ⟨names, rest⟩ := eq_of_runs (letters onName) (letters onName') (opening _) (opening _) chars
  have closing : ∀ t, EndsWord (')' :: t) := by
    rintro t c ⟨⟩
    decide
  obtain ⟨identifiers, body⟩ := (isWord_identifier onVariable).eq_of_append
    (isWord_identifier onVariable') (closing _) (closing _) (List.cons.inj rest).2
  exact ⟨String.toList_inj.mp names, identifier_injective identifiers,
    (List.cons.inj (List.cons.inj body).2).2⟩

theorem phrase_latex_of_bodyLatex (same : f.bodyLatex = g.bodyLatex) :
    f.phrase.latex = g.phrase.latex :=
  String.ofList_inj.mp same

/-- Functions with the same names and the same LaTeX have equal trees, if no name in the table
    occurs twice and every leaf has a word. Parsed functions whose definitions have the same
    LaTeX are equal. -/
theorem latex_faithful :
    (∀ f g : Function, f.body.WellFormed → g.body.WellFormed → f.body.tree.EveryKind f.IsSpelled →
      g.body.tree.EveryKind g.IsSpelled → f.variableName = g.variableName → f.params = g.params →
      f.params.names.Nodup → f.bodyLatex = g.bodyLatex → f.body.same g.body = true) ∧
    ∀ (source source' : String) (f g : Function), parse source = .ok f → parse source' = .ok g →
      f.latex = g.latex → f.same g = true := by
  constructor
  · intro f g formed formed' spelled spelled' variableName params nodup same
    have phrases := phrase_latex_of_bodyLatex same
    rw [phrase_eq formed, phrase_eq formed'] at phrases
    have agree := matches_of_latex formed.tree formed'.tree spelled spelled' phrases
    exact same_of_matches agree spelled spelled' variableName params nodup
  · intro source source' f g parsed parsed' same
    have written := isWritten_of_parse parsed
    have written' := isWritten_of_parse parsed'
    obtain ⟨name, variableName, phrases⟩ := parts_of_latex written.name written'.name
      written.variableName written'.variableName same
    rw [phrase_eq written.formed, phrase_eq written'.formed] at phrases
    have agree := matches_of_latex written.formed.tree written'.formed.tree written.spelled
      written'.spelled phrases
    -- The tables hold the parameters of the trees, in the same order.
    have names := parameterNames_of_matches agree written.spelled written'.spelled variableName
    have params : f.params = g.params := congrArg ParameterTable.mk <| by
      rw [written.params, written'.params, names]
    have trees := same_of_matches agree written.spelled written'.spelled variableName params
      written.nodup
    simp [Function.same, name, variableName, params, Arena.same, trees]

/-- The definition `f(x)=x1*a`, with its body at any place. -/
def productOfNames (start : Nat) : Definition :=
  ⟨"f", "x", .binary .mul (.name "x1" ⟨start, start + 2⟩) (.name "a" ⟨start + 3, start + 4⟩)
    ⟨start, start + 4⟩⟩

theorem latex_faithful_product :
    (scatteredProduct.bodyLatex = (ofDefinition sumTimesReciprocal).bodyLatex ∧
      scatteredProduct.body.same (ofDefinition sumTimesReciprocal).body = true) ∧
    ∃ f g, parse "f(x)=x1*a" = .ok f ∧ parse "f(x) = x1*a" = .ok g ∧ f.latex = g.latex ∧
      f.same g = true := by
  have x : IsIdentifier ['x'] := ⟨'x', [], rfl, rfl, nofun⟩
  have y : IsIdentifier ['y'] := ⟨'y', [], rfl, rfl, nofun⟩
  constructor
  · have formed : scatteredProduct.body.WellFormed :=
      ⟨_, Arena.holds_scattered,
        .binary (.binary (.leaf rfl) (.leaf rfl)) (.binary (.leaf rfl) (.leaf rfl))⟩
    have spelled : scatteredProduct.body.tree.EveryKind scatteredProduct.IsSpelled := by
      rw [scatteredProduct, Arena.holds_scattered.tree_eq]
      simp [Arena.scatteredLayout, Layout.tree, Tree.EveryKind, Tree.Every, IsSpelled,
        ParameterTable.get?, x, y]
    have parsed : parse "f(x)=(0+x)*(1/y)" = .ok (ofDefinition sumTimesReciprocal) :=
      parse_eq_ok_iff.mpr ⟨_, by decide +kernel, rfl⟩
    have latex : scatteredProduct.bodyLatex = (ofDefinition sumTimesReciprocal).bodyLatex := by
      decide +kernel
    exact ⟨latex, latex_faithful.1 _ _ formed (wellFormed_body_ofDefinition _) spelled
      (isWritten_of_parse parsed).spelled rfl rfl (by decide) latex⟩
  · have left : parse "f(x)=x1*a" = .ok (ofDefinition (productOfNames 5)) :=
      parse_eq_ok_iff.mpr ⟨_, by decide +kernel, rfl⟩
    have right : parse "f(x) = x1*a" = .ok (ofDefinition (productOfNames 7)) :=
      parse_eq_ok_iff.mpr ⟨_, by decide +kernel, rfl⟩
    have latex : (ofDefinition (productOfNames 5)).latex = (ofDefinition (productOfNames 7)).latex := by
      decide +kernel
    exact ⟨_, _, left, right, latex, latex_faithful.2 _ _ _ _ left right latex⟩

end Function
end Fluxion
