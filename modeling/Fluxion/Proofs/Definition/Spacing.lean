import Fluxion.Proofs.Definition.Lockstep
import Fluxion.Proofs.Function.Equality
/- Blanks between tokens. Two sources with the same words (`words`), of which the same are joined to
   numbers (`joints`), are read alike (`Function.alikeResults_of_respaced`): the functions are
   equal, or the fault is the same, with the same name, overflow and suggestions (`parse_respaced`).

   The readers skip blanks wherever they look at a token, but for what directly follows digits, and
   there a joint says what they find: digits joined to a separator, and a separator joined to
   digits. Cursors in front of the same words stay in front of the same words
   (`Respaced.next_cases`), so they are in lockstep (`isLockstep_respaced`), and nothing but places
   can tell the readings apart.

   Equality of functions does not look at places, and it is reflexive here because no literal of a
   source is other than a number. A carriage return at the end of a text is one more blank
   (`respaced_append_return`). -/
namespace Fluxion

open Grammar Definition

/-! ## Words and joints -/

namespace Token

/-- The tokens that are no blanks, by kind and text. -/
def words (tokens : List Token) : List (Kind × String) :=
  (tokens.filter (!·.isBlank)).map fun t => (t.kind, t.text)

/-- Whether the token is the digits in front of a separator, or a separator in front of digits,
    and directly so. -/
def isJoined (t : Token) (behind : List Token) : Bool :=
  behind.head?.any fun next =>
    (t.kind == .digits && next.kind.isSeparator) || (t.kind.isSeparator && next.kind == .digits)

/-- Which of the tokens that are no blanks are joined to what follows them. -/
def joints : List Token → List Bool
  | [] => []
  | t :: behind => if t.isBlank then joints behind else t.isJoined behind :: joints behind

/-- The tokens differ in their places and in the blanks between them, but not within numbers. -/
structure Respaced (a b : List Token) : Prop where
  words : words a = words b
  joints : joints a = joints b

variable {a b : List Token} {t : Token}

theorem words_trim (a : List Token) : words (trim a) = words a := by
  induction a with
  | nil => rfl
  | cons t rest ih =>
    by_cases blank : t.isBlank = true
    · rw [trim, List.dropWhile_cons_of_pos blank, words, words, List.filter_cons_of_neg (by simp [blank])]
      exact ih
    · rw [trim, List.dropWhile_cons_of_neg blank]

theorem joints_trim (a : List Token) : joints (trim a) = joints a := by
  induction a with
  | nil => rfl
  | cons t rest ih =>
    by_cases blank : t.isBlank = true
    · rw [trim, List.dropWhile_cons_of_pos blank, joints, if_pos blank]
      exact ih
    · rw [trim, List.dropWhile_cons_of_neg blank]

theorem words_cons (there : t.kind ≠ .blank) (rest : List Token) :
    words (t :: rest) = (t.kind, t.text) :: words rest := by
  have noBlank : t.isBlank = false := beq_eq_false_iff_ne.mpr there
  rw [words, List.filter_cons_of_pos (by rw [noBlank]; rfl), List.map_cons, words]

theorem joints_cons (there : t.kind ≠ .blank) (rest : List Token) :
    joints (t :: rest) = t.isJoined rest :: joints rest := by
  have noBlank : t.isBlank = false := beq_eq_false_iff_ne.mpr there
  rw [joints, noBlank]
  rfl

theorem Respaced.of_cons {t' : Token} {rest rest' : List Token}
    (respaced : Respaced (t :: rest) (t' :: rest')) (there : t.kind ≠ .blank)
    (there' : t'.kind ≠ .blank) : t.kind = t'.kind ∧ t.text = t'.text ∧
      t.isJoined rest = t'.isJoined rest' ∧ Respaced rest rest' := by
  obtain ⟨words, joints⟩ := respaced
  rw [words_cons there, words_cons there'] at words
  rw [joints_cons there, joints_cons there'] at joints
  obtain ⟨word, words⟩ := List.cons.inj words
  obtain ⟨joint, joints⟩ := List.cons.inj joints
  obtain ⟨kind, text⟩ := Prod.mk.inj word
  exact ⟨kind, text, joint, words, joints⟩

/-- The next words are the same, joined or not, and what is behind them is the same again. -/
theorem Respaced.trim_cases (respaced : Respaced a b) :
    (∃ t rest t' rest', trim a = t :: rest ∧ trim b = t' :: rest' ∧ t.kind = t'.kind ∧
        t.text = t'.text ∧ t.isJoined rest = t'.isJoined rest' ∧ Respaced rest rest') ∨
      (trim a = [] ∧ trim b = []) := by
  have trimmed : Respaced (trim a) (trim b) :=
    ⟨by rw [words_trim, words_trim, respaced.words], by rw [joints_trim, joints_trim, respaced.joints]⟩
  cases left : trim a with
  | nil =>
    cases right : trim b with
    | nil => exact .inr ⟨rfl, rfl⟩
    | cons t' rest' =>
      have words := trimmed.words
      rw [left, right, words_cons (State.ne_blank_of_trim right)] at words
      cases words
  | cons t rest =>
    have there := State.ne_blank_of_trim left
    cases right : trim b with
    | nil =>
      have words := trimmed.words
      rw [left, right, words_cons there] at words
      cases words
    | cons t' rest' =>
      rw [left, right] at trimmed
      exact .inl ⟨t, rest, t', rest', rfl, rfl,
        trimmed.of_cons there (State.ne_blank_of_trim right)⟩

theorem isJoined_digits (kind : t.kind = .digits) (behind : List Token) :
    t.isJoined behind = behind.head?.any (·.kind.isSeparator) := by
  have noSeparator : Kind.digits.isSeparator = false := rfl
  simp only [isJoined, kind, beq_self_eq_true, noSeparator, Bool.true_and, Bool.false_and,
    Bool.or_false]

theorem isJoined_separator (kind : t.kind.isSeparator = true) (behind : List Token) :
    t.isJoined behind = behind.head?.any (·.kind == .digits) := by
  have noDigits : (t.kind == .digits) = false := by
    apply beq_eq_false_iff_ne.mpr
    intro same
    rw [same] at kind
    cases kind
  simp only [isJoined, noDigits, kind, Bool.false_and, Bool.true_and, Bool.false_or]

theorem Respaced.cons (respaced : Respaced a b) (t : Token) (joint : t.isJoined a = t.isJoined b) :
    Respaced (t :: a) (t :: b) := by
  obtain ⟨words, joints⟩ := respaced
  by_cases blank : t.kind = .blank
  · have isBlank : t.isBlank = true := beq_iff_eq.mpr blank
    refine ⟨?_, ?_⟩
    · rw [Token.words, Token.words, List.filter_cons_of_neg (by simp [isBlank]),
        List.filter_cons_of_neg (by simp [isBlank])]
      exact words
    · rw [Token.joints, Token.joints, if_pos isBlank, if_pos isBlank, joints]
  · exact ⟨by rw [words_cons blank, words_cons blank, words],
      by rw [joints_cons blank, joints_cons blank, joint, joints]⟩

end Token

/-! ## Cursors -/

namespace Cursor

/-- The same words are ahead, and behind the last token there is the same word. -/
structure Respaced (c c' : Cursor) : Prop where
  ahead : Token.Respaced c.ahead c'.ahead
  previous : c.previous?.map (fun t => (t.kind, t.text)) = c'.previous?.map (fun t => (t.kind, t.text))

variable {c c' d d' : Cursor} {t t' : Token}

theorem Respaced.skipBlanks (same : Respaced c c') : Respaced c.skipBlanks c'.skipBlanks where
  ahead := by
    rw [ahead_skipBlanks, ahead_skipBlanks]
    exact ⟨by rw [Token.words_trim, Token.words_trim, same.ahead.words],
      by rw [Token.joints_trim, Token.joints_trim, same.ahead.joints]⟩
  previous := by rw [previous?_skipBlanks, previous?_skipBlanks, same.previous]

/-- Both cursors pass the same word, joined to what follows it or not, or none is left. -/
theorem Respaced.next_cases (same : Respaced c c') :
    (∃ t d t' d', c.next = (some t, d) ∧ c'.next = (some t', d') ∧ t.kind = t'.kind ∧
        t.text = t'.text ∧ t.isJoined d.ahead = t'.isJoined d'.ahead ∧ Respaced d d') ∨
      (c.next.1 = none ∧ c'.next.1 = none) := by
  obtain ⟨t, rest, t', rest', left, right, kind, text, joint, respaced⟩ | ⟨left, right⟩ :=
    same.ahead.trim_cases
  · obtain ⟨current, rfl⟩ := current?_skipBlanks left
    obtain ⟨current', rfl⟩ := current?_skipBlanks right
    have passed : c.next = (some t, c.skipBlanks.advance) := by rw [next, current]
    have passed' : c'.next = (some t', c'.skipBlanks.advance) := by rw [next, current']
    refine .inl ⟨t, _, t', _, passed, passed', kind, text, joint, respaced, ?_⟩
    rw [previous?_next passed, previous?_next passed', Option.map_some, Option.map_some, kind, text]
  · rw [← ahead_skipBlanks] at left right
    exact .inr ⟨by rw [next, current?, left]; rfl, by rw [next, current?, right]; rfl⟩

theorem ne_blank_of_isSeparator (separates : t.kind.isSeparator = true) : t.kind ≠ .blank := by
  intro blank
  rw [blank] at separates
  cases separates

/-- What directly follows digits is the same if they are joined to it or not at both cursors. -/
theorem Respaced.samePlaces (same : Respaced c c') (digits : t.kind = .digits)
    (digits' : t'.kind = .digits) (joint : t.isJoined c.ahead = t'.isJoined c'.ahead) :
    SamePlaces (fun _ => .nowhere) (fun _ => .nowhere) Respaced c c' := by
  rw [Token.isJoined_digits digits, Token.isJoined_digits digits'] at joint
  change c.current?.any (·.kind.isSeparator) = c'.current?.any (·.kind.isSeparator) at joint
  cases left : c.current?.any (·.kind.isSeparator) with
  | false => exact .none left (joint ▸ left)
  | true =>
    have right : c'.current?.any (·.kind.isSeparator) = true := joint ▸ left
    obtain ⟨s, current, separates⟩ := (Option.any_eq_true _ _).mp left
    obtain ⟨s', current', separates'⟩ := (Option.any_eq_true _ _).mp right
    have ahead := same.ahead
    rw [ahead_advance current, ahead_advance current'] at ahead
    obtain ⟨-, -, joint, behind⟩ := ahead.of_cons (ne_blank_of_isSeparator separates)
      (ne_blank_of_isSeparator separates')
    rw [Token.isJoined_separator separates, Token.isJoined_separator separates'] at joint
    change c.advance.current?.any (·.kind == .digits) =
      c'.advance.current?.any (·.kind == .digits) at joint
    cases places : c.advance.current?.any (·.kind == .digits) with
    | false =>
      have missing {b : Cursor} (none : b.current?.any (·.kind == .digits) = false) :
          b.ahead? .digits = .none :=
        Option.filter_eq_none_iff.mpr fun u here => by
          simpa using (Option.any_eq_false _ _).mp none u here
      exact .missing left right (missing places) (missing (joint ▸ places)) rfl
    | true =>
      have found {b : Cursor} (some : b.current?.any (·.kind == .digits) = true) :
          ∃ u, b.current? = .some u ∧ u.kind = .digits ∧ b.ahead? .digits = .some u := by
        obtain ⟨u, here, isDigits⟩ := (Option.any_eq_true _ _).mp some
        exact ⟨u, here, eq_of_beq isDigits, Option.filter_eq_some_iff.mpr ⟨here, isDigits⟩⟩
      obtain ⟨u, here, isDigits, ahead⟩ := found places
      obtain ⟨u', here', isDigits', ahead'⟩ := found (joint ▸ places)
      have there : u.kind ≠ .blank := by rw [isDigits]; decide
      have there' : u'.kind ≠ .blank := by rw [isDigits']; decide
      rw [ahead_advance here, ahead_advance here'] at behind
      obtain ⟨kind, text, -, behind⟩ := behind.of_cons there there'
      refine .some left right ahead ahead' ⟨kind, text, rfl⟩ ⟨behind, ?_⟩
      rw [previous?_advance here there, previous?_advance here' there', Option.map_some,
        Option.map_some, kind, text]

/-- Without their places, the readings of the same words are the same. -/
theorem isLockstep_respaced :
    IsLockstep (fun _ => .nowhere) (fun _ => .nowhere) Respaced where
  respects := Span.respects_nowhere
  respects' := Span.respects_nowhere
  next same := by
    refine ⟨rfl, ?_⟩
    obtain ⟨t, d, t', d', passed, passed', kind, text, -, behind⟩ | none := same.next_cases
    · exact .inl ⟨t, d, t', d', passed, passed', ⟨kind, text, rfl⟩, behind⟩
    · exact .inr none
  skip same := same.skipBlanks
  places {c c' d d' t t'} same passed passed' digits := by
    obtain ⟨u, e, u', e', left, right, kind, -, joint, behind⟩ | ⟨none, -⟩ := same.next_cases
    · rw [passed] at left
      rw [passed'] at right
      cases left
      cases right
      exact behind.samePlaces digits (kind ▸ digits) joint
    · rw [passed] at none
      cases none
  stop _ := rfl
  previous same := same.previous

end Cursor

/-! ## Functions -/

theorem Binary64.IsUnsigned.isDistinctive {x : Binary64} (unsigned : x.IsUnsigned) :
    x.IsDistinctive := by
  cases x with
  | nan => cases unsigned
  | infinity negative => exact ⟨nofun, nofun⟩
  | finite negative rank =>
    refine ⟨nofun, fun other same => ?_⟩
    cases unsigned
    cases same

namespace Function

variable {f g : Function}

/-- The literals of a source have no sign. -/
theorem IsWritten.isDistinctive (written : f.IsWritten) :
    f.body.tree.EveryKind Kind.IsDistinctive :=
  written.leaves.mono fun kind named x fraction => by
    rw [fraction] at named
    exact Binary64.IsUnsigned.isDistinctive named

/-- Definitions that differ in places only define functions that differ in places only. -/
theorem alike_ofDefinition {d d' : Definition}
    (same : d.relocate (fun _ => .nowhere) = d'.relocate (fun _ => .nowhere)) :
    (ofDefinition d).Alike (ofDefinition d') := by
  simp only [Definition.relocate, Definition.mk.injEq] at same
  obtain ⟨name, variableName, body⟩ := same
  have resolved := congrArg (fun body : Term => body.resolve d.variableName {}) body
  simp only [Term.resolve_relocate, variableName, Prod.mk.injEq, Tree.relocate_nowhere] at resolved
  refine ⟨name, variableName, ?_, ?_⟩
  · simpa only [ofDefinition, variableName] using resolved.2
  · rw [tree_body_ofDefinition, tree_body_ofDefinition, variableName]
    exact resolved.1

/-- What is read alike from two sources: equal functions, or the same fault. -/
inductive AlikeResults : Except SyntaxError Function → Except SyntaxError Function → Prop where
  | ok {f g : Function} (alike : f.Alike g) (same : f.same g = true) : AlikeResults (.ok f) (.ok g)
  | error {e e' : SyntaxError} (fault : e.fault = e'.fault) : AlikeResults (.error e) (.error e')

theorem alikeResults_of_respaced {source source' : String}
    (respaced : Token.Respaced (Token.tokenize source) (Token.tokenize source')) :
    AlikeResults (parse source) (parse source') := by
  have start : Cursor.Respaced (.ofSource source) (.ofSource source') := ⟨respaced, rfl⟩
  have read := Cursor.isLockstep_respaced.read_eq (Cursor.isLockstep_respaced.next start)
  have parsed : ∀ source, parse source = (Definition.read (.ofSource source)).map ofDefinition :=
    fun _ => rfl
  have left := parsed source
  have right := parsed source'
  cases first : Definition.read (.ofSource source) with
  | ok d =>
    cases second : Definition.read (.ofSource source') with
    | ok d' =>
      rw [first] at left read
      rw [second] at right read
      have alike := alike_ofDefinition (Except.ok.inj read)
      rw [left, right]
      exact .ok alike ((same_iff (isWritten_of_parse left).isDistinctive
        (isWritten_of_parse right).isDistinctive).mpr alike)
    | error e' =>
      rw [first, second] at read
      cases read
  | error e =>
    cases second : Definition.read (.ofSource source') with
    | ok d' =>
      rw [first, second] at read
      cases read
    | error e' =>
      rw [first] at left read
      rw [second] at right read
      rw [left, right]
      have faults : e.relocate (fun _ => .nowhere) = e'.relocate (fun _ => .nowhere) :=
        Except.error.inj read
      rw [Located.relocate, Located.relocate, Located.mk.injEq] at faults
      exact .error faults.1

/-- Sources with the same words, of which the same are joined to numbers, define equal functions
    or have the same fault, with the same name, the same overflow and the same suggestions. -/
theorem parse_respaced (source source' : String)
    (words : Token.words (Token.tokenize source) = Token.words (Token.tokenize source'))
    (joints : Token.joints (Token.tokenize source) = Token.joints (Token.tokenize source')) :
    (∃ f g, parse source = .ok f ∧ parse source' = .ok g ∧ f.Alike g ∧ f.same g = true) ∨
      ∃ e e', parse source = .error e ∧ parse source' = .error e' ∧ e.fault = e'.fault := by
  have results := alikeResults_of_respaced ⟨words, joints⟩
  generalize parse source = x at results ⊢
  generalize parse source' = x' at results ⊢
  cases results with
  | ok alike same => exact .inl ⟨_, _, rfl, rfl, alike, same⟩
  | error fault => exact .inr ⟨_, _, rfl, rfl, fault⟩

theorem parse_respaced_calls :
    (∃ f g, parse "f(x)=sin(1.5*x)-a" = .ok f ∧ parse " f (x)\t= sin ( 1.5 *x)\r\n -a " = .ok g ∧
        f.Alike g ∧ f.same g = true) ∧
      ∃ e e', parse "f(x)=cosh(x)" = .error e ∧ parse "f( x )=cosh  (x )" = .error e' ∧
        e.fault = .trailing ["cos", "cot"] ∧ e'.fault = .trailing ["cos", "cot"] := by
  have accepted : (parse "f(x)=sin(1.5*x)-a").toOption.isSome = true := by decide +kernel
  have refused : (parse "f(x)=cosh(x)").mapError (·.fault) = .error (.trailing ["cos", "cot"]) := by
    decide +kernel
  constructor
  · obtain both | ⟨e, -, error, -⟩ := parse_respaced "f(x)=sin(1.5*x)-a"
      " f (x)\t= sin ( 1.5 *x)\r\n -a " (by decide +kernel) (by decide +kernel)
    · exact both
    · rw [error] at accepted
      cases accepted
  · obtain ⟨f, -, ok, -⟩ | ⟨e, e', error, error', fault⟩ := parse_respaced "f(x)=cosh(x)"
      "f( x )=cosh  (x )" (by decide +kernel) (by decide +kernel)
    · rw [ok] at refused
      cases refused
    · rw [error] at refused
      have suggests : e.fault = .trailing ["cos", "cot"] := Except.error.inj refused
      exact ⟨e, e', error, error', suggests, fault ▸ suggests⟩

/-- A blank within a number makes it two. -/
example : Token.words (Token.tokenize "f(x)=1 .5") = Token.words (Token.tokenize "f(x)=1.5") ∧
    (parse "f(x)=1 .5").toOption = none ∧ (parse "f(x)=1.5").toOption.isSome = true := by
  decide +kernel

end Function

end Fluxion
