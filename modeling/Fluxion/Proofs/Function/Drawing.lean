import Fluxion.Proofs.Definition.Faults
import Fluxion.Proofs.Definition.ViablePrefix
import Fluxion.Proofs.Function.Offences
import Fluxion.Proofs.Function.SourceSpans
/- Drawing the labels of an error under its source. For this there must be a place for each label,
   and the places must lie in the source and begin and end between characters, also where a
   character has several bytes (`Located.IsDrawable`).

   The places of a syntactic fault are tokens or the end of the source (`Grammar.Refuses`), those of
   undefined parts are nodes of a parsed tree, which stand over tokens (`arePlaced_of_parse`).
   Beyond that, a message names the offset of the first place (`NamesFirstPlace`), a parenthesis
   that is not closed has its own place and no other one that could be meant (`IsUnclosedIn`), and
   what is left behind a definition reaches to the end of the source (`IsTrailingIn`).
   `errors_are_drawable` has all of it for every source. How a drawing looks is left out. -/
namespace Fluxion

open Grammar Token

variable {source : String}

/-! ## Spans -/

/-- The span lies within the source and begins and ends between characters. -/
structure Span.IsDrawable (span : Span) (source : String) : Prop where
  ordered : span.start ≤ span.stop
  within : span.stop ≤ source.utf8ByteSize
  starts : String.Pos.Raw.IsValid source ⟨span.start⟩
  stops : String.Pos.Raw.IsValid source ⟨span.stop⟩

theorem Span.CutsOut.isDrawable {span : Span} {text : String} (cuts : span.CutsOut source text) :
    span.IsDrawable source := by
  obtain ⟨before, behind, rfl, start, stop⟩ := cuts
  refine ⟨?_, ?_, ?_, ?_⟩
  · rw [start, stop, String.utf8ByteSize_append]
    exact Nat.le_add_right _ _
  · rw [stop, String.utf8ByteSize_append (t := behind)]
    exact Nat.le_add_right _ _
  · rw [start, String.append_assoc]
    exact String.Pos.Raw.isValid_iff_exists_append.mpr ⟨before, text ++ behind, rfl, rfl⟩
  · rw [stop]
    exact String.Pos.Raw.isValid_iff_exists_append.mpr ⟨before ++ text, behind, rfl, rfl⟩

/-- The error has a place for each of its labels, and all its places lie in the source. -/
structure Located.IsDrawable {φ : Type} [Reportable φ] (e : Located φ) (source : String) : Prop where
  labels : e.report.labels.length = e.spans.length
  spans : ∀ span ∈ e.spans, span.IsDrawable source

/-! ## Places of syntactic faults -/

namespace Grammar

theorem start_place {before rest : List Token} (tokens : tokenize source = before ++ rest) :
    (place rest source.utf8ByteSize).start = (joined before).utf8ByteSize := by
  cases rest with
  | nil =>
    rw [List.append_nil] at tokens
    rw [← tokens, joined_tokenize]
    rfl
  | cons t rest => exact (isCut_of_tokenize tokens).start

theorem isDrawable_place {rest : List Token} (suffix : rest <:+ tokenize source) :
    (place rest source.utf8ByteSize).IsDrawable source := by
  cases rest with
  | nil =>
    have atEnd : (place [] source.utf8ByteSize).CutsOut source "" :=
      ⟨source, "", by simp, rfl, by simp [place, Span.empty]⟩
    exact atEnd.isDrawable
  | cons t rest => exact (cutsOut_of_mem (suffix.subset List.mem_cons_self)).isDrawable

/-- From a token to the end of the source. -/
theorem isDrawable_onward {t : Token} {before rest : List Token}
    (tokens : tokenize source = before ++ t :: rest) :
    Span.IsDrawable ⟨t.start, source.utf8ByteSize⟩ source := by
  have cut := isCut_of_tokenize tokens
  have cuts : Span.CutsOut ⟨t.start, source.utf8ByteSize⟩ source (t.text ++ joined rest) := by
    refine ⟨joined before, "", ?_, cut.start, ?_⟩
    · rw [String.append_empty, ← String.append_assoc]
      exact cut.source
    · rw [← String.append_assoc]
      exact congrArg String.utf8ByteSize cut.source
  exact cuts.isDrawable

/-- What comes behind a token starts where it ends, or later. -/
theorem stop_le_start_place {t : Token} {before inner rest : List Token}
    (tokens : tokenize source = before ++ t :: inner ++ rest) :
    t.span.stop ≤ (place rest source.utf8ByteSize).start := by
  have cut : IsCut source before t (inner ++ rest) := isCut_of_tokenize (by simpa using tokens)
  have texts : joined (before ++ t :: inner) = joined before ++ t.text ++ joined inner := by
    rw [← List.singleton_append, joined_append, joined_append, String.append_assoc]
    simp [joined]
  rw [start_place tokens, cut.stop, texts, String.utf8ByteSize_append (t := joined inner)]
  exact Nat.le_add_right _ _

/-- The tokens in front of another are those that end where it starts, or before. -/
theorem filter_stop_of_tokenize {t : Token} {before rest : List Token}
    (tokens : tokenize source = before ++ t :: rest) :
    (tokenize source).filter (·.stop ≤ t.start) = before := by
  obtain ⟨place, tail, scanned, -, -, ends⟩ := scan_split tokens
  have start : t.start = place := by
    obtain ⟨c, run, rest, -, token, -⟩ := scan_eq_cons scanned.symm
    rw [token]
  rw [tokens, scanned, start]
  exact filter_stop_eq ends

end Grammar

/-! ## Syntactic faults -/

theorem SyntaxFault.exists_headline (fault : SyntaxFault) : ∃ headline : String,
    ∀ offset, (fault.report offset).message = headline ++ " at position " ++ toString offset := by
  cases fault <;> exact ⟨_, fun _ => String.append_assoc.symm⟩

theorem SyntaxFault.length_labels {fault : SyntaxFault} (isLocal : fault.IsLocal) (offset : Nat) :
    (fault.report offset).labels.length = 1 := by
  cases fault with
  | unclosedParenthesis => cases isLocal
  | trailing => cases isLocal
  | noDefinition | missingEquals | missingOperand | invalidNumber => rfl

namespace SyntaxError

/-- The message names the offset of the first place. -/
def NamesFirstPlace (e : SyntaxError) : Prop :=
  ∃ first others, e.spans = first :: others ∧ e.report = e.fault.report first.start ∧
    ∃ headline, ∀ offset,
      (e.fault.report offset).message = headline ++ " at position " ++ toString offset

/-- The second place is one opening parenthesis in front of the first place. All parentheses between
    the two are paired with each other, and at the first place there is none that closes it. -/
def IsUnclosedIn (source : String) (e : SyntaxError) : Prop :=
  ∃ (opening : Token) (before inner rest : List Token),
    tokenize source = before ++ opening :: inner ++ rest ∧
      e.spans = [place rest source.utf8ByteSize, opening.span] ∧
      opening.kind = .openParen ∧ opening.text = "(" ∧ IsBalanced inner ∧
      (∀ t ∈ rest.head?, t.kind ≠ .closeParen) ∧
      opening.span.stop ≤ (place rest source.utf8ByteSize).start

/-- The place reaches to the end of the source, from the first token behind a header and a sum
    that is no blank. The tokens up to it do not begin any source that is parsed. -/
def IsTrailingIn (source : String) (e : SyntaxError) : Prop :=
  ∃ (before : List Token) (t : Token) (rest : List Token),
    tokenize source = before ++ t :: rest ∧ t.kind ≠ .blank ∧
      e.spans = [⟨t.start, source.utf8ByteSize⟩] ∧
      (∃ name variableName body term trailing,
        Header (tokenize source) name variableName body ∧ Derives .sum body term trailing ∧
          Blanks trailing (t :: rest)) ∧
      ¬IsViable (before ++ [t])

variable {e : SyntaxError}

theorem namesFirstPlace {first : Span} {others : List Span} (spans : e.spans = first :: others) :
    e.NamesFirstPlace := by
  refine ⟨first, others, spans, ?_, e.fault.exists_headline⟩
  show e.fault.report e.offset = _
  rw [Located.offset, spans]
  rfl

theorem isUnclosedIn_of_refuses (refuses : Refuses (tokenize source) source.utf8ByteSize e)
    (fault : e.fault = .unclosedParenthesis) : e.IsUnclosedIn source := by
  cases refuses with
  | here isLocal =>
    cases fault
    cases isLocal
  | @unclosed opening inner rest opens balanced unpaired suffix =>
    obtain ⟨before, tokens⟩ := suffix
    rw [← List.append_assoc] at tokens
    have mem : opening ∈ tokenize source := by simp [← tokens]
    exact ⟨opening, before, inner, rest, tokens.symm, rfl, opens,
      text_of_mark? mem (by rw [opens]; rfl) (by decide), balanced, unpaired,
      stop_le_start_place tokens.symm⟩

/-- A syntactic error has a place for each label, and its places lie in the source. -/
theorem isDrawable_of_refuses (refuses : Refuses (tokenize source) source.utf8ByteSize e) :
    e.IsDrawable source := by
  cases refuses with
  | here isLocal suffix =>
    refine ⟨SyntaxFault.length_labels isLocal _, fun span mem => ?_⟩
    obtain rfl := List.mem_singleton.mp mem
    exact isDrawable_place suffix
  | @unclosed opening inner rest opens balanced unpaired suffix =>
    refine ⟨rfl, fun span mem => ?_⟩
    obtain rfl | rfl : span = place rest source.utf8ByteSize ∨ span = opening.span := by
      simpa using mem
    · exact isDrawable_place ((List.suffix_append _ rest).trans suffix)
    · exact (cutsOut_of_mem (suffix.subset (by simp))).isDrawable

end SyntaxError

namespace Function

open SyntaxError

/-- Nothing that is parsed begins with the tokens up to the place of a failure. -/
theorem not_isViable_of_offset {e : SyntaxError} {t : Token} {before rest : List Token}
    (failed : parse source = .error e) (tokens : tokenize source = before ++ t :: rest)
    (offset : e.offset = t.start) : ¬IsViable (before ++ [t]) := by
  obtain ⟨-, passed, s, tail, parted, -, -, ends, run, refuses⟩ := exists_place failed
  obtain rfl : passed = before := by
    rw [← filter_stop_of_tokenize tokens, parted, ← offset, filter_stop_eq ends]
  rw [tokens] at parted
  have here := List.append_cancel_left parted
  rw [← here] at refuses
  exact not_isViable run (refuses t rfl)

theorem error_cases {e : SyntaxError} (failed : parse source = .error e) :
    e.IsDrawable source ∧ e.NamesFirstPlace ∧
      (e.fault = .unclosedParenthesis → e.IsUnclosedIn source) ∧
      ∀ suggestions, e.fault = .trailing suggestions → e.IsTrailingIn source := by
  have cases := read_error_cases (parse_eq_error_iff.mp failed)
  rw [stop_ofSource] at cases
  obtain refuses | ⟨suggestions, name, variableName, body, term, trailing, t, rest, rfl, header,
    derives, blanks, there⟩ := cases
  · refine ⟨isDrawable_of_refuses refuses, ?_, isUnclosedIn_of_refuses refuses, ?_⟩
    · cases refuses with
      | here => exact namesFirstPlace rfl
      | unclosed => exact namesFirstPlace rfl
    · rintro suggestions fault
      cases refuses with
      | here isLocal =>
        cases fault
        cases isLocal
      | unclosed => cases fault
  · have suffix : t :: rest <:+ tokenize source :=
      blanks.balances.isSuffix.trans (derives.balances.isSuffix.trans header.isSuffix)
    obtain ⟨before, tokens⟩ := suffix
    refine ⟨⟨rfl, fun span mem => ?_⟩, namesFirstPlace rfl, fun fault => ?_, fun _ _ => ?_⟩
    · obtain rfl := List.mem_singleton.mp mem
      exact isDrawable_onward tokens.symm
    · cases fault
    · exact ⟨before, t, rest, tokens.symm, there, rfl,
        ⟨name, variableName, body, term, trailing, header, derives, blanks⟩,
        not_isViable_of_offset failed tokens.symm rfl⟩

/-- An undefined part of a parsed function is one node, which stands in the source. -/
theorem isDrawable_of_check {f : Function} {e : UndefinedError} (parsed : parse source = .ok f)
    (refused : f.check = .error e) : e.IsDrawable source := by
  have placed := arePlaced_of_parse parsed
  obtain ⟨d, -, rfl⟩ := parse_eq_ok_iff.mp parsed
  obtain ⟨before, part, behind, parts, -, offends, spans⟩ :=
    (check_eq_error_iff (wellFormed_body_ofDefinition d)).mp refused
  have one : e.report.labels.length = 1 := by
    obtain ⟨fault, _⟩ := e
    cases fault <;> rfl
  refine ⟨by rw [one, spans, List.length_singleton], fun span mem => ?_⟩
  rw [spans] at mem
  obtain rfl := List.mem_singleton.mp mem
  cases part with
  | absent => cases offends
  | node kind place left right =>
    obtain ⟨-, run, stands, -⟩ := placed kind place left right (by simp [parts])
    exact stands.cutsOut.isDrawable

/-- Whatever error there is, of reading a source or of a function that was read, there is a place
    for each of its labels, and the places lie in the source. The message of an error of reading
    names the offset of the first place; a parenthesis that is not closed has its own place; and
    what is left of the source is shown from the first token behind the definition on. -/
theorem errors_are_drawable (source : String) :
    (∀ e, parse source = .error e → e.IsDrawable source ∧ e.NamesFirstPlace ∧
      (e.fault = .unclosedParenthesis → e.IsUnclosedIn source) ∧
      ∀ suggestions, e.fault = .trailing suggestions → e.IsTrailingIn source) ∧
    ∀ f e, parse source = .ok f → f.check = .error e → e.IsDrawable source :=
  ⟨fun _ => error_cases, fun _ _ => isDrawable_of_check⟩

/-- A parenthesis that is closed is not the one that is missed, letters of two bytes are not cut
    in two, and the place of an undefined part is drawn like any other. -/
theorem errors_are_drawable_examples :
    (∃ e, parse "f(x)=2*(1+(x) " = .error e ∧ e.spans = [⟨14, 14⟩, ⟨7, 8⟩] ∧
      e.IsDrawable "f(x)=2*(1+(x) " ∧ e.IsUnclosedIn "f(x)=2*(1+(x) ") ∧
    (∃ e, parse "f(x)=x πy" = .error e ∧ e.spans = [⟨7, 10⟩] ∧ e.IsDrawable "f(x)=x πy" ∧
      e.NamesFirstPlace ∧ e.IsTrailingIn "f(x)=x πy") ∧
    ∃ f e, parse "f(x)=2/0" = .ok f ∧ f.check = .error e ∧ e.IsDrawable "f(x)=2/0" := by
  refine ⟨?_, ?_, ?_⟩
  · have failed : parse "f(x)=2*(1+(x) " = .error ⟨.unclosedParenthesis, [⟨14, 14⟩, ⟨7, 8⟩]⟩ := by
      decide +kernel
    obtain ⟨drawable, -, unclosed, -⟩ := (errors_are_drawable _).1 _ failed
    exact ⟨_, failed, rfl, drawable, unclosed rfl⟩
  · have failed : parse "f(x)=x πy" = .error ⟨.trailing [], [⟨7, 10⟩]⟩ := by decide +kernel
    obtain ⟨drawable, names, -, trailing⟩ := (errors_are_drawable _).1 _ failed
    exact ⟨_, failed, rfl, drawable, names, trailing [] rfl⟩
  · have refused : (parse "f(x)=2/0").toOption.map check =
        some (.error ⟨.divisionByZero, [⟨5, 8⟩]⟩) := by
      decide +kernel
    cases parsed : parse "f(x)=2/0" with
    | error e =>
      rw [parsed] at refused
      cases refused
    | ok f =>
      rw [parsed] at refused
      have refused : f.check = .error ⟨.divisionByZero, [⟨5, 8⟩]⟩ := Option.some.inj refused
      exact ⟨f, _, rfl, refused, (errors_are_drawable _).2 f _ parsed refused⟩

end Function
end Fluxion
