import Fluxion.Proofs.Definition.Parsing
import Fluxion.Proofs.Definition.Positions
import Fluxion.Proofs.Definition.Tracing
/- A parser that refuses a source points at the first token that cannot stand where it is
   (`parse_error_at_first_impossible`). The tokens in front of it begin a source that is parsed, and
   no such source goes on with a token that starts there; or there is no token left, and something
   behind the source completes it.

   For the first half, the automaton has a text for every state that ends a definition from there
   (`State.ending`, `accepts_ending`), so whatever it has passed is the beginning of a source that
   is parsed (`parse_ending`). The text must not go on with the last token that was passed
   (`ending_apart`). For the second half, the automaton passes all tokens of a source that is
   parsed, so none of them goes on with a token that it has not passed (`not_isViable`). -/
namespace Fluxion

open Token

namespace Grammar

/-! ## Endings -/

/-- A text that ends the innermost sum. -/
def Stage.ending : Stage → List Char
  | name => "f(x)=1".toList
  | opening => "(x)=1".toList
  | variableName => "x)=1".toList
  | closing => ")=1".toList
  | equals => "=1".toList
  | sum | operand _ => ['1']
  | argument _ => "(1)".toList
  | digits _ | operated _ => []
  | separator _ => ['0']

/-- What comes next behind words and digits does not go on with them. -/
def Stage.IsBehindWord : Stage → Prop
  | opening | closing | argument _ | digits _ | operated _ => True
  | _ => False

namespace State

variable {s s' : State} {t : Token} {level : Level} {enclosing : List Level} {text : List Char}

/-- A text that ends a definition: all parentheses are closed. -/
def ending (s : State) : List Char := s.stage.ending ++ List.replicate s.enclosing.length ')'

/-- The automaton accepts the text. -/
def Accepts (s : State) (text : List Char) : Prop := ∀ start, s.stuck (scan start text) = none

/-- A character that the text does not go on with is a token. -/
theorem Accepts.cons {c : Char} (passes : ∀ start, s.step ⟨.ofFirst c, String.ofList [c], start⟩ = some s')
    (apart : ∀ x ∈ text.head?, (Kind.ofFirst c).goesOn x = false) (accepts : s'.Accepts text) :
    s.Accepts (c :: text) := by
  intro start
  obtain ⟨stop, scanned⟩ := scan_run start c [] text nofun apart
  rw [show c :: text = [c] ++ text from rfl, scanned, stuck_cons (passes start)]
  exact accepts stop

/-- Parentheses are closed one by one. -/
theorem accepts_closing (level : Level) (enclosing : List Level) :
    Accepts ⟨.operated level, enclosing⟩ (List.replicate enclosing.length ')') := by
  induction enclosing generalizing level with
  | nil =>
    intro start
    rw [List.length_nil, List.replicate_zero, scan]
    rfl
  | cons outer others ih => exact .cons (fun _ => rfl) (fun _ _ => rfl) (ih outer)

theorem eq_of_head?_replicate {n : Nat} {c x : Char} (here : x ∈ (List.replicate n c).head?) : x = c :=
  List.eq_of_mem_replicate (List.mem_of_mem_head? here)

theorem accepts_digits (level : Level) (enclosing : List Level) :
    Accepts ⟨.digits level, enclosing⟩ (List.replicate enclosing.length ')') := by
  cases enclosing with
  | nil =>
    intro start
    rw [List.length_nil, List.replicate_zero, scan]
    rfl
  | cons outer others => exact .cons (fun _ => rfl) (fun _ _ => rfl) (accepts_closing outer others)

theorem passOperand_digit (level : Level) (enclosing : List Level) (start : Nat) :
    passOperand level enclosing ⟨.ofFirst '1', String.ofList ['1'], start⟩ =
      some ⟨.digits level, enclosing⟩ := by
  have one : (Definition.integer? (String.ofList ['1']).toList).isSome = true := by decide +kernel
  exact if_pos one

theorem accepts_operand (level : Level) (enclosing : List Level) :
    Accepts ⟨.operand level, enclosing⟩ ('1' :: List.replicate enclosing.length ')') := by
  refine .cons (passOperand_digit level enclosing) (fun x here => ?_) (accepts_digits level enclosing)
  rw [eq_of_head?_replicate here]
  rfl

theorem accepts_sum (enclosing : List Level) :
    Accepts ⟨.sum, enclosing⟩ ('1' :: List.replicate enclosing.length ')') := by
  refine .cons (passOperand_digit .base enclosing) (fun x here => ?_) (accepts_digits .base enclosing)
  rw [eq_of_head?_replicate here]
  rfl

theorem accepts_ending (s : State) : s.Accepts s.ending := by
  obtain ⟨stage, enclosing⟩ := s
  have equals : Accepts ⟨.equals, enclosing⟩ (ending ⟨.equals, enclosing⟩) :=
    .cons (fun _ => rfl) (fun _ _ => rfl) (accepts_sum enclosing)
  have closing : Accepts ⟨.closing, enclosing⟩ (ending ⟨.closing, enclosing⟩) :=
    .cons (fun _ => rfl) (fun _ _ => rfl) equals
  have variableName : Accepts ⟨.variableName, enclosing⟩ (ending ⟨.variableName, enclosing⟩) :=
    .cons (fun _ => rfl) (by rintro x ⟨⟩; rfl) closing
  have opening : Accepts ⟨.opening, enclosing⟩ (ending ⟨.opening, enclosing⟩) :=
    .cons (fun _ => rfl) (fun _ _ => rfl) variableName
  cases stage with
  | name => exact .cons (fun _ => rfl) (by rintro x ⟨⟩; rfl) opening
  | opening => exact opening
  | variableName => exact variableName
  | closing => exact closing
  | equals => exact equals
  | sum => exact accepts_sum enclosing
  | operand level => exact accepts_operand level enclosing
  | argument level =>
    -- The parenthesis is open as long as its sum.
    exact .cons (fun _ => rfl) (fun _ _ => rfl) (accepts_sum (level :: enclosing))
  | digits level => exact accepts_digits level enclosing
  | separator level =>
    refine .cons (fun _ => rfl) (fun x here => ?_) (accepts_closing level enclosing)
    rw [eq_of_head?_replicate here]
    rfl
  | operated level => exact accepts_closing level enclosing

/-! ## Seams -/

theorem head_ending {x : Char} (here : x ∈ s.ending.head?) :
    isBlankChar x = false ∧ (s.stage.IsBehindWord → x.isAlphanum = false) := by
  obtain ⟨stage, enclosing⟩ := s
  cases stage with
  | name | opening | variableName | closing | equals | sum | operand | argument | separator =>
    cases here
    exact ⟨by decide, by first | exact fun _ => by decide | exact nofun⟩
  | digits | operated =>
    rw [eq_of_head?_replicate here]
    exact ⟨by decide, fun _ => by decide⟩

theorem isBehindWord_of_passOperand (passes : passOperand level enclosing t = some s')
    (word : t.kind = .name ∨ t.kind = .digits) : s'.stage.IsBehindWord := by
  rw [passOperand] at passes
  obtain kind | kind := word
  · simp only [kind] at passes
    split at passes <;> cases passes <;> trivial
  · simp only [kind] at passes
    split at passes <;> cases passes
    trivial

theorem isBehindWord_of_step (passes : s.step t = some s') (word : t.kind = .name ∨ t.kind = .digits) :
    s'.stage.IsBehindWord := by
  obtain ⟨stage, enclosing⟩ := s
  have there : t.kind ≠ .blank := by
    obtain kind | kind := word <;> rw [kind] <;> decide
  have noOperator {level : Level} : passOperator level enclosing t = none := by
    rw [passOperator_of_ne (.inl ?_)]
    · obtain kind | kind := word <;> rw [kind] <;> rfl
    · obtain kind | kind := word <;> rw [kind] <;> decide
  rw [step_of_ne_blank there] at passes
  cases stage with
  | name | variableName | separator =>
    simp only [passMark, expect] at passes
    split at passes <;> cases passes
    trivial
  | opening | closing | equals | argument =>
    simp only [passMark, expect] at passes
    split at passes
    · next mark => rw [mark] at word; simp at word
    · cases passes
  | sum =>
    simp only [passMark] at passes
    split at passes
    · next sign => obtain kind | kind := word <;> rw [kind] at sign <;> simp at sign
    · exact isBehindWord_of_passOperand passes word
  | operand => exact isBehindWord_of_passOperand passes word
  | digits =>
    have noSeparator : t.kind.isSeparator = false := by
      obtain kind | kind := word <;> rw [kind] <;> rfl
    simp only [passMark, noSeparator, noOperator] at passes
    cases passes
  | operated =>
    simp only [passMark, noOperator] at passes
    cases passes

/-- A token that is passed ends in front of the ending. -/
theorem ending_apart (passes : s.step t = some s') : ∀ x ∈ s'.ending.head?, t.kind.goesOn x = false := by
  intro x here
  obtain ⟨noBlank, noWord⟩ := head_ending here
  cases kind : t.kind with
  | blank => exact noBlank
  | name => exact noWord (isBehindWord_of_step passes (.inl kind))
  | digits =>
    have other := noWord (isBehindWord_of_step passes (.inr kind))
    rw [Char.isAlphanum, Bool.or_eq_false_iff] at other
    exact other.2
  | _ => rfl

theorem last_apart {passed : List Token} (run : passed.foldlM step s = some s') :
    ∀ t ∈ passed.getLast?, ∀ x ∈ s'.ending.head?, t.kind.goesOn x = false := by
  intro t last
  obtain ⟨front, rfl⟩ := List.getLast?_eq_some_iff.mp last
  rw [List.foldlM_append] at run
  obtain ⟨before, -, passes⟩ := Option.bind_eq_some_iff.mp run
  rw [List.foldlM_cons] at passes
  obtain ⟨after, passes, same⟩ := Option.bind_eq_some_iff.mp passes
  cases same
  exact ending_apart passes

end State
end Grammar

/-! ## Sources -/

open Grammar

variable {source : String} {passed rest : List Token} {s : State}

/-- The tokens are those that a source begins with which is parsed. -/
def IsViable (tokens : List Token) : Prop :=
  ∃ source f, Function.parse source = .ok f ∧ tokens <+: tokenize source

/-- The parser accepts what the automaton accepts, and where the automaton is stuck, it fails. -/
theorem parse_cases (source : String) :
    ((∃ f, Function.parse source = .ok f) ∧ State.start.stuck (tokenize source) = none) ∨
      ∃ e rest, Function.parse source = .error e ∧
        State.start.stuck (tokenize source) = some rest ∧
        SyntaxError.PointsAt e rest source.utf8ByteSize := by
  obtain ⟨⟨d, read⟩, accepts⟩ | ⟨e, rest, failed, stuck, points⟩ := read_cases (.ofSource source)
  · exact .inl ⟨⟨_, Function.parse_eq_ok_iff.mpr ⟨d, read, rfl⟩⟩, accepts⟩
  · rw [stop_ofSource] at points
    exact .inr ⟨e, rest, Function.parse_eq_error_iff.mpr failed, stuck, points⟩

theorem stuck_of_parse {f : Function} (parsed : Function.parse source = .ok f) :
    State.start.stuck (tokenize source) = none := by
  obtain ⟨-, accepts⟩ | ⟨e, rest, failed, -⟩ := parse_cases source
  · exact accepts
  · rw [parsed] at failed
    cases failed

theorem parse_of_stuck (accepts : State.start.stuck (tokenize source) = none) :
    ∃ f, Function.parse source = .ok f := by
  obtain ⟨parsed, -⟩ | ⟨e, rest, -, stuck, -⟩ := parse_cases source
  · exact parsed
  · rw [accepts] at stuck
    cases stuck

/-- What the automaton has passed begins the source that it makes with the ending. -/
theorem parse_ending (tokens : tokenize source = passed ++ rest)
    (run : passed.foldlM State.step .start = some s) :
    ∃ f, Function.parse (String.ofList (texts passed ++ s.ending)) = .ok f ∧
      passed <+: tokenize (String.ofList (texts passed ++ s.ending)) := by
  obtain ⟨stop, scanned⟩ := exists_scan_append tokens (State.last_apart run)
  have again : tokenize (String.ofList (texts passed ++ s.ending)) = passed ++ scan stop s.ending := by
    rw [tokenize, String.toList_ofList, scanned]
  have accepts : State.start.stuck (passed ++ scan stop s.ending) = none := by
    rw [State.stuck_append run]
    exact s.accepts_ending stop
  rw [← again] at accepts
  obtain ⟨f, parsed⟩ := parse_of_stuck accepts
  exact ⟨f, parsed, scan stop s.ending, again.symm⟩

/-- A token that the automaton does not pass is not followed by anything in a source. -/
theorem not_isViable {t : Token} (run : passed.foldlM State.step .start = some s)
    (refuses : s.step t = none) : ¬IsViable (passed ++ [t]) := by
  rintro ⟨source, f, parsed, more, tokens⟩
  have accepts := stuck_of_parse parsed
  rw [← tokens, List.append_assoc, State.stuck_append run, List.singleton_append,
    State.stuck_of_step_eq_none refuses] at accepts
  cases accepts

/-- The tokens in front of the first of the others are those that end there or before it. -/
theorem filter_stop_eq {place : Nat} {tail : List Char} (before : ∀ t ∈ passed, t.stop ≤ place) :
    (passed ++ scan place tail).filter (·.stop ≤ place) = passed := by
  have front : passed.filter (·.stop ≤ place) = passed :=
    List.filter_eq_self.mpr fun t mem => decide_eq_true (before t mem)
  have back : (scan place tail).filter (·.stop ≤ place) = [] := by
    refine List.filter_eq_nil_iff.mpr fun t mem => ?_
    have := start_lt_stop mem
    simp only [decide_eq_true_eq]
    omega
  rw [List.filter_append, front, back, List.append_nil]

/-- A failure parts the tokens of the source: the automaton passes those in front of its offset and
    refuses the first of the others. -/
theorem exists_place {e : SyntaxError} (failed : Function.parse source = .error e) :
    e.spans ≠ [] ∧ ∃ passed s tail, tokenize source = passed ++ scan e.offset tail ∧
      source.toList = texts passed ++ tail ∧ source.utf8ByteSize = e.offset + bytes tail ∧
      (∀ t ∈ passed, t.stop ≤ e.offset) ∧ passed.foldlM State.step .start = some s ∧
      ∀ t ∈ (scan e.offset tail).head?, s.step t = none := by
  obtain ⟨⟨f, parsed⟩, -⟩ | ⟨e', rest, failed', stuck, points⟩ := parse_cases source
  · rw [failed] at parsed
    cases parsed
  rw [failed] at failed'
  cases failed'
  obtain ⟨passed, s, tokens, run, refuses⟩ := State.exists_passed stuck
  obtain ⟨place, tail, rfl, chars, size, before⟩ := scan_split tokens
  have total : source.utf8ByteSize = place + bytes tail := by
    rw [size, Nat.zero_add, ← bytes_append, ← chars, bytes, String.ofList_toList]
  rw [SyntaxError.PointsAt, total, head?_scan] at points
  have offset : e.offset = place := by
    rw [Located.offset, points]
    rfl
  refine ⟨fun none => ?_, passed, s, tail, ?_⟩
  · rw [none] at points
    cases points
  · rw [offset]
    exact ⟨tokens, chars, total, before, run, refuses⟩

/-- A parse error points at the first impossible token: the tokens that end at its offset or before
    begin a source that is parsed, and no such source goes on with a token that starts there. If
    there is none, the offset is the end of the source, which something behind it completes. -/
theorem parse_error_at_first_impossible {source : String} {e : SyntaxError}
    (failed : Function.parse source = .error e) :
    let passed := (tokenize source).filter (·.stop ≤ e.offset)
    e.spans ≠ [] ∧ IsViable passed ∧
      (∀ t ∈ tokenize source, t.start = e.offset → ¬IsViable (passed ++ [t])) ∧
      ((∀ t ∈ tokenize source, t.start ≠ e.offset) →
        e.offset = source.utf8ByteSize ∧ passed = tokenize source ∧
          ∃ more f, Function.parse (source ++ more) = .ok f) := by
  obtain ⟨points, passed, s, tail, tokens, chars, size, before, run, refuses⟩ := exists_place failed
  have filtered : (tokenize source).filter (·.stop ≤ e.offset) = passed := by
    rw [tokens]
    exact filter_stop_eq before
  obtain ⟨f, parsed, isPrefix⟩ := parse_ending tokens run
  intro passed'
  have same : passed' = passed := filtered
  rw [same]
  refine ⟨points, ⟨_, f, parsed, isPrefix⟩, fun t mem start => ?_, fun none => ?_⟩
  · have ahead : t ∈ scan e.offset tail := by
      have some := start_lt_stop mem
      rw [tokens] at mem
      obtain inPassed | ahead := List.mem_append.mp mem
      · have := before t inPassed
        omega
      · exact ahead
    exact not_isViable run (refuses t (mem_head?_of_start ahead start))
  · -- Where there is text left, a token starts.
    have nothing : tail = [] := by
      by_contra some
      obtain ⟨t, mem, start⟩ := exists_start e.offset some
      exact none t (tokens ▸ List.mem_append_right passed mem) start
    subst nothing
    rw [List.append_nil] at chars
    have whole : source ++ String.ofList s.ending = String.ofList (texts passed ++ s.ending) := by
      rw [String.ofList_append, ← chars, String.ofList_toList]
    refine ⟨size.symm, ?_, String.ofList s.ending, f, whole ▸ parsed⟩
    rw [tokens, scan, List.append_nil]

/-- A blank ends the number whose places are missing, and a parenthesis may be missing at the end. -/
theorem parse_error_at_first_impossible_number :
    (∃ e, Function.parse "f(x)=2. 5" = .error e ∧ e.offset = 7 ∧ IsViable (tokenize "f(x)=2.") ∧
      ¬IsViable (tokenize "f(x)=2. ")) ∧
    ∃ e, Function.parse "f(x)=sin(x" = .error e ∧ e.offset = 10 ∧
      ∃ more f, Function.parse ("f(x)=sin(x" ++ more) = .ok f := by
  constructor
  · have failed : Function.parse "f(x)=2. 5" = .error ⟨.invalidNumber false, [⟨7, 8⟩]⟩ := by
      decide +kernel
    obtain ⟨-, viable, impossible, -⟩ := parse_error_at_first_impossible failed
    have passed : (tokenize "f(x)=2. 5").filter (·.stop ≤ 7) = tokenize "f(x)=2." := by
      decide +kernel
    rw [show Located.offset _ = 7 from rfl, passed] at viable impossible
    refine ⟨_, failed, rfl, viable, ?_⟩
    have blank := impossible ⟨.blank, " ", 7⟩ (by decide +kernel) rfl
    rwa [show tokenize "f(x)=2." ++ [⟨.blank, " ", 7⟩] = tokenize "f(x)=2. " by decide +kernel]
      at blank
  · have failed : Function.parse "f(x)=sin(x" =
        .error ⟨.unclosedParenthesis, [⟨10, 10⟩, ⟨8, 9⟩]⟩ := by
      decide +kernel
    obtain ⟨-, -, -, unfinished⟩ := parse_error_at_first_impossible failed
    obtain ⟨-, -, more⟩ := unfinished (by decide +kernel)
    exact ⟨_, failed, rfl, more⟩

end Fluxion
