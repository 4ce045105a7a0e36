import Fluxion.Proofs.Definition.Automaton
/- The readers of a definition follow the automaton. A reader that reads leaves a cursor where the
   automaton, once it has passed the same tokens, is stuck in the same place as before; a reader
   that fails points at the place where the automaton is stuck (`Traces`). Such runs compose
   (`Traces.bind`), so there is one lemma for each reader, from numbers (`traces_digits`) to headers
   and sums (`traces_header`, `follows_expression`).

   What a reader has found out about the next token turns into the level of its operand: behind a
   product, say, no operator of products is left, so the operand counts as a whole product
   (`follows_chain`). Digits that are too many for 64 bits are a fault of their own, and the
   automaton refuses them as well. The bound on the depth of parentheses is never what stops a
   reader, since every parenthesis is a token. The result is `read_cases`, for whole sources. -/
namespace Fluxion

/-- The fault begins at the first of the tokens that are left, or at the end of the source. -/
def SyntaxError.PointsAt (e : SyntaxError) (rest : List Token) (stop : Nat) : Prop :=
  e.spans.head?.map (·.start) = some ((rest.head?.map (·.start)).getD stop)

namespace Grammar

open Definition

variable {c c₁ c₂ c' : Cursor} {s s₁ s₂ s' : State} {level : Level} {enclosing : List Level}
  {α β : Type}

/-! ## Cursors -/

theorem start_span (c : Cursor) : c.span.start = (c.ahead.head?.map (·.start)).getD c.stop := by
  rw [Cursor.span, Cursor.current?]
  cases c.ahead <;> rfl

theorem pointsAt_fail (c : Cursor) (fault : SyntaxFault) :
    SyntaxError.PointsAt (c.fail fault) (trim c.ahead) c.stop := by
  rw [← ahead_skipBlanks]
  exact congrArg some (start_span c.skipBlanks)

theorem pointsAt_unclosed (c : Cursor) (opening : Span) :
    SyntaxError.PointsAt (c.unclosed opening) (trim c.ahead) c.stop := by
  rw [← ahead_skipBlanks]
  exact congrArg some (start_span c.skipBlanks)

theorem stop_advance (c : Cursor) : c.advance.stop = c.stop := by
  rw [Cursor.advance]
  split <;> rfl

theorem trim_trim (a : List Token) : trim (trim a) = trim a := by
  cases here : trim a with
  | nil => rfl
  | cons t rest => exact trim_cons (State.ne_blank_of_trim here) rest

theorem next_cases (c : Cursor) :
    (∃ t c', c.next = (some t, c') ∧ trim c.ahead = t :: c'.ahead ∧ c'.stop = c.stop) ∨
      (∃ c', c.next = (none, c') ∧ trim c.ahead = []) := by
  cases here : trim c.ahead with
  | nil =>
    rw [← ahead_skipBlanks] at here
    exact .inr ⟨_, by rw [Cursor.next, Cursor.current?, here]; rfl, rfl⟩
  | cons t rest =>
    obtain ⟨current, advanced⟩ := current?_skipBlanks here
    exact .inl ⟨t, c.skipBlanks.advance, by rw [Cursor.next, current], by rw [advanced],
      stop_advance _⟩

theorem eat_cases (c : Cursor) (kind : Token.Kind) :
    (∃ t c', c.eat kind = (some t, c') ∧ t.kind = kind ∧ trim c.ahead = t :: c'.ahead ∧
        c'.stop = c.stop) ∨
      (∃ c', c.eat kind = (none, c') ∧ (∀ t ∈ (trim c'.ahead).head?, t.kind ≠ kind) ∧
        c'.ahead = trim c.ahead ∧ c'.stop = c.stop) := by
  cases here : trim c.ahead with
  | nil =>
    have ahead := (ahead_skipBlanks c).trans here
    refine .inr ⟨c.skipBlanks, ?_, ?_, ahead, rfl⟩
    · simp only [Cursor.eat, Cursor.current?, ahead, List.head?_nil]
    · rw [ahead]
      rintro u ⟨⟩
  | cons t rest =>
    obtain ⟨current, advanced⟩ := current?_skipBlanks here
    by_cases same : t.kind = kind
    · refine .inl ⟨t, c.skipBlanks.advance, ?_, same, by rw [advanced], stop_advance _⟩
      simp only [Cursor.eat, current, if_pos same]
    · have ahead := (ahead_skipBlanks c).trans here
      refine .inr ⟨c.skipBlanks, ?_, ?_, ahead, rfl⟩
      · simp only [Cursor.eat, current, if_neg same]
      · rw [ahead, ← here, trim_trim, here]
        rintro u ⟨⟩
        exact same

/-! ## Traces -/

/-- The automaton in the one state in front of the one cursor is stuck where it is in the other
    state in front of the other. -/
structure Moves (s : State) (c : Cursor) (s' : State) (c' : Cursor) : Prop where
  stuck : s.stuck c.ahead = s'.stuck c'.ahead
  length : c'.ahead.length ≤ c.ahead.length
  stop : c'.stop = c.stop

theorem Moves.trans (first : Moves s c s₁ c₁) (second : Moves s₁ c₁ s' c') : Moves s c s' c' :=
  ⟨first.stuck.trans second.stuck, Nat.le_trans second.length first.length,
    second.stop.trans first.stop⟩

/-- What a reader gives agrees with the automaton: it has moved with it, or fails where the
    automaton is stuck. -/
def Traces (s s' : State) (c : Cursor) : Except SyntaxError (α × Cursor) → Prop
  | .ok (_, c') => Moves s c s' c'
  | .error e => ∃ rest, s.stuck c.ahead = some rest ∧ SyntaxError.PointsAt e rest c.stop

theorem Moves.traces (moves : Moves s c s₁ c₁) {x : Except SyntaxError (α × Cursor)}
    (traces : Traces s₁ s' c₁ x) : Traces s s' c x := by
  cases x with
  | error e =>
    obtain ⟨rest, stuck, points⟩ := traces
    exact ⟨rest, moves.stuck.trans stuck, moves.stop ▸ points⟩
  | ok r => exact moves.trans traces

/-- One reader after another. -/
theorem Traces.bind {x : Except SyntaxError (α × Cursor)}
    {f : α × Cursor → Except SyntaxError (β × Cursor)} (first : Traces s s₁ c x)
    (onward : ∀ r c₁, Moves s c s₁ c₁ → Traces s₁ s' c₁ (f (r, c₁))) : Traces s s' c (x >>= f) := by
  cases x with
  | error e => exact first
  | ok r =>
    obtain ⟨r, c₁⟩ := r
    exact first.traces (onward r c₁ first)

/-- A reader agrees with the automaton wherever no more tokens are left than the bound. -/
def Follows (reader : Reader α) (s s' : State) (bound : Nat) : Prop :=
  ∀ c, c.ahead.length ≤ bound → Traces s s' c (reader c)

/-- A state that cannot pass the next token is where a reader may fail. -/
theorem traces_error (steady : s.IsSteady) (final : trim c.ahead = [] → s.isFinal = false)
    (refuses : ∀ t ∈ (trim c.ahead).head?, s.passMark t = none) {e : SyntaxError}
    (points : SyntaxError.PointsAt e (trim c.ahead) c.stop) :
    Traces s s' c (.error e : Except SyntaxError (α × Cursor)) :=
  ⟨_, steady.stuck_eq final refuses, points⟩

/-- A token that is passed leaves fewer tokens. -/
theorem moves_of_trim {t : Token} (steady : s.IsSteady) (next : trim c.ahead = t :: c'.ahead)
    (stop : c'.stop = c.stop) (passes : s.passMark t = some s') :
    Moves s c s' c' ∧ c'.ahead.length < c.ahead.length := by
  have short := length_trim_le c.ahead
  rw [next, List.length_cons] at short
  exact ⟨⟨steady.stuck_pass next passes, by omega, stop⟩, by omega⟩

/-- Blanks may be skipped. -/
theorem moves_of_blanks (steady : s.IsSteady) (ahead : c'.ahead = trim c.ahead)
    (stop : c'.stop = c.stop) : Moves s c s c' :=
  ⟨by rw [ahead, steady.stuck_trim], by rw [ahead]; exact length_trim_le _, stop⟩

/-! ## Operands -/

/-- Behind a separator there are digits at once, or the number ends there. -/
theorem traces_places (digits : Token) :
    Traces ⟨.separator level, enclosing⟩ ⟨.operated level, enclosing⟩ c
      (match c.ahead? .digits with
      | none => .error ⟨.invalidNumber false, [c.span]⟩
      | some places => .ok (Term.fraction (Binary64.ofPlaces digits.text.toList places.text.toList)
          (digits.span.through places.span), c.advance)) := by
  have refuses : ∀ t : Token, t.kind ≠ .digits → State.step ⟨.separator level, enclosing⟩ t = none := by
    intro t other
    rw [State.step]
    split
    · rfl
    · exact if_neg other
  obtain ⟨passed, ahead, stop⟩ := c
  cases ahead with
  | nil => exact ⟨[], rfl, rfl⟩
  | cons t rest =>
    by_cases isDigits : t.kind = .digits
    · have found : Cursor.ahead? ⟨passed, t :: rest, stop⟩ .digits = some t := by
        simp [Cursor.ahead?, Cursor.current?, isDigits]
      rw [found]
      have passes : State.step ⟨.separator level, enclosing⟩ t = some ⟨.operated level, enclosing⟩ := by
        rw [State.step_of_ne_blank (by rw [isDigits]; decide)]
        exact if_pos isDigits
      exact ⟨State.stuck_cons passes rest, Nat.le_succ _, rfl⟩
    · have none : Cursor.ahead? ⟨passed, t :: rest, stop⟩ .digits = none := by
        simp [Cursor.ahead?, Cursor.current?, isDigits]
      rw [none]
      exact ⟨t :: rest, State.stuck_of_step_eq_none (refuses t isDigits) rest, rfl⟩

theorem traces_number {digits : Token} {value : Int64}
    (known : integer? digits.text.toList = some value) :
    Traces ⟨.digits level, enclosing⟩ ⟨.operated level, enclosing⟩ c (number digits c) := by
  simp only [number, known]
  split
  · next separates =>
    obtain ⟨passed, ahead, stop⟩ := c
    cases ahead with
    | nil => cases separates
    | cons t rest =>
      replace separates : t.kind.isSeparator = true := separates
      have there : t.kind ≠ .blank := by
        intro blank
        rw [blank] at separates
        cases separates
      have passes : State.step ⟨.digits level, enclosing⟩ t = some ⟨.separator level, enclosing⟩ := by
        rw [State.step_of_ne_blank there]
        exact if_pos separates
      have moves : Moves ⟨.digits level, enclosing⟩ ⟨passed, t :: rest, stop⟩
          ⟨.separator level, enclosing⟩ ⟨t :: passed, rest, stop⟩ :=
        ⟨State.stuck_cons passes rest, Nat.le_succ _, rfl⟩
      exact moves.traces (traces_places digits)
  · next other =>
    refine ⟨State.stuck_digits fun t here => ?_, Nat.le_refl _, rfl⟩
    rw [Cursor.current?, Option.mem_def.mp here] at other
    exact eq_false_of_ne_true other

/-- A number begins with digits. If they are too many, they are the fault themselves. -/
theorem traces_digits {digits : Token} (kind : digits.kind = .digits)
    (next : trim c.ahead = digits :: c'.ahead) (stop : c'.stop = c.stop) :
    Traces ⟨.operand level, enclosing⟩ ⟨.operated level, enclosing⟩ c (number digits c') := by
  cases known : integer? digits.text.toList with
  | none =>
    have refuses : State.passOperand level enclosing digits = none := by
      simp [State.passOperand, kind, known]
    simp only [number, known]
    refine traces_error State.steady_operand (fun _ => rfl) ?_ ?_
    · rw [next]
      rintro u ⟨⟩
      exact refuses
    · rw [next]
      rfl
  | some value =>
    have passes : State.passOperand level enclosing digits = some ⟨.digits level, enclosing⟩ := by
      simp [State.passOperand, kind, known]
    exact (moves_of_trim State.steady_operand next stop passes).1.traces (traces_number known)

section Inner
variable {inner : Reader Term} {bound : Nat}
  (onInner : ∀ enclosing, Follows inner ⟨.sum, enclosing⟩ ⟨.operated .sum, enclosing⟩ bound)
include onInner

/-- An operand in parentheses. -/
theorem traces_closed (short : c.ahead.length ≤ bound) (opening : Span)
    (f : Term → Token → Term) :
    Traces ⟨.sum, level :: enclosing⟩ ⟨.operated level, enclosing⟩ c (do
      let (t, c) ← inner c
      match c.eat .closeParen with
      | (none, c) => .error (c.unclosed opening)
      | (some closing, c) => .ok (f t closing, c)) := by
  refine (onInner (level :: enclosing) c short).bind fun t c₁ moves => ?_
  obtain ⟨closing, c₂, eaten, kind, next, stop⟩ | ⟨c₂, eaten, other, ahead, stop⟩ :=
    eat_cases c₁ .closeParen
  · simp only [eaten]
    refine (moves_of_trim State.steady_operated next stop ?_).1
    simp only [State.passMark, State.passOperator, kind]
  · simp only [eaten]
    refine (moves_of_blanks State.steady_operated ahead stop).traces ?_
    -- Nothing goes on with a whole sum but the parenthesis.
    exact traces_error State.steady_operated (fun _ => rfl)
      (fun u here => State.passOperator_sum (.inl (other u here))) (pointsAt_unclosed c₂ opening)

theorem follows_call (f : Elementary) (word : Token) :
    Follows (call inner f word) ⟨.argument level, enclosing⟩ ⟨.operated level, enclosing⟩ bound := by
  intro c short
  rw [call]
  obtain ⟨opening, c₁, eaten, kind, next, stop⟩ | ⟨c₁, eaten, other, ahead, stop⟩ :=
    eat_cases c .openParen
  · simp only [eaten]
    have passes : State.passMark ⟨.argument level, enclosing⟩ opening =
        some ⟨.sum, level :: enclosing⟩ := if_pos kind
    obtain ⟨moves, shorter⟩ := moves_of_trim State.steady_argument next stop passes
    exact moves.traces (traces_closed onInner (by omega) opening.span
      fun argument closing => .call f argument (word.span.through closing.span))
  · simp only [eaten]
    refine (moves_of_blanks State.steady_argument ahead stop).traces ?_
    exact traces_error State.steady_argument (fun _ => rfl) (fun t here => if_neg (other t here))
      (pointsAt_fail c₁ _)

theorem follows_primary : Follows (primary inner) ⟨.operand level, enclosing⟩
    ⟨.operated level, enclosing⟩ (bound + 1) := by
  intro c short
  rw [primary]
  have onPass {t : Token} : State.passMark ⟨.operand level, enclosing⟩ t =
    State.passOperand level enclosing t := rfl
  obtain ⟨t, c₁, passed, next, stop⟩ | ⟨c₁, passed, next⟩ := next_cases c
  · simp only [passed]
    split
    · next kind =>
      have passes : State.passOperand level enclosing t = some ⟨.sum, level :: enclosing⟩ := by
        simp only [State.passOperand, kind]
      obtain ⟨moves, shorter⟩ := moves_of_trim State.steady_operand next stop (onPass.trans passes)
      exact moves.traces (traces_closed onInner (by omega) t.span fun inner _ => inner)
    · next kind => exact traces_digits kind next stop
    · next kind =>
      cases known : Elementary.ofName? t.text with
      | none =>
        have passes : State.passOperand level enclosing t = some ⟨.operated level, enclosing⟩ := by
          simp only [State.passOperand, kind, known]
        exact (moves_of_trim State.steady_operand next stop (onPass.trans passes)).1
      | some f =>
        have passes : State.passOperand level enclosing t = some ⟨.argument level, enclosing⟩ := by
          simp only [State.passOperand, kind, known]
        obtain ⟨moves, shorter⟩ := moves_of_trim State.steady_operand next stop (onPass.trans passes)
        exact moves.traces (follows_call onInner f t c₁ (by omega))
    · next noOpening noDigits noName =>
      refine traces_error State.steady_operand (fun _ => rfl) (fun u here => ?_) (pointsAt_fail c _)
      rw [next] at here
      cases here
      rw [onPass, State.passOperand]
      split
      · next kind => exact absurd kind noOpening
      · next kind => exact absurd kind noDigits
      · next kind => exact absurd kind noName
      · rfl
  · simp only [passed]
    refine traces_error State.steady_operand (fun _ => rfl) (fun u here => ?_) (pointsAt_fail c _)
    rw [next] at here
    cases here

/-! ## Operators -/

theorem follows_power : Follows (power inner) ⟨.operand .base, enclosing⟩
    ⟨.operated .power, enclosing⟩ (bound + 1) := by
  intro c short
  refine (follows_primary onInner c short).bind fun base c₁ moves => ?_
  have shorter := moves.length
  obtain ⟨caret, c₂, eaten, kind, next, stop⟩ | ⟨c₂, eaten, other, ahead, stop⟩ :=
    eat_cases c₁ .caret
  · simp only [eaten]
    have passes : State.passMark ⟨.operated .base, enclosing⟩ caret =
        some ⟨.operand .power, enclosing⟩ :=
      State.passOperator_of_operand? (by rw [kind]; rfl)
    obtain ⟨moves', shorter'⟩ := moves_of_trim State.steady_operated next stop passes
    refine moves'.traces ((follows_primary onInner c₂ (by omega)).bind fun exponent c₃ moves'' => ?_)
    exact ⟨rfl, Nat.le_refl _, rfl⟩
  · simp only [eaten]
    have moves' := moves_of_blanks (s := ⟨.operated .base, enclosing⟩) rfl ahead stop
    refine moves'.trans ⟨State.stuck_operated fun t here => ?_, Nat.le_refl _, rfl⟩
    have noCaret := other t here
    cases kind : t.kind with
    | caret => exact absurd kind noCaret
    | _ => rfl

omit onInner

theorem operator_cases (operator? : Token.Kind → Option BinaryOp) (c : Cursor) :
    (∃ t op c', operator operator? c = (some op, c') ∧ operator? t.kind = some op ∧
        trim c.ahead = t :: c'.ahead ∧ c'.stop = c.stop) ∨
      (operator operator? c = (none, c) ∧ ∀ t ∈ (trim c.ahead).head?, operator? t.kind = none) := by
  rw [operator]
  obtain ⟨t, c', passed, next, stop⟩ | ⟨c', passed, next⟩ := next_cases c
  · simp only [passed, next]
    cases known : operator? t.kind with
    | none =>
      refine .inr ⟨rfl, ?_⟩
      rintro u ⟨⟩
      exact known
    | some op => exact .inl ⟨t, op, c', rfl, known, rfl, stop⟩
  · simp only [passed, next]
    refine .inr ⟨trivial, ?_⟩
    rintro u ⟨⟩

/-- A chain makes what it reads more, since no operator of its own is left behind it. -/
theorem follows_chain {operator? : Token.Kind → Option BinaryOp} {less more : Level}
    (follows : ∀ kind op, operator? kind = some op → less.operand? kind = some .base)
    (others : ∀ kind, operator? kind = none → less.operand? kind = more.operand? kind)
    {operand : Reader Term} (onOperand :
      Follows operand ⟨.operand .base, enclosing⟩ ⟨.operated less, enclosing⟩ bound) (n : Nat)
    (left : Term) (short : c.ahead.length ≤ bound) (enough : c.ahead.length ≤ n) :
    Traces ⟨.operated less, enclosing⟩ ⟨.operated more, enclosing⟩ c
      (chain operator? operand n left c) := by
  induction n generalizing left c with
  | zero =>
    have none : c.ahead = [] := List.length_eq_zero_iff.mp (by omega)
    refine ⟨State.stuck_operated fun t here => ?_, Nat.le_refl _, rfl⟩
    rw [none] at here
    cases here
  | succ n ih =>
    obtain ⟨t, op, c₁, found, known, next, stop⟩ | ⟨found, other⟩ := operator_cases operator? c
    · simp only [chain, found]
      have passes : State.passMark ⟨.operated less, enclosing⟩ t = some ⟨.operand .base, enclosing⟩ :=
        State.passOperator_of_operand? (follows t.kind op known)
      obtain ⟨moves, shorter⟩ := moves_of_trim State.steady_operated next stop passes
      refine moves.traces ((onOperand c₁ (by omega)).bind fun right c₂ moves' => ?_)
      have shorter' := moves'.length
      exact ih _ (by omega) (by omega)
    · simp only [chain, found]
      exact ⟨State.stuck_operated fun t here => others t.kind (other t here), Nat.le_refl _, rfl⟩

include onInner

theorem follows_product : Follows (product inner) ⟨.operand .base, enclosing⟩
    ⟨.operated .product, enclosing⟩ (bound + 1) := by
  intro c short
  refine (follows_power onInner c short).bind fun first c₁ moves => ?_
  have shorter := moves.length
  refine follows_chain (fun kind op known => ?_) (fun kind other => ?_) (follows_power onInner) _ _
    (by omega) (Nat.le_refl _)
  · cases kind <;> cases known <;> rfl
  · cases kind <;> first | rfl | cases other

theorem follows_signed : Follows (signed (product inner)) ⟨.sum, enclosing⟩
    ⟨.operated .product, enclosing⟩ (bound + 1) := by
  intro c short
  rw [signed]
  obtain ⟨sign, c₁, eaten, kind, next, stop⟩ | ⟨c₁, eaten, noMinus, ahead, stop⟩ :=
    eat_cases c .minus
  · simp only [eaten]
    have passes : State.passMark ⟨.sum, enclosing⟩ sign = some ⟨.operand .base, enclosing⟩ :=
      if_pos (.inr kind)
    obtain ⟨moves, shorter⟩ := moves_of_trim State.steady_sum next stop passes
    refine moves.traces ((follows_product onInner c₁ (by omega)).bind fun first c₂ moves' => ?_)
    exact ⟨rfl, Nat.le_refl _, rfl⟩
  · simp only [eaten]
    have moves := moves_of_blanks (s := ⟨.sum, enclosing⟩) rfl ahead stop
    have shorter := moves.length
    refine moves.traces ?_
    obtain ⟨sign, c₂, eaten, kind, next, stop⟩ | ⟨c₂, eaten, noPlus, ahead', stop⟩ :=
      eat_cases c₁ .plus
    · rw [eaten]
      have passes : State.passMark ⟨.sum, enclosing⟩ sign = some ⟨.operand .base, enclosing⟩ :=
        if_pos (.inl kind)
      obtain ⟨moves', shorter'⟩ := moves_of_trim State.steady_sum next stop passes
      exact moves'.traces (follows_product onInner c₂ (by omega))
    · rw [eaten]
      have moves' := moves_of_blanks (s := ⟨.sum, enclosing⟩) rfl ahead' stop
      have shorter' := moves'.length
      refine moves'.traces (Moves.traces ⟨?_, Nat.le_refl _, rfl⟩
        (follows_product onInner c₂ (by omega)))
      -- In front of anything but a sign, a sum is an operand.
      refine State.stuck_congr rfl rfl rfl fun t here => if_neg ?_
      rw [not_or]
      refine ⟨noPlus t here, noMinus t ?_⟩
      rwa [ahead', trim_trim] at here

theorem follows_sum : Follows (Definition.sum inner) ⟨.sum, enclosing⟩
    ⟨.operated .sum, enclosing⟩ (bound + 1) := by
  intro c short
  refine (follows_signed onInner c short).bind fun first c₁ moves => ?_
  have shorter := moves.length
  refine follows_chain (fun kind op known => ?_) (fun kind other => ?_) (follows_product onInner) _ _
    (by omega) (Nat.le_refl _)
  · cases kind <;> cases known <;> rfl
  · cases kind <;> first | rfl | cases other

end Inner

/-- Every parenthesis is a token, so the bound on their depth is never what stops a reader. -/
theorem follows_expression (depth : Nat) (enclosing : List Level) :
    Follows (expression depth) ⟨.sum, enclosing⟩ ⟨.operated .sum, enclosing⟩ depth := by
  induction depth generalizing enclosing with
  | zero =>
    intro c short
    have none : c.ahead = [] := List.length_eq_zero_iff.mp (by omega)
    refine traces_error State.steady_sum (fun _ => rfl) (fun t here => ?_) (pointsAt_fail c _)
    rw [none] at here
    cases here
  | succ depth ih => exact follows_sum ih

/-! ## Definitions -/

/-- One token is expected: it is passed, or what is there instead is the fault. -/
theorem traces_expected (s s₁ : State) {kind : Token.Kind} (steady : s.IsSteady)
    (final : s.isFinal = false) (expects : s.passMark = State.expect kind s₁) {e : SyntaxError}
    (points : SyntaxError.PointsAt e (trim c.ahead) c.stop)
    {onward : Token → Cursor → Except SyntaxError (α × Cursor)}
    (traces : ∀ t c', Traces s₁ s' c' (onward t c')) :
    Traces s s' c (match c.eat kind with
      | (some t, c') => onward t c'
      | _ => .error e) := by
  obtain ⟨t, c', eaten, same, next, stop⟩ | ⟨c', eaten, other, ahead, -⟩ := eat_cases c kind
  · rw [eaten]
    have passes : s.passMark t = some s₁ := by
      rw [expects]
      exact if_pos same
    exact (moves_of_trim steady next stop passes).1.traces (traces t c')
  · rw [eaten]
    refine traces_error steady (fun _ => final) (fun t here => ?_) points
    rw [ahead, trim_trim] at other
    rw [expects]
    exact if_neg (other t here)

theorem traces_header (c : Cursor) : Traces .start ⟨.sum, []⟩ c (header c) := by
  refine traces_expected .start ⟨.opening, []⟩ rfl rfl rfl (pointsAt_fail c _) fun name c => ?_
  refine traces_expected ⟨.opening, []⟩ ⟨.variableName, []⟩ rfl rfl rfl (pointsAt_fail c _)
    fun opening c => ?_
  refine traces_expected ⟨.variableName, []⟩ ⟨.closing, []⟩ rfl rfl rfl (pointsAt_fail c _)
    fun variableName c => ?_
  refine traces_expected ⟨.closing, []⟩ ⟨.equals, []⟩ rfl rfl rfl
    (pointsAt_unclosed c opening.span) fun closing c => ?_
  exact traces_expected ⟨.equals, []⟩ ⟨.sum, []⟩ rfl rfl rfl (pointsAt_fail c _)
    fun equals c => ⟨rfl, Nat.le_refl _, rfl⟩

/-- Behind a whole sum that nothing encloses there may be blanks, and a fault is at what else
    there is. -/
theorem finish_cases (c : Cursor) :
    (finish c = .ok () ∧ State.stuck ⟨.operated .sum, []⟩ c.ahead = none) ∨
      ∃ e rest, finish c = .error e ∧ State.stuck ⟨.operated .sum, []⟩ c.ahead = some rest ∧
        SyntaxError.PointsAt e rest c.stop := by
  have skipped := ahead_skipBlanks c
  cases here : trim c.ahead with
  | nil =>
    rw [here] at skipped
    refine .inl ⟨by simp [finish, skipped], ?_⟩
    rw [← State.steady_operated.stuck_trim, here]
    rfl
  | cons t rest =>
    rw [here] at skipped
    have refuses : ∀ u ∈ (trim c.ahead).head?, State.passMark ⟨.operated .sum, []⟩ u = none :=
      fun _ _ => State.passOperator_sum (.inr rfl)
    have failed : finish c = .error ⟨.trailing (suggestions c.skipBlanks),
        [c.skipBlanks.span.through c.skipBlanks.endSpan]⟩ := by
      simp [finish, skipped]
    refine .inr ⟨_, _, failed, State.steady_operated.stuck_eq (fun none => ?_) refuses, ?_⟩
    · rw [here] at none
      cases none
    · rw [← ahead_skipBlanks]
      exact congrArg some (start_span c.skipBlanks)

/-- A source is read if the automaton accepts its tokens; otherwise the fault is where the automaton
    is stuck. -/
theorem read_cases (c : Cursor) :
    ((∃ d, read c = .ok d) ∧ State.start.stuck c.ahead = none) ∨
      ∃ e rest, read c = .error e ∧ State.start.stuck c.ahead = some rest ∧
        SyntaxError.PointsAt e rest c.stop := by
  rw [Definition.read]
  have onHeader := traces_header c
  cases readHeader : header c with
  | error e =>
    rw [readHeader] at onHeader
    obtain ⟨rest, stuck, points⟩ := onHeader
    exact .inr ⟨e, rest, rfl, stuck, points⟩
  | ok r =>
    obtain ⟨⟨name, variableName⟩, c₁⟩ := r
    rw [readHeader] at onHeader
    have onBody := follows_expression c₁.ahead.length [] c₁ (Nat.le_refl _)
    cases readBody : expression c₁.ahead.length c₁ with
    | error e =>
      rw [readBody] at onBody
      obtain ⟨rest, stuck, points⟩ := onHeader.traces onBody
      exact .inr ⟨e, rest, by simp [bind, Except.bind, readBody], stuck, points⟩
    | ok r =>
      obtain ⟨body, c₂⟩ := r
      rw [readBody] at onBody
      have moves := onHeader.trans onBody
      obtain ⟨finished, accepts⟩ | ⟨e, rest, finished, stuck, points⟩ := finish_cases c₂
      · refine .inl ⟨⟨⟨name, variableName, body⟩, ?_⟩, moves.stuck.trans accepts⟩
        simp [bind, Except.bind, readBody, finished]
      · refine .inr ⟨e, rest, ?_, moves.stuck.trans stuck, moves.stop ▸ points⟩
        simp [bind, Except.bind, readBody, finished]

end Grammar
end Fluxion
