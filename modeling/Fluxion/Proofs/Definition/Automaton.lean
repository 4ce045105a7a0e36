import Fluxion.Definition.Parser
import Fluxion.Proofs.Definition.Completeness
/- A pushdown automaton of definitions. It passes tokens one by one, blanks included, knows at every
   place what may come next (`Stage`), and keeps for every parenthesis that is open what the
   parenthesized operand is part of (`Level`). Where it cannot pass a token, or is at the end and
   has not accepted, it is stuck (`stuck`).

   It has no bounds, gives no terms and never goes back, so it says what may follow the beginning of
   a source without mentioning how a source is read. That the readers agree with it is proved in
   `Fluxion.Proofs.Definition.Tracing`.

   The lemmas are about runs (`stuck_cons`, `stuck_append`, `exists_passed`), about blanks, which
   most states pass without a change (`IsSteady`), and about levels: an operand may count as more if
   no operator follows that goes on with it (`stuck_operated`). -/
namespace Fluxion
namespace Grammar

open Definition

/-- What an operand, with all in front of it, is at least: the base of a power, a whole power, a
    whole product or a whole sum. Operators that bind as tightly can only follow what is less. -/
inductive Level where
  | base
  | power
  | product
  | sum
  deriving DecidableEq

/-- What an operand behind an operator is, if the operator may follow. -/
def Level.operand? (level : Level) : Token.Kind → Option Level
  | .caret => if level = .base then some .power else none
  | .star | .slash => if level = .base ∨ level = .power then some .base else none
  | .plus | .minus => if level = .sum then none else some .base
  | _ => none

/-- What comes next: a token of the header, a sum, an operand, the argument of a function, or
    what may stand behind digits, behind a separator and behind an operand. -/
inductive Stage where
  | name
  | opening
  | variableName
  | closing
  | equals
  | sum
  | operand (level : Level)
  | argument (level : Level)
  | digits (level : Level)
  | separator (level : Level)
  | operated (level : Level)

/-- A stage within parentheses, the innermost first. -/
structure State where
  stage : Stage
  enclosing : List Level

namespace State

/-- In front of a definition. -/
def start : State := ⟨.name, []⟩

/-- Passes a blank. Digits end there, and a separator has none behind it. -/
def passBlank : State → Option State
  | ⟨.digits level, enclosing⟩ => some ⟨.operated level, enclosing⟩
  | ⟨.separator _, _⟩ => none
  | s => some s

/-- Passes the first token of an operand. -/
def passOperand (level : Level) (enclosing : List Level) (t : Token) : Option State :=
  match t.kind with
  | .openParen => some ⟨.sum, level :: enclosing⟩
  | .digits => if (integer? t.text.toList).isSome then some ⟨.digits level, enclosing⟩ else none
  | .name =>
    match Elementary.ofName? t.text with
    | some _ => some ⟨.argument level, enclosing⟩
    | none => some ⟨.operated level, enclosing⟩
  | _ => none

/-- Passes an operator, or the parenthesis that closes the innermost one. -/
def passOperator (level : Level) (enclosing : List Level) (t : Token) : Option State :=
  match t.kind, enclosing with
  | .closeParen, outer :: others => some ⟨.operated outer, others⟩
  | kind, _ => (level.operand? kind).map (⟨.operand ·, enclosing⟩)

/-- Passes a token of a kind. -/
def expect (kind : Token.Kind) (next : State) (t : Token) : Option State :=
  if t.kind = kind then some next else none

/-- Passes a token that is no blank. -/
def passMark : State → Token → Option State
  | ⟨.name, enclosing⟩ => expect .name ⟨.opening, enclosing⟩
  | ⟨.opening, enclosing⟩ => expect .openParen ⟨.variableName, enclosing⟩
  | ⟨.variableName, enclosing⟩ => expect .name ⟨.closing, enclosing⟩
  | ⟨.closing, enclosing⟩ => expect .closeParen ⟨.equals, enclosing⟩
  | ⟨.equals, enclosing⟩ => expect .equals ⟨.sum, enclosing⟩
  | ⟨.sum, enclosing⟩ => fun t =>
    if t.kind = .plus ∨ t.kind = .minus then some ⟨.operand .base, enclosing⟩
    else passOperand .base enclosing t
  | ⟨.operand level, enclosing⟩ => passOperand level enclosing
  | ⟨.argument level, enclosing⟩ => expect .openParen ⟨.sum, level :: enclosing⟩
  | ⟨.digits level, enclosing⟩ => fun t =>
    if t.kind.isSeparator then some ⟨.separator level, enclosing⟩ else passOperator level enclosing t
  | ⟨.separator level, enclosing⟩ => expect .digits ⟨.operated level, enclosing⟩
  | ⟨.operated level, enclosing⟩ => passOperator level enclosing

/-- Passes a token, if a definition can go on with it. -/
def step (s : State) (t : Token) : Option State := if t.isBlank then s.passBlank else s.passMark t

/-- Whether a definition may end here. -/
def isFinal : State → Bool
  | ⟨.digits _, []⟩ | ⟨.operated _, []⟩ => true
  | _ => false

/-- The tokens that are left where no definition goes on, or `none` if the tokens end one. -/
def stuck : State → List Token → Option (List Token)
  | s, [] => if s.isFinal then none else some []
  | s, t :: rest =>
    match s.step t with
    | some s' => s'.stuck rest
    | none => some (t :: rest)

variable {s s' : State} {t : Token} {a b rest : List Token} {level : Level} {enclosing : List Level}

/-! ## Runs -/

theorem stuck_cons (passes : s.step t = some s') (rest : List Token) :
    s.stuck (t :: rest) = s'.stuck rest := by
  rw [stuck, passes]

theorem stuck_of_step_eq_none (refuses : s.step t = none) (rest : List Token) :
    s.stuck (t :: rest) = some (t :: rest) := by
  rw [stuck, refuses]

theorem stuck_append (passes : a.foldlM step s = some s') (b : List Token) :
    s.stuck (a ++ b) = s'.stuck b := by
  induction a generalizing s with
  | nil =>
    cases passes
    rfl
  | cons t rest ih =>
    rw [List.foldlM_cons] at passes
    obtain ⟨next, here, later⟩ := Option.bind_eq_some_iff.mp passes
    rw [List.cons_append, stuck_cons here]
    exact ih later

/-- The automaton passes all in front of the place where it is stuck. -/
theorem exists_passed (stops : s.stuck a = some rest) : ∃ passed s', a = passed ++ rest ∧
    passed.foldlM step s = some s' ∧ ∀ t ∈ rest.head?, s'.step t = none := by
  induction a generalizing s with
  | nil =>
    rw [stuck] at stops
    split at stops
    · cases stops
    · cases stops
      exact ⟨[], s, rfl, rfl, nofun⟩
  | cons t tail ih =>
    cases passes : s.step t with
    | none =>
      rw [stuck_of_step_eq_none passes] at stops
      cases stops
      refine ⟨[], s, rfl, rfl, ?_⟩
      rintro u ⟨⟩
      exact passes
    | some next =>
      rw [stuck_cons passes] at stops
      obtain ⟨passed, s', rfl, run, refuses⟩ := ih stops
      exact ⟨t :: passed, s', rfl, by rw [List.foldlM_cons, passes]; exact run, refuses⟩

/-! ## Blanks -/

/-- Blanks change nothing here. -/
def IsSteady (s : State) : Prop := s.passBlank = some s

theorem steady_sum : IsSteady ⟨.sum, enclosing⟩ := rfl

theorem steady_operand : IsSteady ⟨.operand level, enclosing⟩ := rfl

theorem steady_argument : IsSteady ⟨.argument level, enclosing⟩ := rfl

theorem steady_operated : IsSteady ⟨.operated level, enclosing⟩ := rfl

theorem step_of_ne_blank (there : t.kind ≠ .blank) : s.step t = s.passMark t := by
  have noBlank : t.isBlank = false := beq_eq_false_iff_ne.mpr there
  rw [step, noBlank]
  rfl

theorem IsSteady.stuck_trim (steady : s.IsSteady) (a : List Token) :
    s.stuck (trim a) = s.stuck a := by
  induction a with
  | nil => rfl
  | cons t rest ih =>
    cases blank : t.isBlank with
    | true =>
      have passes : s.step t = some s := by
        rw [step, blank]
        exact steady
      rw [stuck_cons passes, ← ih, trim, List.dropWhile_cons_of_pos blank]
      rfl
    | false => rw [trim, List.dropWhile_cons_of_neg (by simp [blank])]

theorem ne_blank_of_trim (next : trim a = t :: rest) : t.kind ≠ .blank := by
  have first := List.head?_dropWhile_not (·.isBlank) a
  rw [show a.dropWhile (·.isBlank) = t :: rest from next] at first
  rintro blank
  simp [Token.isBlank, blank] at first

/-- States that are steady and pass the next token in the same way are stuck at the same place. -/
theorem stuck_congr (steady : s.IsSteady) (steady' : s'.IsSteady) (final : s.isFinal = s'.isFinal)
    (next : ∀ t ∈ (trim a).head?, s.passMark t = s'.passMark t) : s.stuck a = s'.stuck a := by
  rw [← steady.stuck_trim, ← steady'.stuck_trim]
  cases here : trim a with
  | nil => rw [stuck, stuck, final]
  | cons t rest =>
    have there := ne_blank_of_trim here
    rw [here] at next
    rw [stuck, stuck, step_of_ne_blank there, step_of_ne_blank there, next t rfl]

/-- A steady state that cannot pass the next token is stuck behind the blanks in front of it. -/
theorem IsSteady.stuck_eq (steady : s.IsSteady) (final : trim a = [] → s.isFinal = false)
    (refuses : ∀ t ∈ (trim a).head?, s.passMark t = none) : s.stuck a = some (trim a) := by
  rw [← steady.stuck_trim]
  cases here : trim a with
  | nil =>
    rw [stuck, final here]
    rfl
  | cons t rest =>
    rw [here] at refuses
    exact stuck_of_step_eq_none ((step_of_ne_blank (ne_blank_of_trim here)).trans (refuses t rfl)) rest

theorem IsSteady.stuck_pass (steady : s.IsSteady) (next : trim a = t :: b)
    (passes : s.passMark t = some s') : s.stuck a = s'.stuck b := by
  rw [← steady.stuck_trim, next]
  exact stuck_cons ((step_of_ne_blank (ne_blank_of_trim next)).trans passes) b

/-! ## Operators -/

theorem passOperator_of_ne (other : t.kind ≠ .closeParen ∨ enclosing = []) :
    passOperator level enclosing t = (level.operand? t.kind).map (⟨.operand ·, enclosing⟩) := by
  unfold passOperator
  split
  · next kind =>
    obtain other | none := other
    · exact absurd kind other
    · cases none
  · rfl

/-- Nothing goes on with a whole sum but the parenthesis that closes it. -/
theorem passOperator_sum (other : t.kind ≠ .closeParen ∨ enclosing = []) :
    passOperator .sum enclosing t = none := by
  rw [passOperator_of_ne other]
  cases t.kind <;> rfl

theorem passOperator_of_operand? {level' : Level} (follows : level.operand? t.kind = some level') :
    passOperator level enclosing t = some ⟨.operand level', enclosing⟩ := by
  rw [passOperator_of_ne (.inl ?_), follows]
  · rfl
  · intro kind
    rw [kind] at follows
    cases follows

/-- If no separator follows, digits are an operand. -/
theorem stuck_digits (noSeparator : ∀ t ∈ a.head?, t.kind.isSeparator = false) :
    stuck ⟨.digits level, enclosing⟩ a = stuck ⟨.operated level, enclosing⟩ a := by
  cases a with
  | nil => cases enclosing <;> rfl
  | cons t rest =>
    have here := noSeparator t rfl
    rw [stuck, stuck, step, step]
    cases t.isBlank with
    | true => rfl
    | false => simp [passMark, here]

/-- If no operator follows that goes on with an operand of this level, it may count as more. -/
theorem stuck_operated {level' : Level}
    (next : ∀ t ∈ (trim a).head?, level.operand? t.kind = level'.operand? t.kind) :
    stuck ⟨.operated level, enclosing⟩ a = stuck ⟨.operated level', enclosing⟩ a := by
  refine stuck_congr rfl rfl (by cases enclosing <;> rfl) fun t here => ?_
  have same := next t here
  simp only [passMark, passOperator]
  split
  · rfl
  · rw [same]

end State
end Grammar
end Fluxion
