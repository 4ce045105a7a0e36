import Fluxion.Proofs.Definition.Tracing
import Fluxion.Proofs.Function.Relocation
/- Readings in lockstep. Readers see tokens, and of their places nothing but what they hand on. If
   two cursors are related by a relation that every move of a cursor keeps (`IsLockstep`), then what
   is read at the one is what is read at the other, up to places (`IsLockstep.read_eq`): terms and
   faults are compared after both have been moved to a place that they have in common.

   What a relation has to give is little: the next tokens that are no blanks are the same and what
   is behind them is related again (`SameNext`), and what directly follows digits is the same
   (`SamePlaces`). Then one pass over the readers shows that they agree (`Agree`, `InStep`), from
   numbers to whole definitions.

   The bounds on operators and on parentheses differ as the numbers of tokens do; neither is ever
   what stops a reader. Sources that differ in blanks, and sources that stand behind others, are the
   two uses. -/
namespace Fluxion
namespace Definition

open Grammar

/-- What is read, or the fault that was met, at other places. -/
def relocated (place : Span → Span) (result : Except SyntaxError Definition) :
    Except SyntaxError Definition :=
  (result.map (·.relocate place)).mapError (·.relocate place)

section Relations
variable (place place' : Span → Span) (R : Cursor → Cursor → Prop)

/-- The tokens differ in nothing but their places. -/
structure SameToken (t t' : Token) : Prop where
  kind : t.kind = t'.kind
  text : t.text = t'.text
  span : place t.span = place' t'.span

/-- The next tokens that are no blanks are the same, and what is behind them is related. -/
structure SameNext (c c' : Cursor) : Prop where
  here : place c.skipBlanks.span = place' c'.skipBlanks.span
  next : (∃ t d t' d', c.next = (some t, d) ∧ c'.next = (some t', d') ∧
      SameToken place place' t t' ∧ R d d') ∨ (c.next.1 = none ∧ c'.next.1 = none)

/-- What directly follows digits is the same: no separator, a separator without digits behind it, or
    the places of a fraction. -/
inductive SamePlaces (c c' : Cursor) : Prop where
  | none (left : c.current?.any (·.kind.isSeparator) = false)
      (right : c'.current?.any (·.kind.isSeparator) = false)
  | missing (left : c.current?.any (·.kind.isSeparator) = true)
      (right : c'.current?.any (·.kind.isSeparator) = true)
      (noDigits : c.advance.ahead? .digits = .none) (noDigits' : c'.advance.ahead? .digits = .none)
      (here : place c.advance.span = place' c'.advance.span)
  | some (left : c.current?.any (·.kind.isSeparator) = true)
      (right : c'.current?.any (·.kind.isSeparator) = true) {t t' : Token}
      (digits : c.advance.ahead? .digits = .some t) (digits' : c'.advance.ahead? .digits = .some t')
      (same : SameToken place place' t t') (behind : R c.advance.advance c'.advance.advance)

/-- Every move of a cursor keeps the relation. -/
structure IsLockstep : Prop where
  respects : Span.Respects place
  respects' : Span.Respects place'
  next : ∀ {c c'}, R c c' → SameNext place place' R c c'
  skip : ∀ {c c'}, R c c' → R c.skipBlanks c'.skipBlanks
  places : ∀ {c c' d d' t t'}, R c c' → c.next = (.some t, d) → c'.next = (.some t', d') →
    t.kind = .digits → SamePlaces place place' R d d'
  stop : ∀ {c c'}, R c c' → place c.endSpan = place' c'.endSpan
  previous : ∀ {c c'}, R c c' →
    c.previous?.map (fun t => (t.kind, t.text)) = c'.previous?.map (fun t => (t.kind, t.text))

/-- Related cursors with no more tokens left than the bounds. -/
structure Near (n n' : Nat) (c c' : Cursor) : Prop where
  related : R c c'
  left : c.ahead.length ≤ n
  right : c'.ahead.length ≤ n'

variable {α β : Type}

/-- Both read related values and stop at related cursors, or both fail with the same fault. -/
def Agree (V : α → α → Prop) (P : Cursor → Cursor → Prop) :
    Except SyntaxError (α × Cursor) → Except SyntaxError (α × Cursor) → Prop
  | .ok (a, d), .ok (a', d') => V a a' ∧ P d d'
  | .error e, .error e' => e.relocate place = e'.relocate place'
  | _, _ => False

/-- The terms differ in nothing but their places. -/
def SameTerm (t t' : Term) : Prop := t.relocate place = t'.relocate place'

/-- The readers agree wherever no more tokens are left than the bounds. -/
def InStep (reader reader' : Reader Term) (n n' : Nat) : Prop :=
  ∀ {c c'}, Near R n n' c c' → Agree place place' (SameTerm place place')
    (Near R c.ahead.length c'.ahead.length) (reader c) (reader' c')

end Relations

variable {place place' : Span → Span} {R : Cursor → Cursor → Prop} {α β : Type} {n n' : Nat}
  {c c' d d' : Cursor} {t t' : Token}

/-! ## Results -/

theorem Near.mono {m m' : Nat} (near : Near R m m' c c') (left : m ≤ n) (right : m' ≤ n') :
    Near R n n' c c' :=
  ⟨near.related, Nat.le_trans near.left left, Nat.le_trans near.right right⟩

theorem Near.of_related (related : R c c') : Near R c.ahead.length c'.ahead.length c c' :=
  ⟨related, Nat.le_refl _, Nat.le_refl _⟩

theorem Agree.cases {V : α → α → Prop} {P : Cursor → Cursor → Prop}
    {x x' : Except SyntaxError (α × Cursor)} (agree : Agree place place' V P x x') :
    (∃ a d a' d', x = .ok (a, d) ∧ x' = .ok (a', d') ∧ V a a' ∧ P d d') ∨
      ∃ e e', x = .error e ∧ x' = .error e' ∧ e.relocate place = e'.relocate place' := by
  cases x with
  | error e =>
    cases x' with
    | error e' => exact .inr ⟨e, e', rfl, rfl, agree⟩
    | ok result' => exact agree.elim
  | ok result =>
    cases x' with
    | error e' => exact agree.elim
    | ok result' => exact .inl ⟨_, _, _, _, rfl, rfl, agree⟩

theorem Agree.mono {V : α → α → Prop} {P Q : Cursor → Cursor → Prop}
    {x x' : Except SyntaxError (α × Cursor)} (agree : Agree place place' V P x x')
    (imp : ∀ {d d'}, P d d' → Q d d') : Agree place place' V Q x x' := by
  obtain ⟨a, d, a', d', rfl, rfl, value, cursors⟩ | ⟨e, e', rfl, rfl, fault⟩ := agree.cases
  · exact ⟨value, imp cursors⟩
  · exact fault

/-- One reader after another. -/
theorem Agree.bind {V : α → α → Prop} {W : β → β → Prop} {P Q : Cursor → Cursor → Prop}
    {x x' : Except SyntaxError (α × Cursor)}
    {f f' : α × Cursor → Except SyntaxError (β × Cursor)} (first : Agree place place' V P x x')
    (onward : ∀ a a' d d', V a a' → P d d' → Agree place place' W Q (f (a, d)) (f' (a', d'))) :
    Agree place place' W Q (x >>= f) (x' >>= f') := by
  obtain ⟨a, d, a', d', rfl, rfl, value, cursors⟩ | ⟨e, e', rfl, rfl, fault⟩ := first.cases
  · exact onward a a' d d' value cursors
  · exact fault

/-! ## Cursors -/

theorem length_next_lt (passed : c.next = (some t, d)) : d.ahead.length < c.ahead.length := by
  obtain ⟨t', d', passed', next, -⟩ | ⟨d', passed', -⟩ := next_cases c
  · rw [passed] at passed'
    cases passed'
    have shorter := length_trim_le c.ahead
    rw [next, List.length_cons] at shorter
    exact shorter
  · rw [passed] at passed'
    cases passed'

theorem length_skipBlanks_le (c : Cursor) : c.skipBlanks.ahead.length ≤ c.ahead.length := by
  rw [ahead_skipBlanks]
  exact length_trim_le c.ahead

theorem eat_eq_of_next {kind : Token.Kind} (passed : c.next = (some t, d)) (same : t.kind = kind) :
    c.eat kind = (some t, d) := by
  obtain ⟨current, rfl⟩ := Prod.mk.inj passed
  simp only [Cursor.eat, current, if_pos same]

theorem eat_eq_of_next_ne {kind : Token.Kind} (passed : c.next = (some t, d))
    (other : t.kind ≠ kind) : c.eat kind = (none, c.skipBlanks) := by
  obtain ⟨current, -⟩ := Prod.mk.inj passed
  simp only [Cursor.eat, current, if_neg other]

theorem eat_eq_of_next_eq_none {kind : Token.Kind} (ends : c.next.1 = none) :
    c.eat kind = (none, c.skipBlanks) := by
  have current : c.skipBlanks.current? = none := ends
  simp only [Cursor.eat, current]

theorem previous?_advance (current : c.current? = some t) (there : t.kind ≠ .blank) :
    c.advance.previous? = some t := by
  obtain ⟨passed, ahead, stop⟩ := c
  cases ahead with
  | nil => cases current
  | cons u rest =>
    cases current
    have noBlank : t.isBlank = false := beq_eq_false_iff_ne.mpr there
    simp [Cursor.advance, Cursor.previous?, noBlank]

theorem previous?_skipBlanks (c : Cursor) : c.skipBlanks.previous? = c.previous? := by
  have skips : ∀ ahead passed : List Token, (Cursor.skipFrom passed ahead).1.find? (!·.isBlank) =
      passed.find? (!·.isBlank) := by
    intro ahead
    induction ahead with
    | nil => intro passed; rfl
    | cons t rest ih =>
      intro passed
      by_cases blank : t.isBlank = true
      · rw [Cursor.skipFrom, if_pos blank, ih, List.find?_cons_of_neg (by simp [blank])]
      · rw [Cursor.skipFrom, if_neg blank]
  exact skips c.ahead c.passed

theorem previous?_next (passed : c.next = (some t, d)) : d.previous? = some t := by
  obtain ⟨current, rfl⟩ := Prod.mk.inj passed
  refine previous?_advance current ?_
  have next := ahead_advance current
  rw [ahead_skipBlanks] at next
  exact State.ne_blank_of_trim next

/-- Either both cursors pass a token of the kind, or both pass blanks only. -/
theorem SameNext.eat (same : SameNext place place' R c c') (kind : Token.Kind) :
    (∃ t d t' d', c.eat kind = (some t, d) ∧ c'.eat kind = (some t', d') ∧
        SameToken place place' t t' ∧ R d d' ∧ d.ahead.length < c.ahead.length ∧
          d'.ahead.length < c'.ahead.length) ∨
      (c.eat kind = (none, c.skipBlanks) ∧ c'.eat kind = (none, c'.skipBlanks)) := by
  obtain ⟨t, d, t', d', passed, passed', token, related⟩ | ⟨ends, ends'⟩ := same.next
  · by_cases there : t.kind = kind
    · have there' : t'.kind = kind := token.kind ▸ there
      exact .inl ⟨t, d, t', d', eat_eq_of_next passed there, eat_eq_of_next passed' there', token,
        related, length_next_lt passed, length_next_lt passed'⟩
    · have other : t'.kind ≠ kind := token.kind ▸ there
      exact .inr ⟨eat_eq_of_next_ne passed there, eat_eq_of_next_ne passed' other⟩
  · exact .inr ⟨eat_eq_of_next_eq_none ends, eat_eq_of_next_eq_none ends'⟩

theorem SameNext.fail (same : SameNext place place' R c c') (fault : SyntaxFault) :
    (c.fail fault).relocate place = (c'.fail fault).relocate place' := by
  simp only [Cursor.fail, Located.relocate, List.map_cons, List.map_nil, same.here]

theorem SameNext.unclosed (same : SameNext place place' R c c') {opening opening' : Span}
    (opens : place opening = place' opening') :
    (c.unclosed opening).relocate place = (c'.unclosed opening').relocate place' := by
  simp only [Cursor.unclosed, Located.relocate, List.map_cons, List.map_nil, same.here, opens]

theorem SameTerm.span_eq {s s' : Term} (same : SameTerm place place' s s') :
    place s.span = place' s'.span := by
  have spans := congrArg Term.span same
  rwa [Term.span_relocate, Term.span_relocate] at spans

theorem length_advance_le (c : Cursor) : c.advance.ahead.length ≤ c.ahead.length := by
  obtain ⟨passed, ahead, stop⟩ := c
  cases ahead with
  | nil => exact Nat.le_refl _
  | cons t rest => exact Nat.le_succ _

section Lockstep
variable (lockstep : IsLockstep place place' R)
include lockstep

theorem IsLockstep.through {s u s' u' : Span} (first : place s = place' s')
    (last : place u = place' u') : place (s.through u) = place' (s'.through u') := by
  rw [lockstep.respects, lockstep.respects', first, last]

theorem IsLockstep.join (op : BinaryOp) {l r l' r' : Term} (left : SameTerm place place' l l')
    (right : SameTerm place place' r r') :
    SameTerm place place' (Term.join op l r) (Term.join op l' r') := by
  rw [SameTerm, Term.relocate_join lockstep.respects, Term.relocate_join lockstep.respects', left,
    right]

theorem IsLockstep.skip_near (related : R c c') :
    Near R c.ahead.length c'.ahead.length c.skipBlanks c'.skipBlanks :=
  ⟨lockstep.skip related, length_skipBlanks_le c, length_skipBlanks_le c'⟩

/-! ## Operands -/

theorem agree_number (same : SameToken place place' t t') (related : R c c')
    (behind : SamePlaces place place' R c c') :
    Agree place place' (SameTerm place place') (Near R c.ahead.length c'.ahead.length)
      (number t c) (number t' c') := by
  simp only [number, same.text]
  cases integer? t'.text.toList with
  | none =>
    show Located.relocate place _ = Located.relocate place' _
    simp only [Located.relocate, List.map_cons, List.map_nil, same.span]
  | some value =>
    cases behind with
    | none left right =>
      simp only [left, right, Bool.false_eq_true, if_false]
      refine ⟨?_, .of_related related⟩
      simp only [SameTerm, Term.relocate, same.span]
    | missing left right noDigits noDigits' here =>
      simp only [left, right, if_true, noDigits, noDigits']
      show Located.relocate place _ = Located.relocate place' _
      simp only [Located.relocate, List.map_cons, List.map_nil, here]
    | @some left right u u' digits digits' places onward =>
      simp only [left, right, if_true, digits, digits', places.text]
      have short (c : Cursor) : c.advance.advance.ahead.length ≤ c.ahead.length :=
        Nat.le_trans (length_advance_le _) (length_advance_le c)
      refine ⟨?_, onward, short c, short c'⟩
      simp only [SameTerm, Term.relocate, lockstep.through same.span places.span]

variable {inner inner' : Reader Term}

/-- An operand in parentheses. -/
theorem agree_closed (onInner : InStep place place' R inner inner' n n') (near : Near R n n' c c')
    {opening opening' : Span} (opens : place opening = place' opening') (f f' : Term → Token → Term)
    (result : ∀ u u' t t', SameTerm place place' u u' → SameToken place place' t t' →
      SameTerm place place' (f u t) (f' u' t')) :
    Agree place place' (SameTerm place place') (Near R c.ahead.length c'.ahead.length)
      (do
        let (u, c) ← inner c
        match c.eat .closeParen with
        | (none, c) => .error (c.unclosed opening)
        | (some closing, c) => .ok (f u closing, c))
      (do
        let (u, c) ← inner' c'
        match c.eat .closeParen with
        | (none, c) => .error (c.unclosed opening')
        | (some closing, c) => .ok (f' u closing, c)) := by
  refine (onInner near).bind fun u u' d d' operand behind => ?_
  obtain ⟨t, e, t', e', eaten, eaten', token, related, shorter, shorter'⟩ | ⟨eaten, eaten'⟩ :=
    (lockstep.next behind.related).eat .closeParen
  · simp only [eaten, eaten']
    exact ⟨result u u' t t' operand token, related, Nat.le_trans (Nat.le_of_lt shorter) behind.left,
      Nat.le_trans (Nat.le_of_lt shorter') behind.right⟩
  · simp only [eaten, eaten']
    exact (lockstep.next (lockstep.skip behind.related)).unclosed opens

theorem agree_call (onInner : InStep place place' R inner inner' n n') (f : Elementary)
    (word : SameToken place place' t t') (near : Near R n n' c c') :
    Agree place place' (SameTerm place place') (Near R c.ahead.length c'.ahead.length)
      (call inner f t c) (call inner' f t' c') := by
  rw [call, call]
  obtain ⟨u, d, u', d', eaten, eaten', opening, related, shorter, shorter'⟩ | ⟨eaten, eaten'⟩ :=
    (lockstep.next near.related).eat .openParen
  · simp only [eaten, eaten']
    have behind : Near R n n' d d' :=
      ⟨related, by have := near.left; omega, by have := near.right; omega⟩
    have closed := agree_closed lockstep onInner behind opening.span
      (fun argument closing => .call f argument (t.span.through closing.span))
      (fun argument closing => .call f argument (t'.span.through closing.span))
      fun a a' v v' argument closing => by
        simp only [SameTerm, Term.relocate, lockstep.through word.span closing.span,
          show a.relocate place = a'.relocate place' from argument]
    exact closed.mono fun last => last.mono (Nat.le_of_lt shorter) (Nat.le_of_lt shorter')
  · simp only [eaten, eaten', word.text]
    exact (lockstep.next (lockstep.skip near.related)).fail _

theorem inStep_primary (onInner : InStep place place' R inner inner' n n') :
    InStep place place' R (primary inner) (primary inner') (n + 1) (n' + 1) := by
  intro c c' near
  have next := lockstep.next near.related
  rw [primary, primary]
  obtain ⟨t, d, t', d', passed, passed', same, related⟩ | ⟨ends, ends'⟩ := next.next
  · have shorter := length_next_lt passed
    have shorter' := length_next_lt passed'
    have behind : Near R n n' d d' :=
      ⟨related, by have := near.left; omega, by have := near.right; omega⟩
    have weaken : ∀ {e e'}, Near R d.ahead.length d'.ahead.length e e' →
        Near R c.ahead.length c'.ahead.length e e' :=
      fun last => last.mono (Nat.le_of_lt shorter) (Nat.le_of_lt shorter')
    simp only [passed, passed', ← same.kind, ← same.text]
    cases kind : t.kind with
    | openParen =>
      have closed := agree_closed lockstep onInner behind same.span (fun inner _ => inner)
        (fun inner _ => inner) fun _ _ _ _ operand _ => operand
      exact closed.mono weaken
    | digits =>
      have places := lockstep.places near.related passed passed' kind
      exact (agree_number lockstep same related places).mono weaken
    | name =>
      cases Elementary.ofName? t.text with
      | none =>
        refine ⟨?_, weaken (.of_related related)⟩
        simp only [SameTerm, Term.relocate, same.span]
      | some f => exact (agree_call lockstep onInner f same behind).mono weaken
    | _ => exact next.fail _
  · have none : c.next = (none, c.next.2) := Prod.ext ends rfl
    have none' : c'.next = (.none, c'.next.2) := Prod.ext ends' rfl
    rw [none, none']
    exact next.fail _

/-! ## Operators -/

theorem inStep_power (onInner : InStep place place' R inner inner' n n') :
    InStep place place' R (power inner) (power inner') (n + 1) (n' + 1) := by
  intro c c' near
  refine (inStep_primary lockstep onInner near).bind fun base base' d d' onBase behind => ?_
  obtain ⟨t, e, t', e', eaten, eaten', -, related, shorter, shorter'⟩ | ⟨eaten, eaten'⟩ :=
    (lockstep.next behind.related).eat .caret
  · simp only [eaten, eaten']
    have onward : Near R (n + 1) (n' + 1) e e' :=
      ⟨related, by have := near.left; have := behind.left; omega,
        by have := near.right; have := behind.right; omega⟩
    refine (inStep_primary lockstep onInner onward).bind fun exponent exponent' g g' onExponent last => ?_
    exact ⟨lockstep.join .pow onBase onExponent,
      last.mono (by have := behind.left; omega) (by have := behind.right; omega)⟩
  · simp only [eaten, eaten']
    exact ⟨onBase, (lockstep.skip_near behind.related).mono behind.left behind.right⟩

/-- Both cursors pass the same operator, or neither passes one. -/
theorem operator_agree (operator? : Token.Kind → Option BinaryOp) (related : R c c') :
    (∃ op d d', operator operator? c = (some op, d) ∧ operator operator? c' = (some op, d') ∧ R d d' ∧
        d.ahead.length < c.ahead.length ∧ d'.ahead.length < c'.ahead.length) ∨
      (operator operator? c = (none, c) ∧ operator operator? c' = (none, c')) := by
  rw [operator, operator]
  obtain ⟨t, d, t', d', passed, passed', same, behind⟩ | ⟨ends, ends'⟩ :=
    (lockstep.next related).next
  · simp only [passed, passed', ← same.kind]
    cases operator? t.kind with
    | none => exact .inr ⟨rfl, rfl⟩
    | some op =>
      exact .inl ⟨op, d, d', rfl, rfl, behind, length_next_lt passed, length_next_lt passed'⟩
  · have none : c.next = (none, c.next.2) := Prod.ext ends rfl
    have none' : c'.next = (.none, c'.next.2) := Prod.ext ends' rfl
    rw [none, none']
    exact .inr ⟨rfl, rfl⟩

omit lockstep in
theorem chain_of_none {operator? : Token.Kind → Option BinaryOp} (operand : Reader Term) (k : Nat)
    (left : Term) (none : operator operator? c = (none, c)) :
    chain operator? operand k left c = .ok (left, c) := by
  cases k with
  | zero => rfl
  | succ k => simp only [chain, none]

/-- The bounds on operators differ, but both are large enough. -/
theorem agree_chain (operator? : Token.Kind → Option BinaryOp) {operand operand' : Reader Term}
    (onOperand : InStep place place' R operand operand' n n') {k k' : Nat} {left left' : Term}
    (same : SameTerm place place' left left') (near : Near R n n' c c')
    (enough : c.ahead.length ≤ k) (enough' : c'.ahead.length ≤ k') :
    Agree place place' (SameTerm place place') (Near R c.ahead.length c'.ahead.length)
      (chain operator? operand k left c) (chain operator? operand' k' left' c') := by
  induction k generalizing k' left left' c c' with
  | zero =>
    obtain ⟨op, d, d', -, -, -, shorter, -⟩ | ⟨none, none'⟩ :=
      operator_agree lockstep operator? near.related
    · omega
    · rw [chain_of_none operand 0 left none, chain_of_none operand' k' left' none']
      exact ⟨same, .of_related near.related⟩
  | succ k ih =>
    obtain ⟨op, d, d', found, found', related, shorter, shorter'⟩ | ⟨none, none'⟩ :=
      operator_agree lockstep operator? near.related
    · obtain ⟨k', rfl⟩ : ∃ m, k' = m + 1 := ⟨k' - 1, by omega⟩
      simp only [chain, found, found']
      have behind : Near R n n' d d' :=
        ⟨related, by have := near.left; omega, by have := near.right; omega⟩
      refine (onOperand behind).bind fun right right' e e' onRight onward => ?_
      have short : e.ahead.length < c.ahead.length := Nat.lt_of_le_of_lt onward.left shorter
      have short' : e'.ahead.length < c'.ahead.length := Nat.lt_of_le_of_lt onward.right shorter'
      have further := ih (lockstep.join op same onRight) (onward.mono behind.left behind.right)
        (show e.ahead.length ≤ k by omega) (show e'.ahead.length ≤ k' by omega)
      exact further.mono fun last => last.mono (Nat.le_of_lt short) (Nat.le_of_lt short')
    · rw [chain_of_none operand _ left none, chain_of_none operand' k' left' none']
      exact ⟨same, .of_related near.related⟩

theorem inStep_product (onInner : InStep place place' R inner inner' n n') :
    InStep place place' R (product inner) (product inner') (n + 1) (n' + 1) := by
  intro c c' near
  refine (inStep_power lockstep onInner near).bind fun first first' d d' onFirst behind => ?_
  refine (agree_chain lockstep multiplicative? (inStep_power lockstep onInner) onFirst
    (behind.mono near.left near.right) (Nat.le_refl _) (Nat.le_refl _)).mono fun last => ?_
  exact last.mono behind.left behind.right

theorem inStep_signed {operand operand' : Reader Term}
    (onOperand : InStep place place' R operand operand' n n') :
    InStep place place' R (signed operand) (signed operand') n n' := by
  intro c c' near
  rw [signed, signed]
  obtain ⟨t, d, t', d', eaten, eaten', sign, related, shorter, shorter'⟩ | ⟨eaten, eaten'⟩ :=
    (lockstep.next near.related).eat .minus
  · simp only [eaten, eaten']
    have behind : Near R n n' d d' :=
      ⟨related, by have := near.left; omega, by have := near.right; omega⟩
    refine (onOperand behind).bind fun first first' e e' onFirst last => ?_
    refine ⟨?_, last.mono (Nat.le_of_lt shorter) (Nat.le_of_lt shorter')⟩
    simp only [SameTerm, Term.relocate, lockstep.through sign.span (SameTerm.span_eq onFirst),
      show first.relocate place = first'.relocate place' from onFirst]
  · simp only [eaten, eaten']
    have skipped := lockstep.skip_near near.related
    have unsigned : Near R c.ahead.length c'.ahead.length (c.skipBlanks.eat .plus).2
        (c'.skipBlanks.eat .plus).2 := by
      obtain ⟨t, d, t', d', plus, plus', -, related, shorter, shorter'⟩ | ⟨plus, plus'⟩ :=
        (lockstep.next skipped.related).eat .plus
      · rw [plus, plus']
        exact ⟨related, Nat.le_trans (Nat.le_of_lt shorter) skipped.left,
          Nat.le_trans (Nat.le_of_lt shorter') skipped.right⟩
      · rw [plus, plus']
        exact (lockstep.skip_near skipped.related).mono skipped.left skipped.right
    refine (onOperand (unsigned.mono near.left near.right)).mono fun last => ?_
    exact last.mono unsigned.left unsigned.right

theorem inStep_sum (onInner : InStep place place' R inner inner' n n') :
    InStep place place' R (Definition.sum inner) (Definition.sum inner') (n + 1) (n' + 1) := by
  intro c c' near
  refine (inStep_signed lockstep (inStep_product lockstep onInner) near).bind
    fun first first' d d' onFirst behind => ?_
  refine (agree_chain lockstep additive? (inStep_product lockstep onInner) onFirst
    (behind.mono near.left near.right) (Nat.le_refl _) (Nat.le_refl _)).mono fun last => ?_
  exact last.mono behind.left behind.right

omit lockstep in
theorem skipBlanks_skipBlanks (c : Cursor) : c.skipBlanks.skipBlanks = c.skipBlanks := by
  have again : ∀ ahead passed : List Token,
      Cursor.skipFrom (Cursor.skipFrom passed ahead).1 (Cursor.skipFrom passed ahead).2 =
        Cursor.skipFrom passed ahead := by
    intro ahead
    induction ahead with
    | nil => intro passed; rfl
    | cons t rest ih =>
      intro passed
      by_cases blank : t.isBlank = true
      · simp only [Cursor.skipFrom, if_pos blank, ih]
      · simp only [Cursor.skipFrom, if_neg blank]
  simp only [Cursor.skipBlanks, again]

omit lockstep in
/-- Where no token is left, a sum fails for want of an operand, whatever the bound is. -/
theorem expression_of_nothing (depth : Nat) (nothing : c.next.1 = none) :
    expression depth c = .error (c.fail (.missingOperand none)) := by
  cases depth with
  | zero => rfl
  | succ depth =>
    have skipped := skipBlanks_skipBlanks c
    have nothing' : c.skipBlanks.next.1 = none := by rw [Cursor.next, skipped]; exact nothing
    have none : c.skipBlanks.next = (none, c.skipBlanks.next.2) := Prod.ext nothing' rfl
    have failed : primary (expression depth) c.skipBlanks =
        .error (c.fail (.missingOperand .none)) := by
      rw [primary, none, Cursor.fail, skipped, Cursor.fail]
    rw [expression, Definition.sum, signed, eat_eq_of_next_eq_none nothing]
    simp only [eat_eq_of_next_eq_none nothing', skipped, product, power, failed, bind, Except.bind]

/-- The bounds on parentheses differ, but both are large enough. -/
theorem inStep_expression (depth depth' : Nat) :
    InStep place place' R (expression depth) (expression depth') depth depth' := by
  induction depth generalizing depth' with
  | zero =>
    intro c c' near
    have same := lockstep.next near.related
    obtain ⟨t, d, t', d', passed, -⟩ | ⟨ends, ends'⟩ := same.next
    · have shorter := length_next_lt passed
      have := near.left
      omega
    · rw [expression_of_nothing 0 ends, expression_of_nothing depth' ends']
      exact same.fail _
  | succ depth ih =>
    intro c c' near
    have same := lockstep.next near.related
    obtain ⟨t, d, t', d', -, passed', -⟩ | ⟨ends, ends'⟩ := same.next
    · have shorter := length_next_lt passed'
      have enough := near.right
      obtain ⟨depth', rfl⟩ : ∃ k, depth' = k + 1 := ⟨depth' - 1, by omega⟩
      exact inStep_sum lockstep (ih depth') near
    · rw [expression_of_nothing _ ends, expression_of_nothing depth' ends']
      exact same.fail _

/-! ## Definitions -/

omit lockstep in
/-- One token is expected: both cursors pass it, or what is there instead is the fault. -/
theorem agree_expected {V : α → α → Prop} {P : Cursor → Cursor → Prop} {kind : Token.Kind}
    (same : SameNext place place' R c c') {e e' : SyntaxError}
    (fault : e.relocate place = e'.relocate place')
    {onward onward' : Token → Cursor → Except SyntaxError (α × Cursor)}
    (agree : ∀ t t' d d', SameToken place place' t t' → R d d' →
      Agree place place' V P (onward t d) (onward' t' d')) :
    Agree place place' V P
      (match c.eat kind with
      | (some t, d) => onward t d
      | _ => .error e)
      (match c'.eat kind with
      | (some t', d') => onward' t' d'
      | _ => .error e') := by
  obtain ⟨t, d, t', d', eaten, eaten', token, related, -, -⟩ | ⟨eaten, eaten'⟩ := same.eat kind
  · rw [eaten, eaten']
    exact agree t t' d d' token related
  · rw [eaten, eaten']
    exact fault

theorem agree_header (start : SameNext place place' R c c') :
    Agree place place' Eq R (header c) (header c') := by
  refine agree_expected start (start.fail _) fun name name' c c' onName related => ?_
  have next := lockstep.next related
  refine agree_expected next (next.fail _) fun opening opening' c c' onOpening related => ?_
  have next := lockstep.next related
  refine agree_expected next (next.fail _) fun bound bound' c c' onBound related => ?_
  have next := lockstep.next related
  refine agree_expected next (next.unclosed onOpening.span) fun _ _ c c' _ related => ?_
  have next := lockstep.next related
  refine agree_expected next (next.fail _) fun _ _ c c' _ related => ?_
  exact ⟨by rw [onName.text, onBound.text], related⟩

/-- What follows a whole sum is nothing but blanks at both cursors, or the same fault. -/
theorem finish_agree (related : R c c') : (finish c = .ok () ∧ finish c' = .ok ()) ∨
    ∃ e e', finish c = .error e ∧ finish c' = .error e' ∧ e.relocate place = e'.relocate place' := by
  have skipped := lockstep.skip related
  have same := lockstep.next related
  obtain ⟨t, d, t', d', passed, passed', token, -⟩ | ⟨ends, ends'⟩ := same.next
  · have current : c.skipBlanks.current? = some t := (Prod.mk.inj passed).1
    have current' : c'.skipBlanks.current? = some t' := (Prod.mk.inj passed').1
    have suggested : suggestions c.skipBlanks = suggestions c'.skipBlanks := by
      have previous := lockstep.previous skipped
      simp only [suggestions, current, current']
      cases before : c.skipBlanks.previous? with
      | none =>
        rw [before] at previous
        rw [Option.map_eq_none_iff.mp previous.symm]
      | some word =>
        rw [before] at previous
        obtain ⟨word', before', sameWord⟩ := Option.map_eq_some_iff.mp previous.symm
        obtain ⟨kind, text⟩ := Prod.mk.inj sameWord
        rw [before']
        simp only [kind, text, token.kind]
    have some : c.skipBlanks.ahead.isEmpty = false := by rw [ahead_advance current]; rfl
    have some' : c'.skipBlanks.ahead.isEmpty = false := by rw [ahead_advance current']; rfl
    refine .inr ⟨_, _, by simp only [finish, some, Bool.false_eq_true, if_false]; rfl,
      by simp only [finish, some', Bool.false_eq_true, if_false]; rfl, ?_⟩
    simp only [Located.relocate, List.map_cons, List.map_nil, suggested,
      lockstep.through same.here (lockstep.stop skipped)]
  · have empty : ∀ {b : Cursor}, b.current? = none → b.ahead.isEmpty = true := by
      intro b none
      rw [List.isEmpty_iff]
      exact List.head?_eq_none_iff.mp none
    exact .inl ⟨if_pos (empty ends), if_pos (empty ends')⟩

/-- What is read at the one cursor is read at the other, up to places. -/
theorem IsLockstep.read_eq (start : SameNext place place' R c c') :
    relocated place (read c) = relocated place' (read c') := by
  have onHeader := agree_header lockstep start
  rw [Definition.read, Definition.read]
  obtain ⟨names, d, names', d', left, right, rfl, related⟩ | ⟨e, e', left, right, fault⟩ :=
    onHeader.cases
  · have onBody := inStep_expression lockstep d.ahead.length d'.ahead.length (.of_related related)
    rw [left, right]
    simp only [bind, Except.bind]
    obtain ⟨body, f, body', f', first, second, same, near⟩ | ⟨e, e', first, second, fault⟩ :=
      onBody.cases
    · rw [first, second]
      obtain ⟨finished, finished'⟩ | ⟨e, e', failed, failed', fault⟩ :=
        finish_agree lockstep near.related
      · simp only [finished, finished']
        have bodies : body.relocate place = body'.relocate place' := same
        simp only [relocated, Except.map, Except.mapError, relocate, bodies]
      · simp only [failed, failed']
        exact congrArg Except.error fault
    · rw [first, second]
      exact congrArg Except.error fault
  · rw [left, right]
    exact congrArg Except.error fault

end Lockstep

end Definition
end Fluxion
