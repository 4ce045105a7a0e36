import Fluxion.Proofs.Definition.Extent
import Fluxion.Proofs.Definition.Tracing
/- What a fault of a definition points at. A reader that fails has a place for its fault that is one
   of the tokens it was given, or the end of the source; if a parenthesis is not closed, it also has
   the place of this parenthesis, and whatever it has read behind it is balanced (`Refuses`).

   Each reader hands over to the next one what it leaves, so what one of them has passed must be
   accounted for as well: it crosses tokens whose parentheses are paired, or refuses them
   (`Accounts`, `Accounts.bind`). One pass over the readers shows it of all of them
   (`refuses_header`, `accounts_expression`). What is left of a definition that ends too early is
   the only fault that no reader of a part has (`read_error_cases`). How these places lie in the
   text, and that they can be drawn, is proved in `Fluxion.Proofs.Function.Drawing`. -/
namespace Fluxion

/-- The fault is at one place, which may be any token. -/
def SyntaxFault.IsLocal : SyntaxFault → Prop
  | unclosedParenthesis | trailing _ => False
  | _ => True

namespace Grammar

open Definition

variable {a b : List Token} {stop : Nat} {e : SyntaxError} {c c₁ c₂ : Cursor} {α β : Type}

/-- Where the first of the tokens stands that are left, or the end of the source. -/
def place (rest : List Token) (stop : Nat) : Span := (rest.head?.map (·.span)).getD (.empty stop)

/-- The fault is at one of the tokens, or at the end behind them. A parenthesis that is not closed
    has another place in front of the first one, and between the two all parentheses are paired. -/
inductive Refuses (a : List Token) (stop : Nat) : SyntaxError → Prop where
  | here {fault : SyntaxFault} {rest : List Token} (isLocal : fault.IsLocal) (suffix : rest <:+ a) :
      Refuses a stop ⟨fault, [place rest stop]⟩
  | unclosed {opening : Token} {inner rest : List Token} (opens : opening.kind = .openParen)
      (balanced : IsBalanced inner) (unpaired : ∀ t ∈ rest.head?, t.kind ≠ .closeParen)
      (suffix : opening :: inner ++ rest <:+ a) :
      Refuses a stop ⟨.unclosedParenthesis, [place rest stop, opening.span]⟩

/-- What is wrong with a part is wrong with the whole. -/
theorem Refuses.of_suffix (refuses : Refuses b stop e) (suffix : b <:+ a) : Refuses a stop e := by
  cases refuses with
  | here isLocal within => exact .here isLocal (within.trans suffix)
  | unclosed opens balanced unpaired within =>
    exact .unclosed opens balanced unpaired (within.trans suffix)

theorem Blanks.balances (blanks : Blanks a b) : Balances a b := by
  obtain ⟨between, blank, rfl⟩ := blanks
  exact ⟨between, rfl, isBalanced_of_blanks blank⟩

theorem Balances.isSuffix (balances : Balances a b) : b <:+ a := by
  obtain ⟨part, rfl, -⟩ := balances
  exact List.suffix_append part b

theorem Terminal.isSuffix {kind : Token.Kind} {t : Token} (terminal : Terminal kind a t b) :
    t :: b <:+ a := by
  obtain ⟨-, blanks, -, rfl⟩ := terminal
  exact List.suffix_append blanks (t :: b)

theorem Terminal.isSuffix_tail {kind : Token.Kind} {t : Token} (terminal : Terminal kind a t b) :
    b <:+ a :=
  (List.suffix_cons t b).trans terminal.isSuffix

/-! ## Cursors -/

/-- The one cursor comes behind the other, and all parentheses between them are paired. -/
structure Crosses (c c₁ : Cursor) : Prop where
  balances : Balances c.ahead c₁.ahead
  stop : c₁.stop = c.stop

theorem Crosses.refl (c : Cursor) : Crosses c c := ⟨(Blanks.refl c.ahead).balances, rfl⟩

theorem Crosses.trans (first : Crosses c c₁) (second : Crosses c₁ c₂) : Crosses c c₂ :=
  ⟨first.balances.trans second.balances, second.stop.trans first.stop⟩

theorem stop_eat (c : Cursor) (kind : Token.Kind) : (c.eat kind).2.stop = c.stop := by
  obtain ⟨t, c₁, eaten, -, -, stop⟩ | ⟨c₁, eaten, -, -, stop⟩ := eat_cases c kind
  · rw [eaten, stop]
  · rw [eaten, stop]

/-- No parenthesis is crossed where a token of another kind is eaten, or is not there. -/
theorem crosses_of_eat {kind : Token.Kind} {found : Option Token} (eaten : c.eat kind = (found, c₁))
    (noOpening : kind ≠ .openParen) (noClosing : kind ≠ .closeParen) : Crosses c c₁ := by
  have stop := stop_eat c kind
  rw [eaten] at stop
  cases found with
  | none => exact ⟨(blanks_of_eat eaten).balances, stop⟩
  | some t => exact ⟨(terminal_of_eat eaten).balances noOpening noClosing, stop⟩

theorem refuses_fail {fault : SyntaxFault} (c : Cursor) (isLocal : fault.IsLocal) :
    Refuses c.ahead c.stop (c.fail fault) :=
  .here isLocal (blanks_skipBlanks c).balances.isSuffix

/-- A parenthesis is not closed if what is behind it does not end with one that closes it. -/
theorem refuses_unclosed {opening : Token} (opens : Terminal .openParen a opening b)
    (within : Balances b c.ahead) (unpaired : ∀ t ∈ (trim c.ahead).head?, t.kind ≠ .closeParen) :
    Refuses a c.stop (c.unclosed opening.span) := by
  obtain ⟨inner, rfl, balanced⟩ := within.trans (blanks_skipBlanks c).balances
  rw [← ahead_skipBlanks] at unpaired
  exact .unclosed opens.1 balanced unpaired opens.isSuffix

/-! ## Readers -/

/-- What a reader makes of the tokens ahead: it crosses some of them, or refuses them. -/
def Accounts (c : Cursor) : Except SyntaxError (α × Cursor) → Prop
  | .ok (_, c₁) => Crosses c c₁
  | .error e => Refuses c.ahead c.stop e

theorem refuses_behind (suffix : c₁.ahead <:+ c.ahead) (stop : c₁.stop = c.stop)
    (refuses : Refuses c₁.ahead c₁.stop e) : Refuses c.ahead c.stop e :=
  (stop ▸ refuses).of_suffix suffix

theorem Crosses.accounts (crosses : Crosses c c₁) {x : Except SyntaxError (α × Cursor)}
    (accounts : Accounts c₁ x) : Accounts c x := by
  cases x with
  | error e => exact refuses_behind crosses.balances.isSuffix crosses.stop accounts
  | ok r => exact crosses.trans accounts

/-- One reader after another. -/
theorem Accounts.bind {x : Except SyntaxError (α × Cursor)}
    {f : α × Cursor → Except SyntaxError (β × Cursor)} (first : Accounts c x)
    (onward : ∀ r c₁, Accounts c₁ (f (r, c₁))) : Accounts c (x >>= f) := by
  cases x with
  | error e => exact first
  | ok r =>
    obtain ⟨r, c₁⟩ := r
    exact first.accounts (onward r c₁)

theorem accounts_number {digits : Token} (start : Terminal .digits c.ahead digits c₁.ahead)
    (stop : c₁.stop = c.stop) : Accounts c (number digits c₁) := by
  cases read : number digits c₁ with
  | ok r =>
    obtain ⟨t, c₂⟩ := r
    refine ⟨(sound_number start read).balances, ?_⟩
    rw [number] at read
    split at read
    · cases read
    · split at read
      · simp only at read
        split at read
        · cases read
        · cases read
          rw [stop_advance, stop_advance, stop]
      · cases read
        exact stop
  | error e =>
    rw [number] at read
    split at read
    · -- The digits themselves are the fault.
      cases read
      have isLocal : (SyntaxFault.invalidNumber true).IsLocal := trivial
      exact .here isLocal start.isSuffix
    · split at read
      · simp only at read
        split at read
        · cases read
          have behind : c₁.advance.ahead <:+ c₁.ahead := by
            rw [Cursor.advance]
            split
            · exact List.suffix_refl _
            · next t ahead there => exact there ▸ List.suffix_cons t ahead
          refine refuses_behind (start.isSuffix_tail) stop ?_
          exact stop_advance c₁ ▸ .here trivial behind
        · cases read
      · cases read

section Inner
variable {inner : Reader Term} (onInner : ∀ c, Accounts c (inner c))
include onInner

/-- What stands in parentheses. -/
theorem accounts_closed {opening : Token} (opens : Terminal .openParen c.ahead opening c₁.ahead)
    (stop : c₁.stop = c.stop) (f : Term → Token → Term) :
    Accounts c (do
      let (t, c) ← inner c₁
      match c.eat .closeParen with
      | (none, c) => .error (c.unclosed opening.span)
      | (some closing, c) => .ok (f t closing, c)) := by
  have within := onInner c₁
  cases read : inner c₁ with
  | error e =>
    rw [read] at within
    exact refuses_behind opens.isSuffix_tail stop within
  | ok r =>
    obtain ⟨t, c₂⟩ := r
    rw [read] at within
    obtain ⟨balances, stop'⟩ : Crosses c₁ c₂ := within
    show Accounts c (match c₂.eat .closeParen with
      | (none, c) => .error (c.unclosed opening.span)
      | (some closing, c) => .ok (f t closing, c))
    obtain ⟨closing, c₃, eaten, -, -, stop''⟩ | ⟨c₃, eaten, unpaired, -, stop''⟩ :=
      eat_cases c₂ .closeParen
    · simp only [eaten]
      exact ⟨balances_enclosed opens balances (terminal_of_eat eaten),
        stop''.trans (stop'.trans stop)⟩
    · simp only [eaten]
      have refuses := refuses_unclosed opens (balances.trans (blanks_of_eat eaten).balances) unpaired
      rwa [stop'', stop', stop] at refuses

theorem accounts_call (f : Elementary) (word : Token) (c : Cursor) :
    Accounts c (call inner f word c) := by
  rw [call]
  obtain ⟨opening, c₁, eaten, -, -, stop⟩ | ⟨c₁, eaten, -, -, stop⟩ := eat_cases c .openParen
  · simp only [eaten]
    exact accounts_closed onInner (terminal_of_eat eaten) stop
      fun argument closing => .call f argument (word.span.through closing.span)
  · simp only [eaten]
    exact refuses_behind (blanks_of_eat eaten).balances.isSuffix stop (refuses_fail c₁ trivial)

theorem accounts_primary (c : Cursor) : Accounts c (primary inner c) := by
  rw [primary]
  obtain ⟨t, c₁, passed, -, stop⟩ | ⟨c₁, passed, -⟩ := next_cases c
  · have terminal := terminal_of_next passed
    simp only [passed]
    split
    · next kind =>
      rw [kind] at terminal
      exact accounts_closed onInner terminal stop fun inner _ => inner
    · next kind =>
      rw [kind] at terminal
      exact accounts_number terminal stop
    · next kind =>
      rw [kind] at terminal
      have crosses : Crosses c c₁ := ⟨terminal.balances (by decide) (by decide), stop⟩
      split
      · next f _ => exact crosses.accounts (accounts_call onInner f t c₁)
      · exact crosses
    · exact refuses_fail c trivial
  · simp only [passed]
    exact refuses_fail c trivial

theorem accounts_power (c : Cursor) : Accounts c (power inner c) := by
  refine (accounts_primary onInner c).bind fun base c₁ => ?_
  simp only
  split
  · next c₂ eaten => exact crosses_of_eat eaten (by decide) (by decide)
  · next c₂ eaten =>
    refine (crosses_of_eat eaten (by decide) (by decide)).accounts ?_
    exact (accounts_primary onInner c₂).bind fun exponent c₃ => .refl c₃

omit onInner

theorem accounts_chain (rank : Rank) {operand : Reader Term} (onOperand : ∀ c, Accounts c (operand c))
    (n : Nat) (left : Term) (c : Cursor) : Accounts c (chain rank.operator? operand n left c) := by
  induction n generalizing left c with
  | zero => exact .refl c
  | succ n ih =>
    obtain ⟨t, op, c₁, found, known, -, stop⟩ | ⟨found, -⟩ := operator_cases rank.operator? c
    · simp only [chain, found]
      obtain ⟨mark, known, terminal⟩ := terminal_of_operator found
      obtain ⟨noOpening, noClosing⟩ := Rank.ne_paren_of_operator? known
      have crosses : Crosses c c₁ := ⟨terminal.balances noOpening noClosing, stop⟩
      exact crosses.accounts ((onOperand c₁).bind fun right c₂ => ih _ c₂)
    · simp only [chain, found]
      exact .refl c

include onInner

theorem accounts_product (c : Cursor) : Accounts c (product inner c) := by
  refine (accounts_power onInner c).bind fun first c₁ => ?_
  have onChain := accounts_chain .factors (accounts_power onInner) c₁.ahead.length first c₁
  rwa [Rank.operator?_factors] at onChain

theorem accounts_signed (c : Cursor) : Accounts c (signed (product inner) c) := by
  rw [signed]
  split
  · next sign c₁ eaten =>
    refine (crosses_of_eat eaten (by decide) (by decide)).accounts ?_
    exact (accounts_product onInner c₁).bind fun first c₂ => .refl c₂
  · next c₁ eaten =>
    refine (crosses_of_eat eaten (by decide) (by decide)).accounts ?_
    have crosses : Crosses c₁ (c₁.eat .plus).2 := crosses_of_eat rfl (by decide) (by decide)
    exact crosses.accounts (accounts_product onInner _)

theorem accounts_sum (c : Cursor) : Accounts c (Definition.sum inner c) := by
  refine (accounts_signed onInner c).bind fun first c₁ => ?_
  have onChain := accounts_chain .terms (accounts_product onInner) c₁.ahead.length first c₁
  rwa [Rank.operator?_terms] at onChain

end Inner

theorem accounts_expression (depth : Nat) (c : Cursor) : Accounts c (expression depth c) := by
  induction depth generalizing c with
  | zero => exact refuses_fail c trivial
  | succ depth ih => exact accounts_sum ih c

/-! ## Definitions -/

/-- Where a token is expected, it is not there, or what comes behind it fails. -/
theorem error_of_expected {kind : Token.Kind} {onward : Token → Cursor → Except SyntaxError α}
    {other : SyntaxError}
    (failed : (match c.eat kind with
      | (some t, c₁) => onward t c₁
      | _ => .error other) = .error e) :
    (e = other ∧ ∀ t ∈ (trim c.ahead).head?, t.kind ≠ kind) ∨
      ∃ t c₁, Terminal kind c.ahead t c₁.ahead ∧ c₁.stop = c.stop ∧ onward t c₁ = .error e := by
  obtain ⟨t, c₁, eaten, -, -, stop⟩ | ⟨c₁, eaten, absent, ahead, -⟩ := eat_cases c kind
  · rw [eaten] at failed
    exact .inr ⟨t, c₁, terminal_of_eat eaten, stop, failed⟩
  · rw [eaten] at failed
    cases failed
    rw [ahead, trim_trim] at absent
    exact .inl ⟨rfl, absent⟩

theorem refuses_header (failed : header c = .error e) : Refuses c.ahead c.stop e := by
  obtain ⟨rfl, -⟩ | ⟨name, c₁, named, stop, failed⟩ := error_of_expected failed
  · exact refuses_fail c trivial
  refine refuses_behind named.isSuffix_tail stop ?_
  obtain ⟨rfl, -⟩ | ⟨opening, c₂, opens, stop, failed⟩ := error_of_expected failed
  · exact refuses_fail c₁ trivial
  obtain ⟨rfl, -⟩ | ⟨variableName, c₃, binds, stop', failed⟩ := error_of_expected failed
  · exact refuses_behind opens.isSuffix_tail stop (refuses_fail c₂ trivial)
  obtain ⟨rfl, unpaired⟩ | ⟨closing, c₄, closes, stop'', failed⟩ := error_of_expected failed
  · -- Between the parenthesis and the fault there is only the variable.
    have refuses := refuses_unclosed opens (binds.balances (by decide) (by decide)) unpaired
    rwa [stop', stop] at refuses
  refine refuses_behind opens.isSuffix_tail stop (refuses_behind binds.isSuffix_tail stop' ?_)
  refine refuses_behind closes.isSuffix_tail stop'' ?_
  obtain ⟨rfl, -⟩ | ⟨equals, c₅, -, -, failed⟩ := error_of_expected failed
  · exact refuses_fail c₄ trivial
  · cases failed

theorem Header.isSuffix {name variableName : String} (header : Header a name variableName b) :
    b <:+ a := by
  obtain ⟨named, opens, binds, closes, defines⟩ := header
  exact defines.isSuffix_tail.trans (closes.isSuffix_tail.trans (binds.isSuffix_tail.trans
    (opens.isSuffix_tail.trans named.isSuffix_tail)))

/-- Behind a whole definition, the fault reaches from the next token to the end of the source. -/
theorem finish_eq_error (failed : finish c = .error e) : ∃ suggestions t rest,
    e = ⟨.trailing suggestions, [⟨t.start, c.stop⟩]⟩ ∧ Blanks c.ahead (t :: rest) ∧
      t.kind ≠ .blank := by
  have blanks := blanks_skipBlanks c
  rw [ahead_skipBlanks] at blanks
  rw [finish] at failed
  cases next : trim c.ahead with
  | nil => simp [ahead_skipBlanks, next] at failed
  | cons t rest =>
    rw [next] at blanks
    have current := (current?_skipBlanks next).1
    simp only [ahead_skipBlanks, next, Cursor.span, current] at failed
    cases failed
    exact ⟨_, t, rest, rfl, blanks, State.ne_blank_of_trim next⟩

/-- Reading fails in the header, in the body, or because of what is left behind them. -/
theorem read_eq_error (failed : read c = .error e) : header c = .error e ∨
    ∃ names c₁, header c = .ok (names, c₁) ∧ (expression c₁.ahead.length c₁ = .error e ∨
      ∃ t c₂, expression c₁.ahead.length c₁ = .ok (t, c₂) ∧ finish c₂ = .error e) := by
  rw [Definition.read] at failed
  cases readHeader : header c with
  | error e' =>
    rw [readHeader] at failed
    cases failed
    exact .inl rfl
  | ok r =>
    obtain ⟨names, c₁⟩ := r
    rw [readHeader] at failed
    refine .inr ⟨names, c₁, rfl, ?_⟩
    cases readBody : expression c₁.ahead.length c₁ with
    | error e' =>
      simp only [bind, Except.bind, readBody] at failed
      cases failed
      exact .inl rfl
    | ok r =>
      obtain ⟨t, c₂⟩ := r
      refine .inr ⟨t, c₂, rfl, ?_⟩
      simp only [bind, Except.bind, readBody] at failed
      split at failed
      · next e' finished =>
        cases failed
        exact finished
      · cases failed

/-- A definition is refused because of one of its parts, or because the source goes on behind it. -/
theorem read_error_cases (failed : read c = .error e) : Refuses c.ahead c.stop e ∨
    ∃ suggestions name variableName body t trailing u rest,
      e = ⟨.trailing suggestions, [⟨u.start, c.stop⟩]⟩ ∧ Header c.ahead name variableName body ∧
        Derives .sum body t trailing ∧ Blanks trailing (u :: rest) ∧ u.kind ≠ .blank := by
  obtain readHeader | ⟨⟨name, variableName⟩, c₁, readHeader, onward⟩ := read_eq_error failed
  · exact .inl (refuses_header readHeader)
  have traces := traces_header c
  rw [readHeader] at traces
  have header := sound_header readHeader
  have stop : c₁.stop = c.stop := traces.stop
  have onBody := accounts_expression c₁.ahead.length c₁
  obtain readBody | ⟨t, c₂, readBody, finished⟩ := onward
  · rw [readBody] at onBody
    exact .inl (refuses_behind header.isSuffix stop onBody)
  · rw [readBody] at onBody
    obtain ⟨trailing, derives, blanks⟩ := sound_expression _ c₁ t c₂ readBody
    obtain ⟨suggestions, u, rest, rfl, blanks', there⟩ := finish_eq_error finished
    rw [onBody.stop, stop]
    exact .inr ⟨suggestions, name, variableName, c₁.ahead, t, trailing, u, rest, rfl, header,
      derives, blanks.trans blanks', there⟩

end Grammar
end Fluxion
