import Fluxion.Definition.Parser
import Fluxion.Proofs.Definition.Grammar
/- What is read off a cursor is a part of the grammar. A reader may have passed blanks behind its
   part already, so every lemma leaves blanks between the end of the part and the cursor (`Sound`),
   and whatever is read next takes them in front of it (`Derives.padded`).

   There is one lemma for each reader, in the order in which they are built: numbers, calls and
   parentheses (`sound_primary`), powers, products, signs and sums (`sound_sum`). Chains go by
   induction on the bound on operators (`sound_chain`), and sums in parentheses by induction on the
   bound on their depth (`sound_expression`); whatever the bound is, what is read is a sum. A whole
   definition has a header, a sum and nothing else (`sound_read`). That bounds do not stop a reader
   early is not said here, but in `Fluxion.Proofs.Definition.Completeness`. -/
namespace Fluxion
namespace Grammar

open Definition

variable {a b c : List Token}

/-! ## Blanks -/

theorem Blanks.refl (a : List Token) : Blanks a a := ⟨[], by simp, rfl⟩

theorem Blanks.trans (first : Blanks a b) (second : Blanks b c) : Blanks a c := by
  obtain ⟨early, blank, rfl⟩ := first
  obtain ⟨late, blank', rfl⟩ := second
  refine ⟨early ++ late, fun t mem => ?_, (List.append_assoc early late c).symm⟩
  obtain isEarly | isLate := List.mem_append.mp mem
  · exact blank t isEarly
  · exact blank' t isLate

theorem Terminal.padded {kind : Token.Kind} {token : Token} (blanks : Blanks a b)
    (terminal : Terminal kind b token c) : Terminal kind a token c :=
  ⟨terminal.1, blanks.trans terminal.2⟩

/-- Blanks in front of a part belong to it; if the part is empty, they are left behind it. -/
theorem Derives.padded {p : Part} {t : Term} (derives : Derives p b t c) (blanks : Blanks a b) :
    ∃ d, Derives p a t d ∧ Blanks d c := by
  induction derives generalizing a with
  | sum _ _ ihStart ihMore =>
    obtain ⟨d, start, between⟩ := ihStart blanks
    obtain ⟨e, more, behind⟩ := ihMore between
    exact ⟨e, .sum start more, behind⟩
  | unsigned _ ih =>
    obtain ⟨d, product, behind⟩ := ih blanks
    exact ⟨d, .unsigned product, behind⟩
  | plus mark product => exact ⟨_, .plus (mark.padded blanks) product, .refl _⟩
  | minus mark product => exact ⟨_, .minus (mark.padded blanks) product, .refl _⟩
  | product _ _ ihStart ihMore =>
    obtain ⟨d, start, between⟩ := ihStart blanks
    obtain ⟨e, more, behind⟩ := ihMore between
    exact ⟨e, .product start more, behind⟩
  | stop => exact ⟨a, .stop, blanks⟩
  | more operator next operand others =>
    exact ⟨_, .more operator (next.padded blanks) operand others, .refl _⟩
  | base _ ih =>
    obtain ⟨d, primary, behind⟩ := ih blanks
    exact ⟨d, .base primary, behind⟩
  | power _ caret onExponent ihBase _ =>
    obtain ⟨d, onBase, between⟩ := ihBase blanks
    exact ⟨_, .power onBase (caret.padded between) onExponent, .refl _⟩
  | enclosed opens inner closes => exact ⟨_, .enclosed (opens.padded blanks) inner closes, .refl _⟩
  | integer number exact => exact ⟨_, .integer (number.padded blanks) exact, .refl _⟩
  | fraction number bounded separates fractional =>
    exact ⟨_, .fraction (number.padded blanks) bounded separates fractional, .refl _⟩
  | call name function opens argument closes =>
    exact ⟨_, .call (name.padded blanks) function opens argument closes, .refl _⟩
  | name name other => exact ⟨_, .name (name.padded blanks) other, .refl _⟩

/-! ## Cursors -/

theorem blanks_skipFrom (passed ahead : List Token) :
    Blanks ahead (Cursor.skipFrom passed ahead).2 := by
  induction ahead generalizing passed with
  | nil => exact .refl []
  | cons t rest ih =>
    rw [Cursor.skipFrom]
    by_cases blank : t.isBlank = true
    · rw [if_pos blank]
      have here : Blanks (t :: rest) rest := ⟨[t], by simpa using blank, rfl⟩
      exact here.trans (ih (t :: passed))
    · rw [if_neg blank]
      exact .refl _

theorem blanks_skipBlanks (c : Cursor) : Blanks c.ahead c.skipBlanks.ahead :=
  blanks_skipFrom c.passed c.ahead

theorem ahead_advance {c : Cursor} {t : Token} (current : c.current? = some t) :
    c.ahead = t :: c.advance.ahead := by
  rw [Cursor.current?] at current
  rw [Cursor.advance]
  split
  · next none => simp [none] at current
  · next there =>
    rw [there] at current ⊢
    cases current
    rfl

theorem terminal_of_eat {c c' : Cursor} {kind : Token.Kind} {t : Token}
    (eaten : c.eat kind = (some t, c')) : Terminal kind c.ahead t c'.ahead := by
  rw [Cursor.eat] at eaten
  split at eaten
  · next current =>
    split at eaten
    · next same =>
      cases eaten
      refine ⟨same, ?_⟩
      rw [← ahead_advance current]
      exact blanks_skipBlanks c
    · cases eaten
  · cases eaten

theorem blanks_of_eat {c c' : Cursor} {kind : Token.Kind} (eaten : c.eat kind = (none, c')) :
    Blanks c.ahead c'.ahead := by
  rw [Cursor.eat] at eaten
  split at eaten
  · split at eaten
    · cases eaten
    · cases eaten
      exact blanks_skipBlanks c
  · cases eaten
    exact blanks_skipBlanks c

theorem terminal_of_next {c c' : Cursor} {t : Token} (passed : c.next = (some t, c')) :
    Terminal t.kind c.ahead t c'.ahead := by
  obtain ⟨current, rfl⟩ := Prod.mk.inj passed
  refine ⟨rfl, ?_⟩
  rw [← ahead_advance current]
  exact blanks_skipBlanks c

/-! ## Readers -/

theorem bind_eq_ok {ε α β : Type} {x : Except ε α} {f : α → Except ε β} {r : β} :
    x >>= f = .ok r ↔ ∃ y, x = .ok y ∧ f y = .ok r := by
  cases x with
  | error e => simp [bind, Except.bind]
  | ok y => simp [bind, Except.bind]

/-- What the reader reads is the part. -/
def Sound (reader : Reader Term) (p : Part) : Prop :=
  ∀ c t c', reader c = .ok (t, c') → ∃ b, Derives p c.ahead t b ∧ Blanks b c'.ahead

/-- A reader goes on where blanks end that others have left. -/
theorem Sound.after {reader : Reader Term} {p : Part} (sound : Sound reader p) {c c' : Cursor}
    {t : Term} (blanks : Blanks a c.ahead) (read : reader c = .ok (t, c')) :
    ∃ b, Derives p a t b ∧ Blanks b c'.ahead := by
  obtain ⟨b, derives, behind⟩ := sound c t c' read
  obtain ⟨d, derives', between⟩ := derives.padded blanks
  exact ⟨d, derives', between.trans behind⟩

/-- A digit sequence has a value if 64 bits with a sign hold it. -/
theorem integer?_eq_some_iff {digits : List Char} {n : Int64} :
    integer? digits = some n ↔ n.toInt = Binary64.ofDigits digits := by
  rw [integer?]
  constructor
  · intro found
    split at found
    · next small =>
      cases found
      exact Int64.toInt_ofNat_of_lt small
    · cases found
  · intro exact
    have small : Binary64.ofDigits digits < 1 <<< 63 := by
      have := n.toInt_lt
      omega
    rw [if_pos small, Option.some.injEq, ← Int64.toInt_inj, exact]
    exact Int64.toInt_ofNat_of_lt small

theorem isSeparator_iff {kind : Token.Kind} :
    kind.isSeparator = true ↔ kind = .dot ∨ kind = .comma := by
  rw [Token.Kind.isSeparator, Bool.or_eq_true, beq_iff_eq, beq_iff_eq]

/-! ## Operands -/

theorem sound_number {digits : Token} {c c' : Cursor} {t : Term}
    (start : Terminal .digits a digits c.ahead) (read : number digits c = .ok (t, c')) :
    Derives .primary a t c'.ahead := by
  rw [number] at read
  split at read
  · cases read
  · next value found =>
    have exact := integer?_eq_some_iff.mp found
    cases current : c.current? with
    | none =>
      simp only [current, Option.any_none, Bool.false_eq_true, if_false] at read
      cases read
      exact .integer start exact
    | some separator =>
      simp only [current, Option.any_some] at read
      split at read
      · next separates =>
        -- The separator and the digits behind it follow directly, without blanks.
        rw [ahead_advance current] at start
        split at read
        · cases read
        · next places found =>
          obtain ⟨next, isDigits⟩ := Option.filter_eq_some_iff.mp found
          cases read
          rw [ahead_advance next] at start
          refine .fraction start ?_ (isSeparator_iff.mp separates) (eq_of_beq isDigits)
          rw [← exact]
          exact value.toInt_le
      · cases read
        exact .integer start exact

section Inner
variable {inner : Reader Term} (onInner : Sound inner .sum)
include onInner

theorem sound_enclosed {opening : Token} {c c' : Cursor} {t : Term}
    (opens : Terminal .openParen a opening c.ahead)
    (read : enclosed inner opening c = .ok (t, c')) : Derives .primary a t c'.ahead := by
  obtain ⟨⟨t', c₁⟩, readInner, rest⟩ := bind_eq_ok.mp read
  obtain ⟨b, derives, behind⟩ := onInner c t' c₁ readInner
  simp only at rest
  split at rest
  · cases rest
  · next closing c₂ eaten =>
    cases rest
    exact .enclosed opens derives ((terminal_of_eat eaten).padded behind)

theorem sound_call {f : Elementary} {word : Token} {c c' : Cursor} {t : Term}
    (name : Terminal .name a word c.ahead) (function : Elementary.ofName? word.text = some f)
    (read : call inner f word c = .ok (t, c')) : Derives .primary a t c'.ahead := by
  rw [call] at read
  split at read
  · cases read
  · next opening c₁ opened =>
    obtain ⟨⟨argument, c₂⟩, readInner, rest⟩ := bind_eq_ok.mp read
    obtain ⟨b, derives, behind⟩ := onInner c₁ argument c₂ readInner
    simp only at rest
    split at rest
    · cases rest
    · next closing c₃ closed =>
      cases rest
      exact .call name function (terminal_of_eat opened) derives
        ((terminal_of_eat closed).padded behind)

theorem sound_primary {c c' : Cursor} {t : Term} (read : primary inner c = .ok (t, c')) :
    Derives .primary c.ahead t c'.ahead := by
  rw [primary] at read
  split at read
  · next token rest passed =>
    have terminal := terminal_of_next passed
    split at read
    · next kind =>
      rw [kind] at terminal
      exact sound_enclosed onInner terminal read
    · next kind =>
      rw [kind] at terminal
      exact sound_number terminal read
    · next kind =>
      rw [kind] at terminal
      split at read
      · next f function => exact sound_call onInner terminal function read
      · next other =>
        cases read
        exact .name terminal other
    · cases read
  · cases read

/-! ## Operators -/

theorem sound_power : Sound (power inner) .power := by
  intro c t c' read
  obtain ⟨⟨base, c₁⟩, readBase, rest⟩ := bind_eq_ok.mp read
  have onBase := sound_primary onInner readBase
  simp only at rest
  split at rest
  · next eaten =>
    cases rest
    exact ⟨_, .base onBase, blanks_of_eat eaten⟩
  · next mark c₂ eaten =>
    obtain ⟨⟨exponent, c₃⟩, readExponent, rest⟩ := bind_eq_ok.mp rest
    cases rest
    exact ⟨_, .power onBase (terminal_of_eat eaten) (sound_primary onInner readExponent), .refl _⟩

end Inner

theorem Rank.operator?_terms : Rank.terms.operator? = additive? := by
  funext kind
  cases kind <;> rfl

theorem Rank.operator?_factors : Rank.factors.operator? = multiplicative? := by
  funext kind
  cases kind <;> rfl

theorem terminal_of_operator {operator? : Token.Kind → Option BinaryOp} {c c' : Cursor}
    {op : BinaryOp} (found : operator operator? c = (some op, c')) :
    ∃ mark, operator? mark.kind = some op ∧ Terminal mark.kind c.ahead mark c'.ahead := by
  rw [operator] at found
  split at found
  · next mark rest passed =>
    split at found
    · next known =>
      cases found
      exact ⟨mark, known, terminal_of_next passed⟩
    · cases found
  · cases found

theorem eq_of_operator {operator? : Token.Kind → Option BinaryOp} {c c' : Cursor}
    (found : operator operator? c = (none, c')) : c' = c := by
  rw [operator] at found
  split at found
  · split at found
    · cases found
    · cases found
      rfl
  · cases found
    rfl

theorem sound_chain (rank : Rank) {operand : Reader Term} (onOperand : Sound operand rank.operand)
    (n : Nat) (left : Term) : Sound (chain rank.operator? operand n left) (.rest rank left) := by
  induction n generalizing left with
  | zero =>
    intro c t c' read
    cases read
    exact ⟨_, .stop, .refl _⟩
  | succ n ih =>
    intro c t c' read
    rw [chain] at read
    split at read
    · next c₁ found =>
      -- Without an operator the cursor stays, in front of the blanks.
      cases eq_of_operator found
      cases read
      exact ⟨_, .stop, .refl _⟩
    · next op c₁ found =>
      obtain ⟨mark, known, terminal⟩ := terminal_of_operator found
      obtain ⟨⟨right, c₂⟩, readOperand, rest⟩ := bind_eq_ok.mp read
      obtain ⟨b, operand, between⟩ := onOperand c₁ right c₂ readOperand
      obtain ⟨d, others, behind⟩ := (ih (join op left right)).after between rest
      exact ⟨d, .more known terminal operand others, behind⟩

section Inner
variable {inner : Reader Term} (onInner : Sound inner .sum)
include onInner

theorem sound_product : Sound (product inner) .product := by
  intro c t c' read
  obtain ⟨⟨first, c₁⟩, readFirst, rest⟩ := bind_eq_ok.mp read
  obtain ⟨b, start, between⟩ := sound_power onInner c first c₁ readFirst
  have onChain := sound_chain .factors (sound_power onInner) c₁.ahead.length first
  rw [Rank.operator?_factors] at onChain
  obtain ⟨d, more, behind⟩ := onChain.after between rest
  exact ⟨d, .product start more, behind⟩

theorem sound_signed : Sound (signed (product inner)) .signed := by
  intro c t c' read
  rw [signed] at read
  split at read
  · next sign c₁ eaten =>
    obtain ⟨⟨first, c₂⟩, readFirst, rest⟩ := bind_eq_ok.mp read
    obtain ⟨b, derives, behind⟩ := sound_product onInner c₁ first c₂ readFirst
    cases rest
    exact ⟨b, .minus (terminal_of_eat eaten) derives, behind⟩
  · next c₁ noMinus =>
    have blanks := blanks_of_eat noMinus
    cases eaten : c₁.eat .plus with
    | mk found c₂ =>
      rw [eaten] at read
      cases found with
      | some sign =>
        obtain ⟨b, derives, behind⟩ := sound_product onInner c₂ t c' read
        exact ⟨b, .plus ((terminal_of_eat eaten).padded blanks) derives, behind⟩
      | none =>
        obtain ⟨b, derives, behind⟩ :=
          (sound_product onInner).after (blanks.trans (blanks_of_eat eaten)) read
        exact ⟨b, .unsigned derives, behind⟩

theorem sound_sum : Sound (sum inner) .sum := by
  intro c t c' read
  obtain ⟨⟨first, c₁⟩, readFirst, rest⟩ := bind_eq_ok.mp read
  obtain ⟨b, start, between⟩ := sound_signed onInner c first c₁ readFirst
  have onChain := sound_chain .terms (sound_product onInner) c₁.ahead.length first
  rw [Rank.operator?_terms] at onChain
  obtain ⟨d, more, behind⟩ := onChain.after between rest
  exact ⟨d, .sum start more, behind⟩

end Inner

/-- Whatever the bound on the depth of parentheses is, what is read is a sum. -/
theorem sound_expression (depth : Nat) : Sound (expression depth) .sum := by
  induction depth with
  | zero =>
    intro c t c' read
    cases read
  | succ depth ih => exact sound_sum ih

/-! ## Definitions -/

theorem sound_header {c c' : Cursor} {name variableName : String}
    (read : header c = .ok ((name, variableName), c')) :
    Header c.ahead name variableName c'.ahead := by
  rw [header] at read
  split at read
  · next named c₁ eaten₁ =>
    split at read
    · next opening c₂ eaten₂ =>
      split at read
      · next bound c₃ eaten₃ =>
        split at read
        · next closing c₄ eaten₄ =>
          split at read
          · next equals c₅ eaten₅ =>
            cases read
            exact .mk (terminal_of_eat eaten₁) (terminal_of_eat eaten₂) (terminal_of_eat eaten₃)
              (terminal_of_eat eaten₄) (terminal_of_eat eaten₅)
          · cases read
        · cases read
      · cases read
    · cases read
  · cases read

theorem blanks_of_finish {c : Cursor} (finished : finish c = .ok ()) : Blanks c.ahead [] := by
  rw [finish] at finished
  split at finished
  · next ends =>
    have blanks := blanks_skipBlanks c
    rwa [List.isEmpty_iff.mp ends] at blanks
  · cases finished

/-- A definition that is read has a header and a sum, and nothing else. -/
theorem sound_read {c : Cursor} {d : Definition} (read : read c = .ok d) :
    ∃ body trailing, Header c.ahead d.name d.variableName body ∧
      Derives .sum body d.body trailing ∧ Blanks trailing [] := by
  obtain ⟨⟨⟨name, variableName⟩, c₁⟩, readHeader, rest⟩ := bind_eq_ok.mp read
  obtain ⟨⟨body, c₂⟩, readBody, rest⟩ := bind_eq_ok.mp rest
  obtain ⟨_, finished, rest⟩ := bind_eq_ok.mp rest
  cases rest
  obtain ⟨b, derives, behind⟩ := sound_expression c₁.ahead.length c₁ body c₂ readBody
  exact ⟨c₁.ahead, b, sound_header readHeader, derives, behind.trans (blanks_of_finish finished)⟩

end Grammar
end Fluxion
