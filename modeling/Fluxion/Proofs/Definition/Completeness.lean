import Fluxion.Proofs.Definition.Soundness
/- What the grammar derives is read. A reader looks one token ahead, so a part is read to its end
   only if the token behind it does not go on with it (`Ends`); inside a definition that is never
   so, because operators and parentheses part the operands (`ends_of_terminal`,
   `Derives.ends_operand`). Readers see a place only up to blanks, so places are compared without
   the blanks in front (`trim`).

   Each reader is complete for its part (`Complete`) up to a number of tokens, and so is the next
   one built from it, from numbers and names (`complete_primary`) up to sums
   (`complete_expression`). Parts take up at least one token (`Part.least`), so neither the bound on
   operators nor the one on parentheses is ever reached. A header and a sum with nothing but blanks
   behind them are then read as a definition (`complete_read`). -/
namespace Fluxion
namespace Grammar

open Definition

variable {a b c : List Token} {kind : Token.Kind} {token : Token}

/-! ## The next token -/

/-- What is left behind blanks. -/
def trim (tokens : List Token) : List Token := tokens.dropWhile (·.isBlank)

theorem trim_of_blanks (blanks : Blanks a b) : trim a = trim b := by
  obtain ⟨between, blank, rfl⟩ := blanks
  exact List.dropWhile_append_of_pos blank

theorem trim_cons (there : token.kind ≠ .blank) (rest : List Token) :
    trim (token :: rest) = token :: rest := by
  have noBlank : ¬token.isBlank = true := fun blank => there (eq_of_beq blank)
  rw [trim, List.dropWhile_cons, if_neg noBlank]

theorem trim_of_terminal (terminal : Terminal kind a token b) (there : kind ≠ .blank) :
    trim a = token :: b := by
  obtain ⟨rfl, blanks⟩ := terminal
  rw [trim_of_blanks blanks, trim_cons there]

theorem length_trim_le (tokens : List Token) : (trim tokens).length ≤ tokens.length :=
  (List.dropWhile_suffix _).length_le

theorem ahead_skipBlanks (c : Cursor) : c.skipBlanks.ahead = trim c.ahead := by
  have skips : ∀ ahead passed, (Cursor.skipFrom passed ahead).2 = trim ahead := by
    intro ahead
    induction ahead with
    | nil => intro passed; rfl
    | cons t rest ih =>
      intro passed
      rw [Cursor.skipFrom, trim, List.dropWhile_cons]
      split
      · exact ih (t :: passed)
      · rfl
  exact skips c.ahead c.passed

theorem current?_skipBlanks {c : Cursor} {rest : List Token} (next : trim c.ahead = token :: rest) :
    c.skipBlanks.current? = some token ∧ c.skipBlanks.advance.ahead = rest := by
  rw [← ahead_skipBlanks] at next
  have current : c.skipBlanks.current? = some token := by
    rw [Cursor.current?, next, List.head?_cons]
  refine ⟨current, ?_⟩
  have same := ahead_advance current
  rw [next] at same
  exact (List.cons.inj same).2.symm

/-- A token that the grammar has in a place is the next one of a cursor there. -/
theorem next_of_terminal {c : Cursor} (terminal : Terminal kind a token b) (there : kind ≠ .blank)
    (here : trim c.ahead = trim a) : ∃ c', c.next = (some token, c') ∧ c'.ahead = b := by
  rw [trim_of_terminal terminal there] at here
  obtain ⟨current, advanced⟩ := current?_skipBlanks here
  exact ⟨_, by rw [Cursor.next, current], advanced⟩

theorem eat_of_terminal {c : Cursor} (terminal : Terminal kind a token b) (there : kind ≠ .blank)
    (here : trim c.ahead = trim a) : ∃ c', c.eat kind = (some token, c') ∧ c'.ahead = b := by
  rw [trim_of_terminal terminal there] at here
  obtain ⟨current, advanced⟩ := current?_skipBlanks here
  exact ⟨_, by simp only [Cursor.eat, current, if_pos terminal.1], advanced⟩

/-- A token of any other kind is left where it is. -/
theorem eat_of_other {c : Cursor} (here : trim c.ahead = trim a)
    (other : ∀ t rest, trim a = t :: rest → t.kind ≠ kind) :
    ∃ c', c.eat kind = (none, c') ∧ trim c'.ahead = trim a := by
  have same := trim_of_blanks (blanks_skipBlanks c)
  refine ⟨c.skipBlanks, ?_, same.symm.trans here⟩
  rw [← here] at other
  cases current : c.skipBlanks.current? with
  | none => simp only [Cursor.eat, current]
  | some t =>
    have next := ahead_advance current
    rw [ahead_skipBlanks] at next
    simp only [Cursor.eat, current, if_neg (other t _ next)]

/-! ## Where parts begin and end -/

/-- The fewest tokens that a part can have. -/
def Part.least : Part → Nat
  | .rest .. => 0
  | _ => 1

theorem Rank.least_operand (rank : Rank) : rank.operand.least = 1 := by
  cases rank <;> rfl

theorem Terminal.length_lt (terminal : Terminal kind a token b) : b.length < a.length := by
  obtain ⟨-, blanks, -, rfl⟩ := terminal
  simp only [List.length_append, List.length_cons]
  omega

theorem Derives.length_le {p : Part} {t : Term} (derives : Derives p a t b) :
    b.length + p.least ≤ a.length := by
  induction derives with
  | sum _ _ ihStart ihMore | product _ _ ihStart ihMore =>
    simp only [Part.least] at ihStart ihMore ⊢
    omega
  | unsigned _ ih | base _ ih => exact ih
  | plus mark _ ih | minus mark _ ih =>
    have := mark.length_lt
    simp only [Part.least] at ih ⊢
    omega
  | stop => exact Nat.le_refl _
  | @more _ _ _ _ rank _ _ _ _ _ _ next _ _ ihOperand ihOthers =>
    have := next.length_lt
    rw [rank.least_operand] at ihOperand
    simp only [Part.least] at ihOthers ⊢
    omega
  | power _ caret _ ihBase ihExponent =>
    have := caret.length_lt
    simp only [Part.least] at ihBase ihExponent ⊢
    omega
  | enclosed opens _ closes ih =>
    have := opens.length_lt
    have := closes.length_lt
    simp only [Part.least] at ih ⊢
    omega
  | integer number => exact number.length_lt
  | fraction number =>
    have := number.length_lt
    simp only [Part.least, List.length_cons] at this ⊢
    omega
  | call name _ opens _ closes ih =>
    have := name.length_lt
    have := opens.length_lt
    have := closes.length_lt
    simp only [Part.least] at ih ⊢
    omega
  | name name => exact name.length_lt

/-- Where an operand begins. -/
def Begins (a : List Token) : Prop :=
  ∃ t rest, trim a = t :: rest ∧ (t.kind = .openParen ∨ t.kind = .digits ∨ t.kind = .name)

theorem Derives.begins_primary {t : Term} (derives : Derives .primary a t b) : Begins a := by
  cases derives with
  | enclosed opens => exact ⟨_, _, trim_of_terminal opens (by decide), .inl opens.1⟩
  | integer number => exact ⟨_, _, trim_of_terminal number (by decide), .inr (.inl number.1)⟩
  | fraction number => exact ⟨_, _, trim_of_terminal number (by decide), .inr (.inl number.1)⟩
  | call name => exact ⟨_, _, trim_of_terminal name (by decide), .inr (.inr name.1)⟩
  | name name => exact ⟨_, _, trim_of_terminal name (by decide), .inr (.inr name.1)⟩

theorem Derives.begins_product {t : Term} (derives : Derives .product a t b) : Begins a := by
  cases derives with
  | product start =>
    cases start with
    | base primary => exact primary.begins_primary
    | power onBase => exact onBase.begins_primary

/-- What does not begin operands is not eaten in front of them. -/
theorem Begins.eat_eq_none {c : Cursor} (begins : Begins a) (kind : Token.Kind) (here : trim c.ahead = trim a)
    (other : kind ≠ .openParen ∧ kind ≠ .digits ∧ kind ≠ .name) :
    ∃ c', c.eat kind = (none, c') ∧ trim c'.ahead = trim a := by
  apply eat_of_other here
  intro t rest next same
  obtain ⟨first, rest', first_eq, kinds⟩ := begins
  rw [first_eq] at next
  obtain ⟨rfl, -⟩ := List.cons.inj next
  rw [same] at kinds
  obtain opening | digits | name := kinds
  · exact other.1 opening
  · exact other.2.1 digits
  · exact other.2.2 name

/-- The tokens that go on with a part that could have ended. -/
def Part.goesOn : Part → List Token.Kind
  | .primary => [.dot, .comma]
  | .power => [.dot, .comma, .caret]
  | .product | .signed | .rest .factors _ => [.dot, .comma, .caret, .star, .slash]
  | .sum | .rest .terms _ => [.dot, .comma, .caret, .star, .slash, .plus, .minus]

/-- The next token does not go on with the part. -/
def Ends (p : Part) (b : List Token) : Prop := ∀ t rest, trim b = t :: rest → t.kind ∉ p.goesOn

theorem Ends.of_subset {p q : Part} (ends : Ends p b) (subset : q.goesOn ⊆ p.goesOn) : Ends q b :=
  fun t rest next mem => ends t rest next (subset mem)

theorem ends_of_terminal {p : Part} (terminal : Terminal kind b token c) (there : kind ≠ .blank)
    (other : kind ∉ p.goesOn) : Ends p b := by
  intro t rest next
  rw [trim_of_terminal terminal there] at next
  obtain ⟨rfl, -⟩ := List.cons.inj next
  rwa [terminal.1]

/-- At the end of a source every part has ended. -/
theorem ends_of_blanks (p : Part) (blanks : Blanks b []) : Ends p b := by
  intro t rest next
  rw [trim_of_blanks blanks] at next
  cases next

/-- An operator of a chain goes on with no operand of the chain. -/
theorem Rank.notMem_goesOn {rank : Rank} {op : BinaryOp}
    (operator : rank.operator? kind = some op) : kind ∉ rank.operand.goesOn := by
  cases rank <;> cases kind <;> cases operator <;> decide

theorem Rank.ne_blank_of_operator? {rank : Rank} {op : BinaryOp}
    (operator : rank.operator? kind = some op) : kind ≠ .blank := by
  rintro rfl
  cases rank <;> cases operator

theorem Rank.operand_subset (rank : Rank) (left : Term) :
    rank.operand.goesOn ⊆ (Part.rest rank left).goesOn := by
  cases rank
  · show Part.goesOn .product ⊆ Part.goesOn .sum
    decide
  · show Part.goesOn .power ⊆ Part.goesOn .product
    decide

theorem Rank.mem_goesOn {rank : Rank} {left : Term} {op : BinaryOp}
    (operator : rank.operator? kind = some op) : kind ∈ (Part.rest rank left).goesOn := by
  cases rank
  · show kind ∈ Part.goesOn .sum
    cases kind <;> cases operator <;> decide
  · show kind ∈ Part.goesOn .product
    cases kind <;> cases operator <;> decide

/-- In front of the rest of a chain an operand has ended. -/
theorem Derives.ends_operand {rank : Rank} {left t : Term}
    (derives : Derives (.rest rank left) a t b) (ends : Ends (.rest rank left) b) :
    Ends rank.operand a := by
  cases derives with
  | stop => exact ends.of_subset (rank.operand_subset left)
  | more operator next =>
    exact ends_of_terminal next (Rank.ne_blank_of_operator? operator) (Rank.notMem_goesOn operator)

/-! ## Operands -/

/-- At `a` the reader reads the term and stops at `b`, up to blanks. -/
def Accepts (reader : Reader Term) (a : List Token) (t : Term) (b : List Token) : Prop :=
  ∀ c : Cursor, trim c.ahead = trim a → ∃ c', reader c = .ok (t, c') ∧ trim c'.ahead = trim b

/-- The reader accepts every part of the given kind that has ended, up to a length. -/
def Complete (reader : Reader Term) (p : Part) (bound : Nat) : Prop :=
  ∀ a t b, Derives p a t b → a.length ≤ bound → Ends p b → Accepts reader a t b

theorem exists_integer? {digits : List Char}
    (bounded : (Binary64.ofDigits digits : Int) ≤ Int64.maxValue.toInt) :
    ∃ n, integer? digits = some n := by
  have top : Int64.maxValue.toInt = 9223372036854775807 := rfl
  have small : Binary64.ofDigits digits < 1 <<< 63 := by omega
  exact ⟨_, if_pos small⟩

theorem number_of_integer {digits : Token} {value : Int64} {c : Cursor}
    (exact : value.toInt = Binary64.ofDigits digits.text.toList) (ends : Ends .primary c.ahead) :
    number digits c = .ok (.integer value digits.span, c) := by
  rw [number, integer?_eq_some_iff.mpr exact]
  -- A separator right behind the digits would go on with the number.
  have noSeparator : ¬c.current?.any (·.kind.isSeparator) = true := by
    intro separated
    cases current : c.current? with
    | none => simp [current] at separated
    | some t =>
      rw [current, Option.any_some] at separated
      have separates := isSeparator_iff.mp separated
      have there : t.kind ≠ .blank := by
        obtain dot | comma := separates
        · simp [dot]
        · simp [comma]
      have next : trim c.ahead = t :: c.advance.ahead := by
        rw [ahead_advance current, trim_cons there]
      exact ends t _ next (by simpa [Part.goesOn] using separates)
  simp only [if_neg noSeparator]

theorem number_of_fraction {digits separator places : Token} {c : Cursor}
    (bounded : (Binary64.ofDigits digits.text.toList : Int) ≤ Int64.maxValue.toInt)
    (separates : separator.kind = .dot ∨ separator.kind = .comma) (fractional : places.kind = .digits)
    (ahead : c.ahead = separator :: places :: b) :
    ∃ c', number digits c = .ok (.fraction (.ofPlaces digits.text.toList places.text.toList)
      ⟨digits.span.start, places.span.stop⟩, c') ∧ c'.ahead = b := by
  obtain ⟨value, found⟩ := exists_integer? bounded
  obtain ⟨passed, ahead', stop⟩ := c
  cases ahead
  refine ⟨⟨places :: separator :: passed, b, stop⟩, ?_, rfl⟩
  simp only [number, found, Cursor.current?, List.head?_cons, Option.any_some,
    isSeparator_iff.mpr separates, if_pos, Cursor.advance, Cursor.ahead?, Option.filter_some,
    fractional, beq_self_eq_true]
  rfl

section Inner
variable {inner : Reader Term} {bound : Nat} (onInner : Complete inner .sum bound)
include onInner

/-- The parenthesis that closes a sum comes right behind it. -/
theorem accepts_closed {c : Cursor} {closing : Token} {a b d : List Token} {t : Term}
    (here : trim c.ahead = trim a) (sum : Derives .sum a t b) (short : a.length ≤ bound)
    (closes : Terminal .closeParen b closing d) :
    ∃ c₁ c₂, inner c = .ok (t, c₁) ∧ c₁.eat .closeParen = (some closing, c₂) ∧ c₂.ahead = d := by
  have ends : Ends .sum b := ends_of_terminal closes (by decide) (by decide)
  obtain ⟨c₁, read, behind⟩ := onInner a t b sum short ends c here
  obtain ⟨c₂, eaten, ahead⟩ := eat_of_terminal closes (by decide) behind
  exact ⟨c₁, c₂, read, eaten, ahead⟩

theorem complete_primary : Complete (primary inner) .primary (bound + 1) := by
  intro a t b derives short ends c here
  cases derives with
  | @enclosed _ a' b' _ opening closing _ opens sum closes =>
    have shorter := opens.length_lt
    obtain ⟨c₁, next, ahead⟩ := next_of_terminal opens (by decide) here
    obtain ⟨c₂, c₃, read, eaten, behind⟩ :=
      accepts_closed onInner (congrArg trim ahead) sum (by omega) closes
    refine ⟨c₃, ?_, congrArg trim behind⟩
    simp only [primary, next, opens.1, enclosed, read, bind, Except.bind, eaten]
  | integer number exact =>
    obtain ⟨c₁, next, ahead⟩ := next_of_terminal number (by decide) here
    rw [← ahead] at ends
    refine ⟨c₁, ?_, congrArg trim ahead⟩
    simp only [primary, next, number.1, number_of_integer exact ends]
  | fraction number bounded separates fractional =>
    obtain ⟨c₁, next, ahead⟩ := next_of_terminal number (by decide) here
    obtain ⟨c₂, read, behind⟩ := number_of_fraction bounded separates fractional ahead
    refine ⟨c₂, ?_, congrArg trim behind⟩
    simp only [primary, next, number.1, read]
  | call name function opens sum closes =>
    have shorter := name.length_lt
    have shorter' := opens.length_lt
    obtain ⟨c₁, next, ahead⟩ := next_of_terminal name (by decide) here
    obtain ⟨c₂, opened, ahead'⟩ := eat_of_terminal opens (by decide) (congrArg trim ahead)
    obtain ⟨c₃, c₄, read, eaten, behind⟩ :=
      accepts_closed onInner (congrArg trim ahead') sum (by omega) closes
    refine ⟨c₄, ?_, congrArg trim behind⟩
    simp only [primary, next, name.1, function, call, opened, read, bind, Except.bind, eaten]
    rfl
  | name name other =>
    obtain ⟨c₁, next, ahead⟩ := next_of_terminal name (by decide) here
    refine ⟨c₁, ?_, congrArg trim ahead⟩
    simp only [primary, next, name.1, other]

/-! ## Operators -/

theorem complete_power : Complete (power inner) .power (bound + 1) := by
  intro a t b derives short ends c here
  cases derives with
  | base primary =>
    have ended : Ends .primary b := ends.of_subset (by decide)
    obtain ⟨c₁, read, behind⟩ := complete_primary onInner a t b primary short ended c here
    obtain ⟨c₂, eaten, behind'⟩ : ∃ c₂, c₁.eat .caret = (none, c₂) ∧ trim c₂.ahead = trim b := by
      apply eat_of_other behind
      intro t rest next caret
      exact ends t rest next (by rw [caret]; decide)
    refine ⟨c₂, ?_, behind'⟩
    simp only [power, read, bind, Except.bind, eaten]
  | power onBase caret onExponent =>
    have onward := onBase.length_le
    have shorter := caret.length_lt
    obtain ⟨c₁, readBase, behind⟩ := complete_primary onInner _ _ _ onBase short
      (ends_of_terminal caret (by decide) (by decide)) c here
    obtain ⟨c₂, eaten, ahead⟩ := eat_of_terminal caret (by decide) behind
    obtain ⟨c₃, readExponent, behind'⟩ := complete_primary onInner _ _ _ onExponent (by omega)
      (ends.of_subset (by decide)) c₂ (congrArg trim ahead)
    refine ⟨c₃, ?_, behind'⟩
    simp only [power, readBase, bind, Except.bind, eaten, readExponent]
    rfl

end Inner

theorem operator_of_terminal {rank : Rank} {op : BinaryOp} {c : Cursor}
    (known : rank.operator? token.kind = some op) (terminal : Terminal token.kind a token b)
    (here : trim c.ahead = trim a) : ∃ c', operator rank.operator? c = (some op, c') ∧ c'.ahead = b := by
  have there := Rank.ne_blank_of_operator? known
  obtain ⟨c', passed, ahead⟩ := next_of_terminal terminal there here
  refine ⟨c', ?_, ahead⟩
  simp only [operator, passed, known]

theorem operator_of_ends {rank : Rank} {left : Term} {c : Cursor}
    (ends : Ends (.rest rank left) c.ahead) : operator rank.operator? c = (none, c) := by
  rw [operator]
  split
  · next mark rest passed =>
    split
    · next op known =>
      have terminal := terminal_of_next passed
      have next := trim_of_terminal terminal (Rank.ne_blank_of_operator? known)
      exact absurd (Rank.mem_goesOn known) (ends mark _ next)
    · rfl
  · rfl

theorem Rank.ends_rest {rank : Rank} {left : Term} (ends : Ends (.rest rank left) b) (left' : Term) :
    Ends (.rest rank left') b := by
  cases rank <;> exact ends

/-- As long as the bound allows for one operator a token, the rest of a chain is read. -/
theorem accepts_chain {rank : Rank} {operand : Reader Term} {bound : Nat}
    (onOperand : Complete operand rank.operand bound) {n : Nat} {left t : Term}
    (derives : Derives (.rest rank left) a t b) (short : a.length ≤ bound)
    (enough : (trim a).length ≤ n) (ends : Ends (.rest rank left) b) :
    Accepts (chain rank.operator? operand n left) a t b := by
  induction n generalizing a left with
  | zero =>
    intro c here
    cases derives with
    | stop => exact ⟨c, rfl, here⟩
    | more known next =>
      -- There is no token left that could be an operator.
      rw [trim_of_terminal next (Rank.ne_blank_of_operator? known)] at enough
      simp at enough
  | succ n ih =>
    intro c here
    cases derives with
    | stop =>
      have ended : Ends (.rest rank t) c.ahead := by
        intro token rest next
        rw [here] at next
        exact ends token rest next
      refine ⟨c, ?_, here⟩
      simp only [chain, operator_of_ends ended]
    | @more _ c₁ d _ _ mark op _ right _ known next operand others =>
      have shorter := next.length_lt
      have onward := operand.length_le
      rw [trim_of_terminal next (Rank.ne_blank_of_operator? known), List.length_cons] at enough
      obtain ⟨c₁, found, ahead⟩ := operator_of_terminal known next here
      have ended := others.ends_operand (Rank.ends_rest ends _)
      obtain ⟨c₂, readOperand, behind⟩ :=
        onOperand _ _ _ operand (by omega) ended c₁ (congrArg trim ahead)
      have remaining := length_trim_le d
      obtain ⟨c₃, readOthers, behind'⟩ :=
        ih others (by omega) (by omega) (Rank.ends_rest ends _) c₂ behind
      refine ⟨c₃, ?_, behind'⟩
      simp only [chain, found, readOperand, bind, Except.bind]
      exact readOthers

section Inner
variable {inner : Reader Term} {bound : Nat} (onInner : Complete inner .sum bound)
include onInner

theorem complete_product : Complete (product inner) .product (bound + 1) := by
  intro a t b derives short ends c here
  cases derives with
  | @product _ d _ first _ start more =>
    have onward := start.length_le
    have ended : Ends .power d := more.ends_operand ends
    obtain ⟨c₁, readFirst, behind⟩ := complete_power onInner a first d start short ended c here
    -- The bound of the chain counts the tokens ahead, and each operator is one of them.
    have onChain := accepts_chain (complete_power onInner) more (by omega)
      (show (trim d).length ≤ c₁.ahead.length by rw [← behind]; exact length_trim_le _) ends
    rw [Rank.operator?_factors] at onChain
    obtain ⟨c₂, readMore, behind'⟩ := onChain c₁ behind
    refine ⟨c₂, ?_, behind'⟩
    simp only [product, readFirst, bind, Except.bind]
    exact readMore

theorem complete_signed : Complete (signed (product inner)) .signed (bound + 1) := by
  intro a t b derives short ends c here
  cases derives with
  | unsigned product =>
    -- No operand begins with a sign, so neither sign is eaten.
    have begins := product.begins_product
    obtain ⟨c₁, noMinus, here₁⟩ := begins.eat_eq_none .minus here (by decide)
    obtain ⟨c₂, noPlus, here₂⟩ := begins.eat_eq_none .plus here₁ (by decide)
    obtain ⟨c₃, read, behind⟩ := complete_product onInner a t b product short ends c₂ here₂
    refine ⟨c₃, ?_, behind⟩
    simp only [signed, noMinus, noPlus]
    exact read
  | plus mark product =>
    have shorter := mark.length_lt
    obtain ⟨c₁, noMinus, here₁⟩ : ∃ c₁, c.eat .minus = (none, c₁) ∧ trim c₁.ahead = trim a := by
      apply eat_of_other here
      intro token rest next
      rw [trim_of_terminal mark (by decide)] at next
      obtain ⟨rfl, -⟩ := List.cons.inj next
      simp [mark.1]
    obtain ⟨c₂, eaten, ahead⟩ := eat_of_terminal mark (by decide) here₁
    obtain ⟨c₃, read, behind⟩ := complete_product onInner _ t b product (by omega) ends c₂
      (congrArg trim ahead)
    refine ⟨c₃, ?_, behind⟩
    simp only [signed, noMinus, eaten]
    exact read
  | minus mark product =>
    have shorter := mark.length_lt
    obtain ⟨c₁, eaten, ahead⟩ := eat_of_terminal mark (by decide) here
    obtain ⟨c₂, read, behind⟩ := complete_product onInner _ _ b product (by omega) ends c₁
      (congrArg trim ahead)
    refine ⟨c₂, ?_, behind⟩
    simp only [signed, eaten, read, bind, Except.bind]
    rfl

theorem complete_sum : Complete (sum inner) .sum (bound + 1) := by
  intro a t b derives short ends c here
  cases derives with
  | @sum _ d _ first _ start more =>
    have onward := start.length_le
    have ended : Ends .signed d := more.ends_operand ends
    obtain ⟨c₁, readFirst, behind⟩ := complete_signed onInner a first d start short ended c here
    have onChain := accepts_chain (complete_product onInner) more (by omega)
      (show (trim d).length ≤ c₁.ahead.length by rw [← behind]; exact length_trim_le _) ends
    rw [Rank.operator?_terms] at onChain
    obtain ⟨c₂, readMore, behind'⟩ := onChain c₁ behind
    refine ⟨c₂, ?_, behind'⟩
    simp only [Definition.sum, readFirst, bind, Except.bind]
    exact readMore

end Inner

/-- Sums are read if parentheses may be nested as deeply as there are tokens. -/
theorem complete_expression (depth : Nat) : Complete (expression depth) .sum depth := by
  induction depth with
  | zero =>
    -- A sum has a token at least.
    intro a t b derives short
    have := derives.length_le
    simp only [Part.least] at this
    omega
  | succ depth ih => exact complete_sum ih

/-! ## Definitions -/

theorem complete_header {c : Cursor} {name variableName : String}
    (derives : Header c.ahead name variableName b) :
    ∃ c', header c = .ok ((name, variableName), c') ∧ c'.ahead = b := by
  obtain ⟨named, opens, binds, closes, defines⟩ := derives
  obtain ⟨c₁, eaten₁, ahead₁⟩ := eat_of_terminal named (by decide) rfl
  obtain ⟨c₂, eaten₂, ahead₂⟩ := eat_of_terminal opens (by decide) (congrArg trim ahead₁)
  obtain ⟨c₃, eaten₃, ahead₃⟩ := eat_of_terminal binds (by decide) (congrArg trim ahead₂)
  obtain ⟨c₄, eaten₄, ahead₄⟩ := eat_of_terminal closes (by decide) (congrArg trim ahead₃)
  obtain ⟨c₅, eaten₅, ahead₅⟩ := eat_of_terminal defines (by decide) (congrArg trim ahead₄)
  refine ⟨c₅, ?_, ahead₅⟩
  simp only [header, eaten₁, eaten₂, eaten₃, eaten₄, eaten₅]

theorem finish_of_trim {c : Cursor} (ends : trim c.ahead = []) : finish c = .ok () := by
  rw [finish, ahead_skipBlanks, ends]
  rfl

/-- A header and a sum with nothing behind them are read as a definition. -/
theorem complete_read {c : Cursor} {name variableName : String} {body trailing : List Token}
    {t : Term} (header : Header c.ahead name variableName body)
    (sum : Derives .sum body t trailing) (ends : Blanks trailing []) :
    read c = .ok ⟨name, variableName, t⟩ := by
  obtain ⟨c₁, readHeader, rfl⟩ := complete_header header
  obtain ⟨c₂, readBody, behind⟩ := complete_expression c₁.ahead.length c₁.ahead t trailing sum
    (Nat.le_refl _) (ends_of_blanks .sum ends) c₁ rfl
  have finished := finish_of_trim (behind.trans (trim_of_blanks ends))
  simp only [Definition.read, readHeader, readBody, finished, bind, Except.bind]

end Grammar
end Fluxion
