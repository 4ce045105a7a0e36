import Fluxion.Proofs.Definition.Parsing
import Fluxion.Proofs.Notation.Reading
/- What cannot be read. Nothing in the grammar has an operator right in front of a minus, or in
   front of an integer that is too large: such a pair of tokens (`Clash`) is in no part of a
   definition, so it is still there behind every part (`Derives.clash`), and a source that has it
   among its tokens is refused (`not_clash_of_parse`).

   A mark is a token wherever it stands, so the pair is among the tokens of every text in which its
   characters follow each other (`HasClash.exists_clash`), whatever the text is otherwise. A printed
   body has them where a sign is not readable (`hasClash_text`). The least integer is such a case
   too: without its sign, its digits are too large to be read. So if a printed definition is parsed,
   all signs of its body are readable (`every_signIsReadable_of_parse`), which is the converse of
   what `Fluxion.Proofs.Notation.Printed` proves. -/
namespace Fluxion

open Token

namespace Grammar

/-- No operand begins with the token: it is a minus, or an integer that is too large. -/
def IsNoOperand (token : Token) : Prop :=
  token.kind = .minus ∨
    (token.kind = .digits ∧ Int64.maxValue.toInt < Binary64.ofDigits token.text.toList)

/-- Two tokens that cannot follow each other in a definition. -/
structure Clash (x y : Token) : Prop where
  operator : ∃ op, x.kind = Function.tokenKind op
  noOperand : IsNoOperand y

variable {a b : List Token} {p : Part} {t : Term} {x y : Token} {post : List Token}

/-! ## Parts of definitions -/

theorem Terminal.head {kind : Token.Kind} {token : Token} (terminal : Terminal kind a token b) :
    ∀ first ∈ a.head?, first.isBlank = true ∨ first = token := by
  obtain ⟨-, blanks, blank, rfl⟩ := terminal
  intro first here
  cases blanks with
  | nil =>
    cases here
    exact .inr rfl
  | cons =>
    cases here
    exact .inl (blank _ List.mem_cons_self)

theorem IsNoOperand.isBlank_eq_false (bad : IsNoOperand y) : y.isBlank = false := by
  obtain minus | ⟨digits, -⟩ := bad
  · rw [isBlank, minus]
    rfl
  · rw [isBlank, digits]
    rfl

theorem Terminal.not_isNoOperand {kind : Token.Kind} {token : Token}
    (terminal : Terminal kind a token b) (good : ¬IsNoOperand token) :
    ∀ first ∈ a.head?, ¬IsNoOperand first := by
  intro first here bad
  obtain blank | rfl := terminal.head first here
  · rw [bad.isBlank_eq_false] at blank
    cases blank
  · exact good bad

/-- Signs are only read in front of sums. -/
theorem Derives.not_isNoOperand (derives : Derives p a t b)
    (operand : p = .product ∨ p = .power ∨ p = .primary) :
    ∀ first ∈ a.head?, ¬IsNoOperand first := by
  have mark : ∀ {kind : Token.Kind} {token : Token}, token.kind = kind → kind ≠ .minus →
      kind ≠ .digits → ¬IsNoOperand token := by
    rintro kind token rfl noMinus noDigits (minus | ⟨digits, -⟩)
    · exact noMinus minus
    · exact noDigits digits
  induction derives with
  | product _ _ ih => exact ih (.inr (.inl rfl))
  | base _ ih => exact ih (.inr (.inr rfl))
  | power _ _ _ ih => exact ih (.inr (.inr rfl))
  | enclosed opens => exact opens.not_isNoOperand (mark opens.1 nofun nofun)
  | call name | name name => exact name.not_isNoOperand (mark name.1 nofun nofun)
  | @integer a b digits value number exact =>
    refine number.not_isNoOperand ?_
    rintro (minus | ⟨-, large⟩)
    · rw [number.1] at minus
      cases minus
    · have := value.toInt_le
      have top : Int64.maxValue.toInt = 2 ^ 63 - 1 := rfl
      omega
  | fraction number bounded =>
    refine number.not_isNoOperand ?_
    rintro (minus | ⟨-, large⟩)
    · rw [number.1] at minus
      cases minus
    · omega
  | sum | unsigned | plus | minus | stop | more => simp at operand

theorem Clash.isBlank_eq_false (clash : Clash x y) : x.isBlank = false := by
  obtain ⟨op, kind⟩ := clash.operator
  rw [isBlank, kind]
  cases op <;> rfl

/-- A clash among blanks and a token begins with the token or comes behind it. -/
theorem Terminal.clash {kind : Token.Kind} {token : Token} (terminal : Terminal kind a token b)
    (clash : Clash x y) (there : x :: y :: post <:+ a) :
    (x = token ∧ y :: post = b) ∨ x :: y :: post <:+ b := by
  obtain ⟨-, blanks, blank, rfl⟩ := terminal
  induction blanks with
  | nil =>
    obtain here | behind := List.suffix_cons_iff.mp there
    · exact .inl (List.cons.inj here)
    · exact .inr behind
  | cons first blanks ih =>
    obtain here | behind := List.suffix_cons_iff.mp there
    · have blank := blank first List.mem_cons_self
      rw [← (List.cons.inj here).1, clash.isBlank_eq_false] at blank
      cases blank
    · exact ih (fun token mem => blank token (List.mem_cons_of_mem first mem)) behind

/-- Only operators can begin a clash. -/
theorem Terminal.clash_of_kind {kind : Token.Kind} {token : Token}
    (terminal : Terminal kind a token b) (clash : Clash x y) (there : x :: y :: post <:+ a)
    (other : ∀ op, kind ≠ Function.tokenKind op := by intro op; cases op <;> nofun) :
    x :: y :: post <:+ b := by
  obtain ⟨rfl, -⟩ | behind := terminal.clash clash there
  · obtain ⟨op, operator⟩ := clash.operator
    exact absurd (terminal.1.symm.trans operator) (other op)
  · exact behind

/-- An operator in front of an operand begins no clash. -/
theorem Terminal.clash_of_operand {kind : Token.Kind} {token : Token}
    (terminal : Terminal kind a token b) (clash : Clash x y) (there : x :: y :: post <:+ a)
    (operand : ∀ first ∈ b.head?, ¬IsNoOperand first) : x :: y :: post <:+ b := by
  obtain ⟨-, rfl⟩ | behind := terminal.clash clash there
  · exact absurd clash.noOperand (operand y rfl)
  · exact behind

theorem isOperand_operand (rank : Rank) :
    rank.operand = .product ∨ rank.operand = .power ∨ rank.operand = .primary := by
  cases rank with
  | terms => exact .inl rfl
  | factors => exact .inr (.inl rfl)

/-- No part of a definition takes in a clash. -/
theorem Derives.clash (derives : Derives p a t b) (clash : Clash x y)
    (there : x :: y :: post <:+ a) : x :: y :: post <:+ b := by
  induction derives with
  | sum _ _ ihStart ihMore | product _ _ ihStart ihMore => exact ihMore (ihStart there)
  | unsigned _ ih | base _ ih => exact ih there
  | plus mark product ih | minus mark product ih =>
    exact ih (mark.clash_of_operand clash there (product.not_isNoOperand (.inl rfl)))
  | stop => exact there
  | @more a b c d rank mark op left right t _ next operand _ ihOperand ihOthers =>
    exact ihOthers (ihOperand
      (next.clash_of_operand clash there (operand.not_isNoOperand (isOperand_operand rank))))
  | power _ caret exponent ihBase ihExponent =>
    exact ihExponent (caret.clash_of_operand clash (ihBase there)
      (exponent.not_isNoOperand (.inr (.inr rfl))))
  | enclosed opens _ closes ih =>
    exact closes.clash_of_kind clash (ih (opens.clash_of_kind clash there))
  | integer number => exact number.clash_of_kind clash there
  | @fraction a b digits separator places number _ separates fractional =>
    have inside := number.clash_of_kind clash there
    have behind : x :: y :: post <:+ places :: b := by
      obtain dot | comma := separates
      · exact (Terminal.here dot _).clash_of_kind clash inside
      · exact (Terminal.here comma _).clash_of_kind clash inside
    exact (Terminal.here fractional _).clash_of_kind clash behind
  | call name _ opens _ closes ih =>
    have inside := opens.clash_of_kind clash (name.clash_of_kind clash there)
    exact closes.clash_of_kind clash (ih inside)
  | name name => exact name.clash_of_kind clash there

theorem Header.clash {name variableName : String} (header : Header a name variableName b)
    (clash : Clash x y) (there : x :: y :: post <:+ a) : x :: y :: post <:+ b := by
  obtain ⟨named, opens, binds, closes, defines⟩ := header
  have inside := opens.clash_of_kind clash (named.clash_of_kind clash there)
  exact defines.clash_of_kind clash
    (closes.clash_of_kind clash (binds.clash_of_kind clash inside))

/-- A definition that can be read has no clash. -/
theorem not_clash_of_parse {source : String} {f : Function} (parsed : Function.parse source = .ok f)
    (clash : Clash x y) : ¬x :: y :: post <:+ tokenize source := by
  intro there
  obtain ⟨d, read, -⟩ := Function.parse_eq_ok_iff.mp parsed
  obtain ⟨body, trailing, header, derives, blanks, blank, rfl⟩ := sound_read read
  have behind := derives.clash clash (header.clash clash there)
  have last := blank x (by simpa using behind.subset List.mem_cons_self)
  rw [clash.isBlank_eq_false] at last
  cases last

end Grammar
/-! ## Texts -/

/-- Somewhere in the text are the characters of a clash. -/
def HasClash (text : List Char) : Prop :=
  ∃ front mark behind, text = front ++ mark :: behind ∧
    (∀ kind : Token.Kind, kind.goesOn mark = false) ∧
    ∀ start, ∃ x y post, Grammar.Clash x y ∧ x :: y :: post <:+ scan start (mark :: behind)

theorem HasClash.append {text : List Char} (has : HasClash text) (front : List Char) :
    HasClash (front ++ text) := by
  obtain ⟨front', mark, behind, rfl, alone, clash⟩ := has
  exact ⟨front ++ front', mark, behind, by simp, alone, clash⟩

theorem HasClash.exists_clash {text : List Char} (has : HasClash text) (start : Nat) :
    ∃ x y post, Grammar.Clash x y ∧ x :: y :: post <:+ scan start text := by
  obtain ⟨front, mark, behind, rfl, alone, clash⟩ := has
  obtain ⟨stop, tokens⟩ := exists_scan_suffix alone front behind start
  obtain ⟨x, y, post, bad, there⟩ := clash stop
  exact ⟨x, y, post, bad, there.trans tokens⟩

/-- The tokens of an operator with a token behind it that begins no operand. -/
theorem hasClash_operator (op : BinaryOp) (text : List Char)
    (noOperand : ∀ start, ∃ y post, Grammar.IsNoOperand y ∧ scan start text = y :: post) :
    HasClash (op.symbol.toList ++ text) := by
  obtain ⟨c, symbol, kind, alone⟩ := Function.exists_mark op
  rw [symbol]
  refine ⟨[], c, text, rfl, alone, fun start => ?_⟩
  obtain ⟨stop, scanned⟩ := scan_mark start kind (Function.goesOn_tokenKind op) text
  obtain ⟨y, post, bad, behind⟩ := noOperand stop
  rw [scanned, behind]
  exact ⟨_, y, post, ⟨⟨op, rfl⟩, bad⟩, List.suffix_rfl⟩

theorem hasClash_minus (op : BinaryOp) (rest : List Char) :
    HasClash (op.symbol.toList ++ '-' :: rest) := by
  refine hasClash_operator op _ fun start => ?_
  obtain ⟨stop, scanned⟩ := scan_mark start (c := '-') rfl (fun _ => rfl) rest
  exact ⟨_, _, .inl rfl, scanned⟩

/-- The digits of the least integer are too large without their sign. -/
theorem hasClash_minValue {rest : List Char} (apart : Apart rest) :
    HasClash (Phrase.decimal Int64.minValue.toInt ++ rest) := by
  refine hasClash_operator .sub (Nat.toDigits 10 (2 ^ 63) ++ rest) fun start => ?_
  obtain ⟨stop, scanned⟩ := scan_digits start Nat.toDigits_ne_nil
    (fun _ => Nat.isDigit_of_mem_toDigits (b := 10) (by decide) (by decide)) apart
  refine ⟨_, _, .inr ⟨rfl, ?_⟩, scanned⟩
  rw [String.toList_ofList, Binary64.ofDigits_toDigits]
  decide

namespace Function

variable {f : Function} {t : Tree} {rest : List Char}

theorem exists_text_of_beginsWithMinus (minus : t.BeginsWithMinus) : ∃ u, f.text t = '-' :: u := by
  induction t with
  | absent => cases minus
  | node kind span left right ihLeft ihRight =>
    obtain n | _ | _ | _ | (op | g) := kind
    case integer =>
      have below : n.toInt < 0 := Int64.lt_iff_toInt_lt.mp minus
      obtain ⟨k, value⟩ := Int.eq_negSucc_of_lt_zero below
      refine ⟨Nat.toDigits 10 (k + 1), ?_⟩
      show Phrase.decimal n.toInt = _
      rw [value]
      rfl
    case operator.binary =>
      rw [text_binary]
      obtain ⟨rfl, rfl⟩ | ⟨bare, minus⟩ := minus
      · exact ⟨_, rfl⟩
      · obtain ⟨u, text⟩ := ihLeft minus
        rw [operandText, bare, text]
        exact ⟨_, rfl⟩
    all_goals cases minus

/-! ## Nodes -/

theorem hasClash_operandText {op : BinaryOp} {right : Bool}
    (inside : ∀ {rest}, Apart rest → HasClash (f.text t ++ rest)) (apart : Apart rest) :
    HasClash (f.operandText op right t ++ rest) := by
  rw [operandText]
  cases op.encloses right t.priority with
  | true =>
    have enclosed := (inside (apart_cons (c := ')') rfl rest)).append ['(']
    simpa [Phrase.wrapped] using enclosed
  | false => exact inside apart

/-- An operator with its right operand, if the node or the operand has a sign that is not
    readable. -/
theorem hasClash_right {op : BinaryOp} {left : Tree}
    (unreadable : Tree.SignIsReadable (.operator (.binary op)) left t → ¬t.Every Tree.SignIsReadable)
    (inside : ∀ {rest}, ¬t.Every Tree.SignIsReadable → Apart rest → HasClash (f.text t ++ rest))
    (apart : Apart rest) : HasClash (op.symbol.toList ++ (f.operandText op true t ++ rest)) := by
  by_cases here : Tree.SignIsReadable (.operator (.binary op)) left t
  · exact (hasClash_operandText (inside (unreadable here) ·) apart).append _
  · rw [Tree.SignIsReadable, not_or, not_not, Bool.not_eq_true] at here
    obtain ⟨u, text⟩ := exists_text_of_beginsWithMinus (f := f) here.2
    rw [operandText, here.1, text]
    exact hasClash_minus op (u ++ rest)

/-- A tree with a sign that is not readable is printed with a clash. -/
theorem hasClash_text (shaped : t.WellShaped) (unreadable : ¬t.Every Tree.SignIsReadable)
    (apart : Apart rest) : HasClash (f.text t ++ rest) := by
  induction shaped generalizing rest with
  | @leaf kind span noOperator =>
    have least : kind = .integer .minValue := by
      by_contra other
      refine unreadable ⟨?_, trivial, trivial⟩
      cases kind with
      | operator => cases noOperator
      | integer n =>
        rintro rfl
        exact other rfl
      | fraction | var | param => trivial
    rw [least]
    exact hasClash_minValue apart
  | @negation span operand onOperand ih =>
    rw [text_binary, List.append_assoc, List.append_assoc]
    exact (hasClash_right (fun here every => unreadable ⟨here, trivial, every⟩) ih apart).append _
  | @binary op span l r onLeft onRight ihLeft ihRight =>
    rw [text_binary, List.append_assoc, List.append_assoc]
    by_cases left : l.Every Tree.SignIsReadable
    · exact (hasClash_right (fun here every => unreadable ⟨here, left, every⟩) ihRight apart).append _
    · refine hasClash_operandText (ihLeft left) ?_
      obtain ⟨c, symbol, -, alone⟩ := exists_mark op
      rw [symbol]
      exact apart_cons (alone .name) _
  | @call g span argument onArgument ih =>
    have inside := ih (fun every => unreadable ⟨trivial, trivial, every⟩)
      (apart_cons (c := ')') rfl rest)
    have called := inside.append (g.symbol.toList ++ ['('])
    simpa [text_apply] using called

/-- If a definition with a printed body is parsed, the signs of the body are readable. -/
theorem every_signIsReadable_of_parse {name variableName : String} {g : Function}
    (shaped : t.WellShaped)
    (parsed : parse (name ++ "(" ++ variableName ++ ")=" ++ String.ofList (f.text t)) = .ok g) :
    t.Every Tree.SignIsReadable := by
  by_contra unreadable
  have clash := (hasClash_text (f := f) shaped unreadable apart_nil).append
    (name ++ "(" ++ variableName ++ ")=").toList
  obtain ⟨x, y, post, bad, there⟩ := clash.exists_clash 0
  have tokens : x :: y :: post <:+
      tokenize (name ++ "(" ++ variableName ++ ")=" ++ String.ofList (f.text t)) := by
    rwa [tokenize, String.toList_append, String.toList_ofList, ← List.append_nil (f.text t)]
  exact Grammar.not_clash_of_parse parsed bad tokens

end Function
end Fluxion
