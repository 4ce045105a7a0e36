import Fluxion.Proofs.Binary64.Literal
import Fluxion.Proofs.Definition.Completeness
import Fluxion.Proofs.Notation.Lexing
import Fluxion.Proofs.Notation.Signs
/- Reading what was printed. A tree that is grouped to the left, whose signs and exponents are
   readable, is printed as a sum of the grammar, and the term that it derives stands for the tree
   (`Stands`). A minus in front of a sum is read as a change of sign, so a negative literal there
   comes back as the change of sign of a whole product; the term of that product stands for the
   opposite of the tree.

   Every lemma is about a text with more text behind it (`Reads`), as the parts of a sum are, and
   says of one part of the grammar what it takes to print it: names (`reads_name`), digits
   (`reads_toDigits`), fractions (`reads_fraction`), calls, parentheses, and operators between parts
   (`Reads.chain`, `Reads.pow`). The induction over trees comes after it, in
   `Fluxion.Proofs.Notation.Printed`. -/
namespace Fluxion

open Grammar Token

namespace Function

/-- The term stands for the tree or, if so marked, for its opposite. Names are those of the
    function, and places do not count. -/
inductive Stands (f : Function) : Bool → Term → Tree → Prop where
  | integer {n : Int64} {s s' : Span} : Stands f false (.integer n s) (.leaf (.integer n) s')
  | negative {n m : Int64} {s s' : Span} (negative : n < 0) (opposite : m.toInt = -n.toInt) :
      Stands f true (.integer m s) (.leaf (.integer n) s')
  | fraction {x : Binary64} {s s' : Span} :
      Stands f false (.fraction x s) (.leaf (.fraction x) s')
  | var {s s' : Span} : Stands f false (.name f.variableName s) (.leaf .var s')
  | param {index : Nat} {name : String} {s s' : Span} (entry : f.params.get? index = some name)
      (other : name ≠ f.variableName) : Stands f false (.name name s) (.leaf (.param index) s')
  | negation {t : Term} {n : Tree} {s s' : Span} (operand : Stands f false t n) :
      Stands f false (.negate t s) (.node (.operator (.binary .sub)) s' .absent n)
  | sign {t : Term} {n : Tree} {s : Span} (opposite : Stands f true t n) :
      Stands f false (.negate t s) n
  | call {g : Elementary} {t : Term} {n : Tree} {s s' : Span} (argument : Stands f false t n) :
      Stands f false (.call g t s) (.node (.operator (.apply g)) s' .absent n)
  | binary {op : BinaryOp} {opposite : Bool} {t u : Term} {l r : Tree} {s s' : Span}
      (factors : opposite = true → op = .mul ∨ op = .div) (left : Stands f opposite t l)
      (right : Stands f false u r) :
      Stands f opposite (.binary op t u s) (.node (.operator (.binary op)) s' l r)

/-- In front of any text that cuts it off, the text is a part of the grammar that stands for
    the tree or its opposite. -/
def Reads (f : Function) (part : Part) (opposite : Bool) (text : List Char) (n : Tree) : Prop :=
  ∀ start rest, Apart rest → ∃ t stop,
    Derives part (scan start (text ++ rest)) t (scan stop rest) ∧ f.Stands opposite t n

end Function

/-! ## Operators at the end of a chain -/

namespace Grammar

variable {a b c d : List Token} {rank : Rank} {left right t : Term} {mark : Token} {op : BinaryOp}

/-- The chain that a rank makes. -/
def Rank.chain : Rank → Part
  | terms => .sum
  | factors => .product

theorem Derives.rest_snoc (derives : Derives (.rest rank left) a t b)
    (operator : rank.operator? mark.kind = some op) (next : Terminal mark.kind b mark c)
    (operand : Derives rank.operand c right d) :
    Derives (.rest rank left) a (join op t right) d := by
  generalize part_eq : Part.rest rank left = part at derives
  induction derives generalizing left with
  | stop =>
    cases part_eq
    exact .more operator next operand .stop
  | more operator' next' operand' _ _ ihOthers =>
    cases part_eq
    exact .more operator' next' operand' (ihOthers next rfl)
  | _ => cases part_eq

/-- A chain goes on with one more operand. -/
theorem Derives.snoc (derives : Derives rank.chain a t b)
    (operator : rank.operator? mark.kind = some op) (next : Terminal mark.kind b mark c)
    (operand : Derives rank.operand c right d) : Derives rank.chain a (join op t right) d := by
  cases rank with
  | terms =>
    cases derives with
    | sum start more => exact .sum start (more.rest_snoc operator next operand)
  | factors =>
    cases derives with
    | product start more => exact .product start (more.rest_snoc operator next operand)

theorem Terminal.here {token : Token} {kind : Token.Kind} (same : token.kind = kind)
    (rest : List Token) : Terminal kind (token :: rest) token rest :=
  ⟨same, .refl _⟩

/-! ## Words and marks -/

/-- A mark is a token, whatever follows. -/
theorem exists_terminal_mark (start : Nat) {c : Char} {kind : Token.Kind}
    (mark : Token.Kind.ofFirst c = kind) (alone : ∀ x, kind.goesOn x = false) (rest : List Char) :
    ∃ token stop, Terminal kind (scan start (c :: rest)) token (scan stop rest) := by
  obtain ⟨stop, scanned⟩ := scan_mark start mark alone rest
  rw [scanned]
  exact ⟨_, stop, rfl, .refl _⟩

/-- A word is a token in front of what cuts it off. -/
theorem exists_terminal_word (start : Nat) {word : String} {rest : List Char}
    (identifier : IsIdentifier word.toList) (apart : Apart rest) :
    ∃ token stop, token.text = word ∧
      Terminal .name (scan start (word.toList ++ rest)) token (scan stop rest) := by
  obtain ⟨stop, scanned⟩ := scan_word start identifier apart
  rw [scanned]
  exact ⟨_, stop, String.ofList_toList, rfl, .refl _⟩

/-- So are digits. -/
theorem exists_terminal_digits (start : Nat) {digits rest : List Char} (there : digits ≠ [])
    (allDigits : ∀ c ∈ digits, c.isDigit = true) (apart : Apart rest) :
    ∃ token stop, token.text.toList = digits ∧ token.kind = .digits ∧
      scan start (digits ++ rest) = token :: scan stop rest := by
  obtain ⟨stop, scanned⟩ := scan_digits start there allDigits apart
  exact ⟨⟨.digits, String.ofList digits, start⟩, stop, String.toList_ofList, rfl, scanned⟩

end Grammar

namespace Function

variable {f : Function} {u v : List Char} {l r n : Tree} {span : Span} {opposite : Bool}

/-! ## Parts of parts -/

theorem Reads.power (reads : f.Reads .primary opposite u n) : f.Reads .power opposite u n := by
  intro start rest apart
  obtain ⟨t, stop, primary, stands⟩ := reads start rest apart
  exact ⟨t, stop, .base primary, stands⟩

theorem Reads.product (reads : f.Reads .power opposite u n) : f.Reads .product opposite u n := by
  intro start rest apart
  obtain ⟨t, stop, power, stands⟩ := reads start rest apart
  exact ⟨t, stop, .product power .stop, stands⟩

theorem Reads.sum (reads : f.Reads .product false u n) : f.Reads .sum false u n := by
  intro start rest apart
  obtain ⟨t, stop, product, stands⟩ := reads start rest apart
  exact ⟨t, stop, .sum (.unsigned product) .stop, stands⟩

/-- A minus in front of a product changes its sign. -/
theorem Reads.minus {t' : Tree} (reads : f.Reads .product opposite u n)
    (stands : ∀ t s, f.Stands opposite t n → f.Stands false (.negate t s) t') :
    f.Reads .sum false ('-' :: u) t' := by
  intro start rest apart
  obtain ⟨sign, behind, mark⟩ :=
    exists_terminal_mark start (c := '-') rfl (fun _ => rfl) (u ++ rest)
  obtain ⟨t, stop, product, stands'⟩ := reads behind rest apart
  exact ⟨_, stop, .sum (.minus mark product) .stop, stands t _ stands'⟩

/-- A sum in parentheses is a primary. -/
theorem Reads.enclosed (reads : f.Reads .sum false u n) :
    f.Reads .primary false ('(' :: u ++ [')']) n := by
  intro start rest apart
  obtain ⟨opening, inside, opens⟩ :=
    exists_terminal_mark start (c := '(') rfl (fun _ => rfl) (u ++ ')' :: rest)
  obtain ⟨t, behind, sum, stands⟩ := reads inside (')' :: rest) (apart_cons rfl rest)
  obtain ⟨closing, stop, closes⟩ :=
    exists_terminal_mark behind (c := ')') rfl (fun _ => rfl) rest
  have shape : '(' :: u ++ [')'] ++ rest = '(' :: (u ++ ')' :: rest) := by simp
  rw [shape]
  exact ⟨t, stop, .enclosed opens sum closes, stands⟩

theorem isIdentifier_symbol (g : Elementary) : IsIdentifier g.symbol.toList := by
  cases g <;> exact ⟨_, _, rfl, rfl, List.all_eq_true.mp rfl⟩

theorem ofName?_symbol (g : Elementary) : Elementary.ofName? g.symbol = some g := by
  cases g <;> decide

theorem Reads.call (g : Elementary) (reads : f.Reads .sum false u n) :
    f.Reads .primary false (g.symbol.toList ++ '(' :: u ++ [')'])
      (.node (.operator (.apply g)) span .absent n) := by
  intro start rest apart
  obtain ⟨word, here, text_eq, name⟩ := exists_terminal_word start (isIdentifier_symbol g)
    (apart_cons (c := '(') rfl (u ++ ')' :: rest))
  obtain ⟨opening, inside, opens⟩ :=
    exists_terminal_mark here (c := '(') rfl (fun _ => rfl) (u ++ ')' :: rest)
  obtain ⟨t, behind, sum, stands⟩ := reads inside (')' :: rest) (apart_cons rfl rest)
  obtain ⟨closing, stop, closes⟩ :=
    exists_terminal_mark behind (c := ')') rfl (fun _ => rfl) rest
  have function : Elementary.ofName? word.text = some g := by rw [text_eq, ofName?_symbol]
  have shape : g.symbol.toList ++ '(' :: u ++ [')'] ++ rest =
      g.symbol.toList ++ '(' :: (u ++ ')' :: rest) := by simp
  rw [shape]
  exact ⟨_, stop, .call name function opens sum closes, .call stands⟩

/-! ## Operators -/

/-- The kind of the token that an operator is printed as. -/
def tokenKind : BinaryOp → Token.Kind
  | .add => .plus
  | .sub => .minus
  | .mul => .star
  | .div => .slash
  | .pow => .caret

theorem exists_mark (op : BinaryOp) : ∃ c, op.symbol.toList = [c] ∧
    Token.Kind.ofFirst c = tokenKind op ∧ ∀ kind : Token.Kind, kind.goesOn c = false := by
  cases op <;> exact ⟨_, rfl, rfl, fun kind => by cases kind <;> rfl⟩

theorem goesOn_tokenKind (op : BinaryOp) (x : Char) : (tokenKind op).goesOn x = false := by
  cases op <;> rfl

/-- Two parts with an operator between them, each read as it is read alone. -/
theorem Reads.operands {p q : Part} (op : BinaryOp) (onLeft : f.Reads p opposite u l)
    (onRight : f.Reads q false v r) (start : Nat) {rest : List Char} (apart : Apart rest) :
    ∃ t t' b mark c stop, Derives p (scan start (u ++ op.symbol.toList ++ v ++ rest)) t b ∧
      Terminal (tokenKind op) b mark c ∧ Derives q c t' (scan stop rest) ∧
      f.Stands opposite t l ∧ f.Stands false t' r := by
  obtain ⟨c, symbol, kind, alone⟩ := exists_mark op
  obtain ⟨t, here, left, standsLeft⟩ := onLeft start (c :: (v ++ rest)) (apart_cons (alone .name) _)
  obtain ⟨mark, behind, terminal⟩ := exists_terminal_mark here kind (goesOn_tokenKind op) (v ++ rest)
  obtain ⟨t', stop, right, standsRight⟩ := onRight behind rest apart
  have shape : u ++ op.symbol.toList ++ v ++ rest = u ++ c :: (v ++ rest) := by simp [symbol]
  rw [shape]
  exact ⟨t, t', _, mark, _, stop, left, terminal, right, standsLeft, standsRight⟩

/-- An operator joins one more operand to a chain. -/
theorem Reads.chain (rank : Rank) {op : BinaryOp} (onLeft : f.Reads rank.chain opposite u l)
    (onRight : f.Reads rank.operand false v r) (known : rank.operator? (tokenKind op) = some op)
    (factors : opposite = true → op = .mul ∨ op = .div) :
    f.Reads rank.chain opposite (u ++ op.symbol.toList ++ v)
      (.node (.operator (.binary op)) span l r) := by
  intro start rest apart
  obtain ⟨t, t', b, mark, c, stop, left, terminal, right, standsLeft, standsRight⟩ :=
    Reads.operands op onLeft onRight start apart
  have kind : mark.kind = tokenKind op := terminal.1
  rw [← kind] at known terminal
  exact ⟨_, stop, left.snoc known terminal right, .binary factors standsLeft standsRight⟩

theorem Reads.pow (onBase : f.Reads .primary false u l) (onExponent : f.Reads .primary false v r) :
    f.Reads .power false (u ++ BinaryOp.pow.symbol.toList ++ v)
      (.node (.operator (.binary .pow)) span l r) := by
  intro start rest apart
  obtain ⟨t, t', b, mark, c, stop, base, caret, exponent, standsBase, standsExponent⟩ :=
    Reads.operands .pow onBase onExponent start apart
  exact ⟨_, stop, .power base caret exponent, .binary nofun standsBase standsExponent⟩

/-! ## Leaves -/

theorem reads_name {name : String} (free : IsFreeName name)
    (stands : ∀ s, f.Stands false (.name name s) n) : f.Reads .primary false name.toList n := by
  intro start rest apart
  obtain ⟨word, stop, rfl, terminal⟩ := exists_terminal_word start free.1 apart
  exact ⟨_, stop, .name terminal free.2, stands _⟩

/-- Digits are read as the integer that they are the digits of. -/
theorem reads_toDigits {k : Nat} {m : Int64} (value : m.toInt = k)
    (stands : ∀ s, f.Stands opposite (.integer m s) n) :
    f.Reads .primary opposite (Nat.toDigits 10 k) n := by
  intro start rest apart
  obtain ⟨token, stop, text_eq, kind, scanned⟩ := exists_terminal_digits start Nat.toDigits_ne_nil
    (fun _ => Nat.isDigit_of_mem_toDigits (b := 10) (by decide) (by decide)) apart
  refine ⟨_, stop, .integer ?_ ?_, stands token.span⟩
  · rw [scanned]
    exact ⟨kind, .refl _⟩
  · rw [text_eq, Binary64.ofDigits_toDigits, value]

theorem reads_fraction {x : Binary64} (back : x.ReadsBack)
    (stands : ∀ s, f.Stands false (.fraction x s) n) :
    f.Reads .primary false x.literal.toList n := by
  obtain ⟨whole, places, literal, someWhole, somePlaces, digits, digits', bounded, rfl⟩ := back
  intro start rest apart
  obtain ⟨first, inside, text_eq, kind, scanned⟩ :=
    exists_terminal_digits start someWhole digits (apart_cons (c := '.') rfl (places ++ rest))
  obtain ⟨behind, scannedPoint⟩ := scan_mark inside (c := '.') rfl (fun _ => rfl) (places ++ rest)
  obtain ⟨second, stop, text_eq', kind', scanned'⟩ :=
    exists_terminal_digits behind somePlaces digits' apart
  rw [scannedPoint, scanned'] at scanned
  have shape : (Binary64.ofPlaces whole places).literal.toList ++ rest =
      whole ++ '.' :: (places ++ rest) := by simp [literal]
  have number := Terminal.here kind (⟨.dot, String.ofList ['.'], inside⟩ :: second :: scan stop rest)
  have derives := Derives.fraction number (by rwa [text_eq]) (.inl rfl) kind'
  rw [text_eq, text_eq'] at derives
  rw [shape, scanned]
  exact ⟨_, stop, derives, stands _⟩

/-- What is printed for a leaf of this kind is read as the leaf: names are bound, and a
    fraction is one that is read back. -/
def IsLegible (f : Function) : Kind → Prop
  | .fraction x => x.ReadsBack
  | .var => IsFreeName f.variableName
  | .param index => ∃ name, f.params.get? index = some name ∧ name ≠ f.variableName ∧ IsFreeName name
  | _ => True

theorem reads_leaf {kind : Kind} (legible : f.IsLegible kind) (leaf : kind.operator? = none)
    (nonneg : ∀ n, kind = .integer n → 0 ≤ n) :
    f.Reads .primary false (f.text (.leaf kind span)) (.leaf kind span) := by
  cases kind with
  | operator => cases leaf
  | fraction x => exact reads_fraction legible fun _ => .fraction
  | var => exact reads_name legible fun _ => .var
  | param index =>
    obtain ⟨name, entry, other, free⟩ := legible
    have text : f.text (.leaf (.param index) span) = name.toList := by
      show (((f.params.get? index).getD "?").toList) = _
      rw [entry]
      rfl
    rw [text]
    exact reads_name free fun _ => .param entry other
  | integer n =>
    have nonneg : 0 ≤ n.toInt := Int64.le_iff_toInt_le.mp (nonneg n rfl)
    obtain ⟨k, value⟩ := Int.eq_ofNat_of_zero_le nonneg
    have text : f.text (.leaf (.integer n) span) = Nat.toDigits 10 k := by
      show Phrase.decimal n.toInt = _
      rw [value]
      rfl
    rw [text]
    exact reads_toDigits value fun _ => .integer

/-- The opposite of a negative literal has its digits. -/
theorem exists_digits_of_negative {n : Int64} (negative : n < 0) (bounded : n ≠ .minValue) :
    ∃ k : Nat, n.toInt = .negSucc k ∧ (-n).toInt = (k + 1 : Nat) := by
  have below : n.toInt < 0 := Int64.lt_iff_toInt_lt.mp negative
  have lower : n.toInt ≠ Int64.minValue.toInt := fun same => bounded (Int64.toInt_inj.mp same)
  have least := n.minValue_le_toInt
  obtain ⟨k, value⟩ := Int.eq_negSucc_of_lt_zero below
  refine ⟨k, value, ?_⟩
  have least' : Int64.minValue.toInt = -2 ^ 63 := rfl
  rw [Int64.toInt_neg, Int.bmod_eq_of_le (by omega) (by omega), value]
  rfl

/-- A negative literal is printed as a minus and the digits of its opposite. -/
theorem reads_negative {m : Int64} (span : Span) (negative : m < 0) (bounded : m ≠ .minValue) :
    ∃ u, f.text (.leaf (.integer m) span) = '-' :: u ∧
      f.Reads .primary true u (.leaf (.integer m) span) := by
  obtain ⟨k, value, opposite⟩ := exists_digits_of_negative negative bounded
  refine ⟨Nat.toDigits 10 (k + 1), ?_, reads_toDigits opposite fun _ => .negative negative ?_⟩
  · show Phrase.decimal m.toInt = _
    rw [value]
    rfl
  · rw [opposite, value]
    rfl

end Function
end Fluxion
