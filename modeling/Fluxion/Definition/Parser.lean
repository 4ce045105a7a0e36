import Fluxion.Binary64.Reading
import Fluxion.Cursor
import Fluxion.Suggestion
import Fluxion.Term
/- Reading definitions. The grammar is

     definition := name '(' name ')' '=' sum
     sum        := ['+' | '-'] product (('+' | '-') product)*
     product    := power (('*' | '/') power)*
     power      := primary ['^' primary]
     primary    := '(' sum ')' | number | function '(' sum ')' | name
     number     := digits [('.' | ',') digits]

   with blanks between any two tokens, except inside a number. Operators of one rank join to the
   left, there is at most one exponent, and a sign in front of a sum belongs to its first product.

   There is one reader (`Reader`) for each rule: it takes what it reads off a cursor, or says what is
   wrong and where. The readers below the level of `expression` take the reader of parenthesized sums
   as an argument, so only the depth of parentheses needs a bound, and the number of tokens is one.
   Reading stops at the first fault.

   A name is a function if it is in the table of functions, and a parameter or the variable otherwise,
   so `f(x)=foo(x)` reads as far as `foo`; for what is left over, names of functions near the last word
   are suggested (`suggestions`).

   That exactly the texts of this grammar are read, and how, is proved in
   `Fluxion.Proofs.Definition.Parsing` with a grammar on tokens. -/
namespace Fluxion

/-- A reader takes what it reads off a cursor. -/
abbrev Reader (α : Type) := Cursor → Except SyntaxError (α × Cursor)

namespace Definition

/-! ## Numbers and names -/

/-- The value of a digit sequence, if 64 bits with a sign can hold it. -/
def integer? (digits : List Char) : Option Int64 :=
  let value := Binary64.ofDigits digits
  if value < 1 <<< 63 then some (Int64.ofNat value) else none

/-- Reads the rest of a number that begins with the given digits. A separator must
    follow them directly, and so must the digits behind it. -/
def number (digits : Token) : Reader Term := fun c =>
  match integer? digits.text.toList with
  | none => .error ⟨.invalidNumber true, [digits.span]⟩
  | some value =>
    if c.current?.any (·.kind.isSeparator) then
      let c := c.advance
      match c.ahead? .digits with
      | none => .error ⟨.invalidNumber false, [c.span]⟩
      | some places =>
        .ok (.fraction (Binary64.ofPlaces digits.text.toList places.text.toList)
          (digits.span.through places.span), c.advance)
    else .ok (.integer value digits.span, c)

/-- Reads the parenthesized argument of a function. -/
def call (sum : Reader Term) (f : Elementary) (word : Token) : Reader Term := fun c =>
  match c.eat .openParen with
  | (none, c) => .error (c.fail (.missingOperand (some word.text)))
  | (some opening, c) => do
    let (argument, c) ← sum c
    match c.eat .closeParen with
    | (none, c) => .error (c.unclosed opening.span)
    | (some closing, c) => .ok (.call f argument (word.span.through closing.span), c)

/-- Reads a sum up to the parenthesis that closes it. -/
def enclosed (sum : Reader Term) (opening : Token) : Reader Term := fun c => do
  let (inner, c) ← sum c
  match c.eat .closeParen with
  | (none, c) => .error (c.unclosed opening.span)
  | (some _, c) => .ok (inner, c)

/-! ## Operators -/

/-- Reads an operand that no operator splits. -/
def primary (sum : Reader Term) : Reader Term := fun c =>
  match c.next with
  | (some token, rest) =>
    match token.kind with
    | .openParen => enclosed sum token rest
    | .digits => number token rest
    | .name =>
      match Elementary.ofName? token.text with
      | some f => call sum f token rest
      | none => .ok (.name token.text token.span, rest)
    | _ => .error (c.fail (.missingOperand none))
  | (none, _) => .error (c.fail (.missingOperand none))

/-- Reads an operand with at most one exponent. -/
def power (sum : Reader Term) : Reader Term := fun c => do
  let (base, c) ← primary sum c
  match c.eat .caret with
  | (none, c) => .ok (base, c)
  | (some _, c) => do
    let (exponent, c) ← primary sum c
    .ok (.join .pow base exponent, c)

def additive? : Token.Kind → Option BinaryOp
  | .plus => some .add
  | .minus => some .sub
  | _ => none

def multiplicative? : Token.Kind → Option BinaryOp
  | .star => some .mul
  | .slash => some .div
  | _ => none

/-- Passes the next token if it is one of the given operators. -/
def operator (operator? : Token.Kind → Option BinaryOp) (c : Cursor) : Option BinaryOp × Cursor :=
  match c.next with
  | (some token, rest) =>
    match operator? token.kind with
    | some op => (some op, rest)
    | none => (none, c)
  | (none, _) => (none, c)

/-- Reads operators and operands for as long as there are operators, and joins all
    to the left. The bound counts operators. -/
def chain (operator? : Token.Kind → Option BinaryOp) (operand : Reader Term) :
    Nat → Term → Reader Term
  | 0, left, c => .ok (left, c)
  | more + 1, left, c =>
    match operator operator? c with
    | (none, c) => .ok (left, c)
    | (some op, c) => do
      let (right, c) ← operand c
      chain operator? operand more (.join op left right) c

/-- Reads operands of one rank and joins them to the left. There are fewer
    operators than tokens. -/
def chained (operator? : Token.Kind → Option BinaryOp) (operand : Reader Term) (first : Term) :
    Reader Term := fun c => chain operator? operand c.ahead.length first c

def product (sum : Reader Term) : Reader Term := fun c => do
  let (first, c) ← power sum c
  chained multiplicative? (power sum) first c

/-- Reads the first product of a sum. A minus in front of it belongs to it alone. -/
def signed (operand : Reader Term) : Reader Term := fun c =>
  match c.eat .minus with
  | (some sign, c) => do
    let (first, c) ← operand c
    .ok (.negate first (sign.span.through first.span), c)
  | (none, c) => operand (c.eat .plus).2

def sum (inner : Reader Term) : Reader Term := fun c => do
  let (first, c) ← signed (product inner) c
  chained additive? (product inner) first c

/-- Reads a sum in which parentheses are nested less deeply than the bound. -/
def expression : Nat → Reader Term
  | 0 => fun c => .error (c.fail (.missingOperand none))
  | depth + 1 => sum (expression depth)

/-! ## Definitions -/

/-- Reads `name(variable) =`. -/
def header : Reader (String × String) := fun c => do
  let (some name, c) := c.eat .name | .error (c.fail .noDefinition)
  let (some opening, c) := c.eat .openParen | .error (c.fail .noDefinition)
  let (some variableName, c) := c.eat .name | .error (c.fail .noDefinition)
  let (some _, c) := c.eat .closeParen | .error (c.unclosed opening.span)
  let (some _, c) := c.eat .equals | .error (c.fail .missingEquals)
  .ok ((name.text, variableName.text), c)

/-- What to write instead, where a parenthesis follows a name that is no function. -/
def suggestions (c : Cursor) : List String :=
  match c.previous?, c.current? with
  | some word, some opening =>
    if word.kind = .name ∧ opening.kind = .openParen then Suggestion.near word.text else []
  | _, _ => []

/-- Sees to it that nothing but blanks is left. -/
def finish (c : Cursor) : Except SyntaxError Unit :=
  let c := c.skipBlanks
  if c.ahead.isEmpty then .ok ()
  else .error ⟨.trailing (suggestions c), [c.span.through c.endSpan]⟩

/-- Reads a definition from a cursor to the end of the source. Every parenthesis is
    a token, so their depth is less than the number of tokens. -/
def read (c : Cursor) : Except SyntaxError Definition := do
  let ((name, variableName), c) ← header c
  let (body, c) ← expression c.ahead.length c
  finish c
  .ok ⟨name, variableName, body⟩

/-- Reads a whole source as a definition. -/
def parse (source : String) : Except SyntaxError Definition := read (.ofSource source)

end Definition
end Fluxion
