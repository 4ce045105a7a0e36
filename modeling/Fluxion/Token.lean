import Fluxion.Text
/- Tokens of a definition. A token (`Token`) is a piece of the source with its kind and the offset
   of its first byte. It is a maximal run: the kind is chosen by the first character
   (`Kind.ofFirst`), and `Kind.goesOn` says which characters keep the run going. Blanks, digits and
   names can be longer than one character, all others are tokens by themselves.

   The tokens of a source hold all of it, in order (`scan_texts`). No character is ever refused
   here; one without a meaning is a symbol, and the reader of definitions refuses it where it
   stands. Letters, digits and blanks are those of ASCII, so a letter with an accent is a symbol.

   Places are counted in bytes, and a token ends where the next one begins. That no other way of
   parting a source has these properties is proved in `Fluxion.Proofs.Notation.LongestMatch`. -/
namespace Fluxion

/-- What a token stands for. Every character without a meaning of its own is a
    `symbol`. -/
inductive Token.Kind where
  | blank | plus | minus | star | slash | caret | equals | openParen | closeParen
  | dot | comma | digits | name | symbol
  deriving DecidableEq

/-- A piece of the source: its kind, its text and the offset of its first byte. -/
structure Token where
  kind : Token.Kind
  text : String
  start : Nat
  deriving DecidableEq

namespace Token

/-- Space, tab, line feed and carriage return. -/
def isBlankChar (c : Char) : Bool := c == ' ' || c == '\t' || c == '\n' || c == '\r'

namespace Kind

/-- The kind of a character that is a token by itself. -/
def ofMark : Char → Kind
  | '+' => plus
  | '-' => minus
  | '*' => star
  | '/' => slash
  | '^' => caret
  | '=' => equals
  | '(' => openParen
  | ')' => closeParen
  | '.' => dot
  | ',' => comma
  | _ => symbol

/-- The kind of the token that begins with this character. Letters and digits
    are those of ASCII. -/
def ofFirst (c : Char) : Kind :=
  if isBlankChar c then blank
  else if c.isDigit then digits
  else if c.isAlpha then name
  else ofMark c

/-- Whether a token of this kind goes on with this character. -/
def goesOn : Kind → Char → Bool
  | blank, c => isBlankChar c
  | digits, c => c.isDigit
  | name, c => c.isAlphanum
  | _, _ => false

/-- The two marks that may part the digits of a number. -/
def isSeparator (kind : Kind) : Bool := kind == dot || kind == comma

end Kind

/-- The offset behind the last byte of the token. -/
def stop (token : Token) : Nat := token.start + token.text.utf8ByteSize

/-- The bytes that the token covers. -/
def span (token : Token) : Span := ⟨token.start, token.stop⟩

/-- Whether the token only keeps others apart. -/
def isBlank (token : Token) : Bool := token.kind == .blank

/-- The tokens of a text whose first byte is at `start`. -/
def scan (start : Nat) : List Char → List Token
  | [] => []
  | c :: rest =>
    let kind := Kind.ofFirst c
    let token : Token := ⟨kind, String.ofList (c :: rest.takeWhile kind.goesOn), start⟩
    token :: scan token.stop (rest.dropWhile kind.goesOn)
termination_by text => text.length
decreasing_by
  have := (List.dropWhile_suffix (Kind.ofFirst c).goesOn (l := rest)).length_le
  simp only [List.length_cons]
  omega

theorem scan_texts (start : Nat) (text : List Char) :
    (scan start text).flatMap (·.text.toList) = text := by
  fun_induction scan start text with
  | case1 => rfl
  | case2 start c rest kind token ih =>
    rw [List.flatMap_cons, ih, String.toList_ofList, List.cons_append,
      List.takeWhile_append_dropWhile]

/-- All tokens of a source, blanks included. -/
def tokenize (source : String) : List Token := scan 0 source.toList

end Token
end Fluxion
