/- Source text, before anything is read from it: places, lines and blanks.

   A place is a span (`Span`), a half-open range of byte offsets in the UTF-8 form of the text. Every
   token, every node of a tree and every fault points at its place by one, and a term that was built
   and not read carries `Span.nowhere`.

   A text of definitions is cut into lines (`Text.lines`) at each line feed; a carriage return in
   front of a line feed belongs to the end of the line, and one anywhere else is a character of the
   line. What stands behind the last line feed is a line only if it is not empty.

   A line counts as blank (`Text.isBlank`) if it holds only characters of the Unicode property
   `White_Space`. These are more than the blanks between the tokens of a definition, which are the
   four of ASCII: a line with a no-break space alone is passed over here, but the same space inside
   a definition is a fault. -/
namespace Fluxion

/-! ## Places -/

/-- The bytes from `start` up to, but without, `stop`. -/
structure Span where
  start : Nat
  stop : Nat
  deriving DecidableEq

namespace Span

/-- The span of what no source text stands for: built terms carry it. -/
def nowhere : Span := ⟨0, 0⟩

/-- The empty span at an offset. -/
def empty (offset : Nat) : Span := ⟨offset, offset⟩

/-- The span from the start of `first` to the end of `last`. -/
def through (first last : Span) : Span := ⟨first.start, last.stop⟩

end Span

namespace Text

/-! ## Lines -/

/-- The lines of a text, in order, without their ends. -/
def lines : List Char → List (List Char)
  | [] => []
  | '\r' :: '\n' :: rest => [] :: lines rest
  | '\n' :: rest => [] :: lines rest
  | c :: rest =>
    match lines rest with
    | [] => [[c]]
    | line :: others => (c :: line) :: others

/-! ## Blanks -/

/-- The characters of the Unicode property `White_Space`. -/
def blankCodes : List Nat :=
  [0x09, 0x0a, 0x0b, 0x0c, 0x0d, 0x20, 0x85, 0xa0, 0x1680, 0x2000, 0x2001, 0x2002, 0x2003, 0x2004,
   0x2005, 0x2006, 0x2007, 0x2008, 0x2009, 0x200a, 0x2028, 0x2029, 0x202f, 0x205f, 0x3000]

def isBlankChar (c : Char) : Bool := blankCodes.contains c.toNat

/-- Whether a text holds nothing but blanks. -/
def isBlank (text : List Char) : Bool := text.all isBlankChar

end Text
end Fluxion
