import Fluxion.Binary64
/- Reading doubles from decimal text. Every text is rounded once, exactly, to the nearest double
   (`ofDecimal`), and not digit by digit; exponents far outside the range of doubles are settled
   without computing their powers of ten, which texts of a few characters could make arbitrarily
   large.

   There are two readers. `ofPlaces` is the one for literals of a definition, where the tokens are
   digits, a separator and digits, and no fault can occur. `ofText?` is the one for a text of its
   own: a sign, digits with at most one point among them, an exponent, or one of the words `inf`,
   `infinity` and `nan` in upper or lower case; anything else is no number. Digits are needed on at
   least one side of the point. -/
namespace Fluxion
namespace Binary64

/-- The double nearest to `digits * 10 ^ exponent`. -/
def ofDecimal (negative : Bool) (digits : Nat) (exponent : Int) : Binary64 :=
  let magnitude := (Nat.toDigits 10 digits).length + exponent
  if digits = 0 ∨ magnitude < -400 then ofRank negative 0
  else if 400 < magnitude then infinity negative
  else match exponent with
    | .ofNat e => nearest negative (digits * Nat.pow 10 e) 1
    | .negSucc e => nearest negative digits (Nat.pow 10 (e + 1))

/-- The number written by decimal digits. -/
def ofDigits (digits : List Char) : Nat :=
  digits.foldl (fun value digit => 10 * value + (digit.toNat - '0'.toNat)) 0

/-- The double written as digits, a separator and more digits. -/
def ofPlaces (whole places : List Char) : Binary64 :=
  ofDecimal false (ofDigits (whole ++ places)) (-places.length)

/-! ## Decimal text -/

/-- A sign in front of a number; without one it is positive. -/
def takeSign : List Char → Bool × List Char
  | '-' :: rest => (true, rest)
  | '+' :: rest => (false, rest)
  | text => (false, text)

/-- An exponent: `e`, an optional sign and digits, up to the end of the text. No
    exponent at all counts as zero. -/
def exponent? : List Char → Option Int
  | [] => some 0
  | c :: rest =>
    let (negative, digits) := takeSign rest
    if c.toLower == 'e' && !digits.isEmpty && digits.all Char.isDigit then
      some (if negative then -(ofDigits digits : Int) else ofDigits digits)
    else none

/-- A number without sign: digits with a point anywhere among them or with none,
    and an exponent. -/
def unsigned? (negative : Bool) (text : List Char) : Option Binary64 :=
  let whole := text.takeWhile Char.isDigit
  let (places, rest) := match text.dropWhile Char.isDigit with
    | '.' :: rest => (rest.takeWhile Char.isDigit, rest.dropWhile Char.isDigit)
    | rest => ([], rest)
  if whole.isEmpty && places.isEmpty then none
  else (exponent? rest).map fun e =>
    ofDecimal negative (ofDigits (whole ++ places)) (e - places.length)

/-- Reads a whole text as a number: decimal, `inf`, `infinity` or `nan`, in upper
    or lower case. -/
def ofText? (text : String) : Option Binary64 :=
  let (negative, rest) := takeSign text.toList
  let word := String.ofList (rest.map Char.toLower)
  if word = "nan" then some nan
  else if word = "inf" ∨ word = "infinity" then some (infinity negative)
  else unsigned? negative rest

end Binary64
end Fluxion
