/- Binary floating-point numbers of 64 bits, as fraction literals use them. There is no arithmetic
   on them here, since fractions are never computed with: they are read, compared and printed.

   The finite numbers of one sign are counted by rank: rank 0 is zero, and the next larger number
   has the next rank. A finite number is `significand * 2 ^ scale` units of `2 ^ (-1074)`, so every
   value and every half-way point between neighbours is a ratio of natural numbers, and everything
   that is said of them here is exact.

   Rounding to the nearest double (`nearest`) goes to an even rank from half-way and is written for
   a number system without a largest number; what lies beyond the last rank is infinite (`ofRank`).
   Equality (`same`) is that of numbers, by which the two zeros are equal and what is not a number
   equals nothing. -/
namespace Fluxion

/-- A double: not a number, an infinity, or a finite number of either sign. -/
inductive Binary64 where
  | nan
  | infinity (negative : Bool)
  | finite (negative : Bool) (rank : Fin (2047 <<< 52))
  deriving DecidableEq

namespace Binary64

/-- How many units of the last place make one: the smallest positive double is
    `2 ^ (-unitBits)`. -/
def unitBits : Nat := 1074

/-- The binary digits of the number, those that are stored and, from rank
    `2 ^ 52` on, the leading one that is not. -/
def significand (rank : Nat) : Nat :=
  if rank < 1 <<< 52 then rank else 1 <<< 52 + rank % 1 <<< 52

/-- The power of two that the significand is multiplied by. -/
def scale (rank : Nat) : Nat := rank / 1 <<< 52 - 1

/-- The size of the number in units of `2 ^ (-unitBits)`. -/
def units (rank : Nat) : Nat := significand rank <<< scale rank

/-- Equality of numbers: the two zeros are equal, and what is not a number
    equals nothing. -/
def same : Binary64 → Binary64 → Bool
  | infinity a, infinity b => a == b
  | finite a r, finite b s => r == s && (a == b || r.val == 0)
  | _, _ => false

instance : BEq Binary64 := ⟨same⟩

/-! ## Rounding to the nearest double -/

/-- `num / den` rounded to a natural number, a half going to the even neighbour. -/
def roundHalfEven (num den : Nat) : Nat :=
  let low := num / den
  let twice := 2 * (num % den)
  if twice < den then low else if den < twice then low + 1 else low + low % 2

/-- The rank of the double nearest to `num / den`, were there no largest one. -/
def nearestRank (num den : Nat) : Nat :=
  let scaled := num <<< unitBits
  let scale := (scaled / den).log2 - 52
  scale <<< 52 + roundHalfEven scaled (den <<< scale)

/-- The finite number of a rank; past the last one there is only infinity. -/
def ofRank (negative : Bool) (rank : Nat) : Binary64 :=
  if h : rank < 2047 <<< 52 then finite negative ⟨rank, h⟩ else infinity negative

/-- The double nearest to `num / den`. -/
def nearest (negative : Bool) (num den : Nat) : Binary64 := ofRank negative (nearestRank num den)

end Binary64
end Fluxion
