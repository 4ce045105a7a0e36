import Fluxion.Binary64
/- Printing doubles as decimal text, always in positional notation and without an exponent. Two
   texts are made of a double. `shortest` has the fewest digits that read back as the same double.
   `literal` is what stands for a fraction literal in a definition: a whole number is written
   exactly, however long it is, and keeps one place behind the point, so that it is not taken for an
   integer; any other number is written as `shortest` has it.

   For the fewest digits, grids of powers of ten are tried from coarse to fine
   (`Interval.coarsest`). On the first grid that meets the interval of reals that round to the
   double, the point nearer to the double is taken, and of two equally near points the larger. The
   ends of the interval belong to it if the significand is even, as halves are rounded. Everything
   is computed in quarters of a unit of the last place, with natural numbers. -/
namespace Fluxion
namespace Binary64

/-- A decimal number `digits * 10 ^ exponent`. -/
structure Decimal where
  digits : Nat
  exponent : Int

namespace Decimal

/-- The number in positional notation, without superfluous zeros. -/
def positional (number : Decimal) : List Char :=
  let digits := Nat.toDigits 10 number.digits
  match number.exponent with
  | .ofNat e => digits ++ List.replicate e '0'
  | .negSucc e =>
    let places := e + 1
    let padded := List.replicate (places + 1 - digits.length) '0' ++ digits
    padded.take (padded.length - places) ++ '.' :: padded.drop (padded.length - places)

end Decimal

/-- The reals that round to one double, in quarters of a unit: the double lies at
    `value`, and the ends belong to the interval if it is `closed`. -/
structure Interval where
  low : Nat
  value : Nat
  high : Nat
  closed : Bool

/-- The interval of a positive rank. The gap below a power of two is half as wide
    as the one above it. -/
def interval (rank : Nat) : Interval :=
  let gap := 1 <<< scale rank
  let value := 4 * units rank
  let below := if significand rank = 1 <<< 52 ∧ 0 < scale rank then gap else 2 * gap
  ⟨value - below, value, value + 2 * gap, significand rank % 2 == 0⟩

namespace Interval

/-- Whether the `n`-th point of a grid lies in the interval, where the grid is as
    wide as `den / num` quarter units. -/
def holds (i : Interval) (num den n : Nat) : Bool :=
  if i.closed then i.low * num ≤ n * den && n * den ≤ i.high * num
  else i.low * num < n * den && n * den < i.high * num

/-- The grid point in the interval that is nearest to the double; of two equally
    near, the larger. -/
def onGrid? (i : Interval) (num den : Nat) : Option Nat :=
  let below := i.value * num / den
  match i.holds num den below, i.holds num den (below + 1) with
  | true, true => some (if 2 * (i.value * num) < (2 * below + 1) * den then below else below + 1)
  | true, false => some below
  | false, true => some (below + 1)
  | false, false => none

/-- The point of the grid of `10 ^ exponent`. -/
def atExponent? (i : Interval) : Int → Option Nat
  | .ofNat e => i.onGrid? 1 (Nat.pow 10 e <<< (unitBits + 2))
  | .negSucc e => i.onGrid? (Nat.pow 10 (e + 1)) (1 <<< (unitBits + 2))

/-- The first point met on grids that get finer by tens, from `10 ^ top` on. -/
def coarsest (i : Interval) : Nat → Int → Decimal
  | 0, top => ⟨(i.atExponent? top).getD 0, top⟩
  | finer + 1, top =>
    match i.atExponent? top with
    | some n => ⟨n, top⟩
    | none => coarsest i finer (top - 1)

end Interval

/-- The exponent of a grid on which no double has a point next to it but zero. -/
def coarsestExponent : Nat := 309

/-- The decimal number with the fewest digits among those that round to the
    double of this rank. The finest grid of the search holds the double itself. -/
def shortestDecimal (rank : Nat) : Decimal :=
  if rank = 0 then ⟨0, 0⟩
  else (interval rank).coarsest (coarsestExponent + unitBits) coarsestExponent

/-- Whether a finite double has no places behind the point. -/
def isWhole (rank : Nat) : Bool := units rank % 1 <<< unitBits == 0

/-- A finite number with its sign; infinities and what is not a number by name. -/
def withSign (magnitude : Nat → List Char) : Binary64 → String
  | nan => "NaN"
  | infinity negative => if negative then "-inf" else "inf"
  | finite negative rank => String.ofList ((if negative then ['-'] else []) ++ magnitude rank)

/-- The shortest text that reads back as the same double; whole numbers have no
    point. -/
def shortest : Binary64 → String := withSign fun rank => (shortestDecimal rank).positional

/-- The text of a fraction literal. A whole number is written exactly and keeps
    one place, so that it is not taken for an integer. -/
def literal : Binary64 → String := withSign fun rank =>
  if isWhole rank then Nat.toDigits 10 (units rank / 1 <<< unitBits) ++ ['.', '0']
  else (shortestDecimal rank).positional

end Binary64
end Fluxion
