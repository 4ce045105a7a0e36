import Fluxion.Simplification.Rewrite
/- The rules of simplification. Each looks at a node, its operands and, for reciprocals, their
   operands, and answers what may be done (`Rule`). Only integer literals count as zero and one:
   `0.0 + x` stays as it is.

   Arithmetic on two integer literals comes before everything else (`foldConstants`). It is done
   only if the result is an integer that 64 bits can hold (`compute?`), and if it is not, nothing
   else is tried on the node either (`rewrite?`): `1/0` and `3/2` stay as they are, and so does a
   sum that is too large.

   Otherwise the laws of the operator are tried in order, and the first that applies is taken
   (`firstOf`). A rule asks for the operands that it needs, so none applies to a node that lacks
   one, with the exception of the opposite of zero. -/
namespace Fluxion
namespace Simplification

/-- A rule finds the rewrite of a node, if it applies there. -/
abbrev Rule := Arena → Handle → Option Rewrite

/-- Tries rules in order and takes the first that applies. -/
def firstOf (rules : List Rule) : Rule := fun a h => rules.findSome? fun rule => rule a h

/-- The operands of a node with the given operator that has both. -/
def operands? (op : BinaryOp) (a : Arena) (h : Handle) : Option (Handle × Handle) := do
  if a.operator? h = some (.binary op) then
    let left ← a.left? h
    let right ← a.right? h
    some (left, right)
  else none

/-! ## Constants -/

/-- An integer that 64 bits can hold. -/
def toWord? (n : Int) : Option Int64 :=
  if range : Int64.minValue.toInt ≤ n ∧ n ≤ Int64.maxValue.toInt then
    some (Int64.ofIntLE n range.1 range.2)
  else none

theorem toWord?_eq_some_iff {n : Int} {w : Int64} : toWord? n = some w ↔ w.toInt = n := by
  unfold toWord?
  constructor
  · intro h
    split at h
    · next range =>
      cases h
      exact Int64.toInt_ofIntLE
    · contradiction
  · rintro rfl
    rw [dif_pos ⟨w.minValue_le_toInt, w.toInt_le⟩, Int64.ofIntLE_toInt]

/-- The value of an operation between integers, if it is an integer of 64 bits. -/
def compute? (op : BinaryOp) (left right : Int64) : Option Int64 :=
  let (l, r) := (left.toInt, right.toInt)
  match op with
  | .add => toWord? (l + r)
  | .sub => toWord? (l - r)
  | .mul => toWord? (l * r)
  | .div => if r ≠ 0 ∧ l.tmod r = 0 then toWord? (l.tdiv r) else none
  | .pow => none

/-- Replaces an operation between integer literals by its value. -/
def foldConstants : Rule := fun a h => do
  match a.operator? h with
  | some (.binary op) =>
    let left ← (a.left? h).bind a.integer?
    let right ← (a.right? h).bind a.integer?
    let value ← compute? op left right
    some ⟨.foldConstants, .literal value⟩
  | _ => none

/-! ## Sums -/

/-- `0 + a = a` and `a + 0 = a` -/
def addZero : Rule := fun a h => do
  let (left, right) ← operands? .add a h
  if a.isZero left then some ⟨.addZero, .keep right⟩
  else if a.isZero right then some ⟨.addZero, .keep left⟩
  else none

def addition : Rule := firstOf [addZero]

/-! ## Differences -/

/-- `0 - a = -a`, `-0 = 0` and `a - 0 = a` -/
def subtractZero : Rule := fun a h => do
  if a.operator? h = some (.binary .sub) then
    let right ← a.right? h
    match a.left? h with
    | none => if a.isZero right then some ⟨.negateZero, .literal 0⟩ else none
    | some left =>
      if a.isZero left then some ⟨.subtractFromZero, .dropLeft⟩
      else if a.isZero right then some ⟨.subtractZero, .keep left⟩
      else none
  else none

def subtraction : Rule := firstOf [subtractZero]

/-! ## Products -/

/-- `0 * a = 0` and `a * 0 = 0` -/
def multiplyZero : Rule := fun a h => do
  let (left, right) ← operands? .mul a h
  if a.isZero left || a.isZero right then some ⟨.multiplyZero, .literal 0⟩ else none

/-- `1 * a = a` and `a * 1 = a` -/
def multiplyOne : Rule := fun a h => do
  let (left, right) ← operands? .mul a h
  if a.isOne left then some ⟨.multiplyOne, .keep right⟩
  else if a.isOne right then some ⟨.multiplyOne, .keep left⟩
  else none

/-- Whether a node is `1 / a`. -/
def isReciprocal (a : Arena) (h : Handle) : Bool :=
  (operands? .div a h).any fun (numerator, _) => a.isOne numerator

/-- `(1 / a) * b = b / a` and `b * (1 / a) = b / a` -/
def multiplyReciprocal : Rule := fun a h => do
  let (left, right) ← operands? .mul a h
  if isReciprocal a left then some ⟨.multiplyReciprocal, .divide right left⟩
  else if isReciprocal a right then some ⟨.multiplyReciprocal, .divide left right⟩
  else none

def multiplication : Rule := firstOf [multiplyZero, multiplyOne, multiplyReciprocal]

/-! ## Quotients -/

/-- `0 / a = 0` -/
def divideZero : Rule := fun a h => do
  let (left, _) ← operands? .div a h
  if a.isZero left then some ⟨.divideZero, .literal 0⟩ else none

/-- `a / 1 = a` -/
def divideOne : Rule := fun a h => do
  let (left, right) ← operands? .div a h
  if a.isOne right then some ⟨.divideOne, .keep left⟩ else none

def division : Rule := firstOf [divideZero, divideOne]

/-! ## Powers -/

/-- `a ^ 0 = 1`, for every base -/
def powerZero : Rule := fun a h => do
  let (_, right) ← operands? .pow a h
  if a.isZero right then some ⟨.powerZero, .literal 1⟩ else none

/-- `a ^ 1 = a` -/
def powerOne : Rule := fun a h => do
  let (left, right) ← operands? .pow a h
  if a.isOne right then some ⟨.powerOne, .keep left⟩ else none

def exponentiation : Rule := firstOf [powerZero, powerOne]

/-- All rules but the folding of constants. -/
def laws : Rule := firstOf [addition, subtraction, multiplication, division, exponentiation]

/-- What is done to a node: arithmetic on two integer literals is folded or left
    as it is, and anything else is subject to the laws. -/
def rewrite? : Rule := fun a h => if a.isCalculable h then foldConstants a h else laws a h

end Simplification
end Fluxion
