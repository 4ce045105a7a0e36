import Fluxion.Binary64
/- Structured data: what functions are stored as. A value is null, a truth value, an integer, a
   real, a text, a list or a record of named fields (`Data`). It stands for a text in a data format
   after that text was parsed; the format itself, with its quotes and escapes, is left out.

   The first part reads. Each reader says what it takes and answers `none` for anything else. A
   record may lack fields and have others besides, and may also be given as the list of its values,
   in order (`fields?`). A missing value may be null or not there (`optional?`). An alternative that
   carries nothing may be given by its name alone (`choice?`). Integers must lie in their range, and
   an integer may stand for a real, rounded once to the nearest double. The last part writes. -/
namespace Fluxion

/-- A value of a data format with numbers, texts, lists and records. -/
inductive Data where
  | null
  | bool (value : Bool)
  | integer (value : Int)
  | real (value : Binary64)
  | text (value : String)
  | list (items : List Data)
  | record (fields : List (String × Data))

namespace Data

instance : Inhabited Data := ⟨null⟩

/-! ## Reading -/

/-- The values of the named fields. A record may lack some of them and have others
    besides; a list has a value for each and no more. -/
def fields? (names : List String) : Data → Option (List (Option Data))
  | record fields => some (names.map fun name => fields.lookup name)
  | list items => if items.length = names.length then some (items.map some) else none
  | _ => none

def text? : Data → Option String
  | text value => some value
  | _ => none

/-- An integer in the range from `low` up to, but without, `high`. -/
def integerIn? (low high : Int) : Data → Option Int
  | integer value => if low ≤ value ∧ value < high then some value else none
  | _ => none

/-- A natural number of 64 bits. -/
def natural? (data : Data) : Option Nat := (data.integerIn? 0 UInt64.size).map (·.toNat)

/-- A number of any kind. Integers are rounded to the nearest double. -/
def real? : Data → Option Binary64
  | real value => some value
  | integer value => some (.nearest (value < 0) value.natAbs 1)
  | _ => none

/-- A list whose items can all be read. -/
def list? {α : Type} (read : Data → Option α) : Data → Option (List α)
  | list items => items.mapM read
  | _ => none

/-- A value that may be missing. -/
def optional? {α : Type} (read : Data → Option α) : Option Data → Option (Option α)
  | none | some null => some none
  | some data => (read data).map some

/-- A choice among alternatives, by name, with what the alternative carries. One
    that carries nothing may be given by its name alone. -/
def choice? : Data → Option (String × Option Data)
  | text name => some (name, none)
  | record [(name, content)] => some (name, some content)
  | _ => none

/-- Whether an alternative that carries nothing carries nothing. -/
def carriesNothing : Option Data → Bool
  | none | some null => true
  | _ => false

/-! ## Writing -/

/-- A natural number, or null. -/
def ofOptional (n : Option Nat) : Data :=
  match n with
  | none => null
  | some n => integer n

end Data
end Fluxion
