/- The table of a definition's free parameters: their names, each found by its index. The body of a
   function refers to parameters by index only, so the table goes with the function into its
   derivative and through every simplification.

   A name is entered by `intern`, which answers the index that the name has already, if there is
   one, or by `push`, which enters it in any case. Indexes count from zero in the order of entry and
   are never given twice: an index that was answered once always leads to the same name
   (`get?_intern_of_some`, `get?_push_of_some`), and the index that is answered leads to the name
   that was entered (`get?_intern`, `get?_push`). Names are compared character by character. -/
namespace Fluxion

/-- The names of the parameters, in order of their indexes. -/
structure ParameterTable where
  names : List String := []
  deriving DecidableEq

namespace ParameterTable

/-- The number of entries. -/
def size (table : ParameterTable) : Nat := table.names.length

/-- The name at an index. -/
def get? (table : ParameterTable) (index : Nat) : Option String := table.names[index]?

/-- The first index of a name. -/
def position? (table : ParameterTable) (name : String) : Option Nat :=
  table.names.findIdx? (· == name)

/-- Enters a name at the end, whether or not it is there already. -/
def push (table : ParameterTable) (name : String) : Nat × ParameterTable :=
  (table.size, ⟨table.names ++ [name]⟩)

/-- The index of a name, which is entered if it is new. -/
def intern (table : ParameterTable) (name : String) : Nat × ParameterTable :=
  match table.position? name with
  | some index => (index, table)
  | none => table.push name

theorem get?_of_position? {table : ParameterTable} {name : String} {index : Nat}
    (h : table.position? name = some index) : table.get? index = some name := by
  obtain ⟨bound, found, _⟩ := List.findIdx?_eq_some_iff_getElem.mp h
  rw [get?, List.getElem?_eq_getElem bound, eq_of_beq found]

theorem get?_push (table : ParameterTable) (name : String) :
    (table.push name).2.get? (table.push name).1 = some name := by
  simp [push, get?, size]

theorem get?_intern (table : ParameterTable) (name : String) :
    (table.intern name).2.get? (table.intern name).1 = some name := by
  unfold intern
  split
  · next h => exact get?_of_position? h
  · exact get?_push table name

theorem get?_push_of_some {table : ParameterTable} {index : Nat} {old : String} (name : String)
    (h : table.get? index = some old) : (table.push name).2.get? index = some old := by
  have bound : index < table.names.length := (List.getElem?_eq_some_iff.mp h).1
  rw [← h, get?, get?, push, List.getElem?_append_left bound]

theorem get?_intern_of_some {table : ParameterTable} {index : Nat} {old : String} (name : String)
    (h : table.get? index = some old) : (table.intern name).2.get? index = some old := by
  unfold intern
  split
  · exact h
  · exact get?_push_of_some name h

end ParameterTable
end Fluxion
