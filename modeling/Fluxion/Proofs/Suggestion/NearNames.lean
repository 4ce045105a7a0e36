import Fluxion.Proofs.Suggestion.EditDistance
import Mathlib.Data.List.Nodup
/- The names that are suggested for another one. A known name is among them exactly if it is at most
   two edits away, and fewer than the name has bytes (`mem_near`), where edits are counted by
   scripts and not by the table of distances.

   The names are collected distance by distance, nearest first, and at each distance they are a part
   of the table of known names, so their order is that of the distances and then that of the table
   (`pairwise_near`). No name precedes itself, so none comes twice (`nodup_near`); that no name
   stands twice in the table is all that is looked up there. Any name may be asked for, also one
   that is no identifier, and the name of a function is suggested for itself, at distance zero.
   Bytes and characters are the same for the names of a source. -/
namespace Fluxion
namespace Suggestion

/-- The names under which functions are known, in the order of their table. -/
def known : List String := Elementary.names.map (·.1)

/-- The names that are suggested at one distance. -/
def atDistance (name : String) (n : Nat) : List String :=
  if n < name.utf8ByteSize then
    known.filter fun candidate => editDistance name.toList candidate.toList == n
  else []

/-- Of the suggestions for a name, the first of these two is nearer than the second, or as near and
    before it in the table. -/
def Precedes (name first second : String) : Prop :=
  ∃ m n, Apart m name.toList first.toList ∧ Apart n name.toList second.toList ∧
    (m < n ∨ m = n ∧ known.idxOf first < known.idxOf second)

variable {name first second candidate : String} {n : Nat}

theorem near_eq (name : String) : near name = (List.range 3).flatMap (atDistance name) := rfl

theorem editDistance_eq_iff {u v : List Char} : editDistance u v = n ↔ Apart n u v := by
  constructor
  · rintro rfl
    exact apart_editDistance u v
  · intro apart
    exact (apart_editDistance u v).unique apart

theorem mem_atDistance : candidate ∈ atDistance name n ↔
    candidate ∈ known ∧ Apart n name.toList candidate.toList ∧ n < name.utf8ByteSize := by
  rw [atDistance, ← editDistance_eq_iff]
  split
  · next short => simp [short]
  · next long => simp [long]

theorem mem_near : candidate ∈ near name ↔ candidate ∈ known ∧
    ∃ n, Apart n name.toList candidate.toList ∧ n ≤ 2 ∧ n < name.utf8ByteSize := by
  rw [near_eq, List.mem_flatMap]
  constructor
  · intro ⟨n, within, mem⟩
    obtain ⟨isKnown, apart, short⟩ := mem_atDistance.mp mem
    exact ⟨isKnown, n, apart, Nat.le_of_lt_succ (List.mem_range.mp within), short⟩
  · intro ⟨isKnown, n, apart, within, short⟩
    exact ⟨n, List.mem_range.mpr (Nat.lt_succ_of_le within),
      mem_atDistance.mpr ⟨isKnown, apart, short⟩⟩

theorem nodup_known : known.Nodup := by decide +kernel

/-- The names of one distance are in the order of the table. -/
theorem pairwise_atDistance (name : String) (n : Nat) :
    (atDistance name n).Pairwise fun first second => known.idxOf first < known.idxOf second := by
  have inOrder : known.Pairwise fun first second => known.idxOf first < known.idxOf second := by
    rw [List.pairwise_iff_getElem]
    intro i j hi hj before
    rwa [nodup_known.idxOf_getElem i hi, nodup_known.idxOf_getElem j hj]
  rw [atDistance]
  split
  · exact inOrder.filter _
  · exact .nil

theorem pairwise_near (name : String) : (near name).Pairwise (Precedes name) := by
  rw [near_eq, List.pairwise_flatMap]
  constructor
  · intro n _
    apply (pairwise_atDistance name n).imp_of_mem
    intro s t memS memT before
    obtain ⟨-, apart, -⟩ := mem_atDistance.mp memS
    obtain ⟨-, apart', -⟩ := mem_atDistance.mp memT
    exact ⟨n, n, apart, apart', .inr ⟨rfl, before⟩⟩
  · apply List.pairwise_lt_range.imp
    intro m n nearer s memS t memT
    obtain ⟨-, apart, -⟩ := mem_atDistance.mp memS
    obtain ⟨-, apart', -⟩ := mem_atDistance.mp memT
    exact ⟨m, n, apart, apart', .inl nearer⟩

theorem Precedes.ne (precedes : Precedes name first second) : first ≠ second := by
  rintro rfl
  obtain ⟨m, n, apart, apart', nearer | ⟨-, before⟩⟩ := precedes
  · exact Nat.ne_of_lt nearer (apart.unique apart')
  · exact Nat.lt_irrefl _ before

theorem nodup_near (name : String) : (near name).Nodup := (pairwise_near name).imp Precedes.ne

/-- A known name is suggested for itself, and those that are as near are in the order of the table. -/
example : near "tan" = ["tan", "sin", "tg", "ln"] := by decide +kernel

end Suggestion
end Fluxion
