import Fluxion.Suggestion
import Mathlib.Data.List.Forall2
import Mathlib.Order.Bounds.Basic
/- The edit distance against all ways to edit. `Edits n u v`: some `n` edits, made one after the
   other and anywhere in the word, turn `u` into `v`. Nothing bounds the words in between, so the
   least `n` is not found by search; but every way to edit comes down to an alignment, which goes
   over both words once, from left to right (`Aligned`), at no greater cost (`Edits.aligned`). The
   one fact behind this is that an edit in front of an alignment costs at most one more
   (`Aligned.edit`). For alignments the least cost obeys the equations that the rows are computed
   by (`Apart.keep`, `Apart.differ`), so each entry of a row is a distance (`isRow_row`). -/
namespace Fluxion
namespace Suggestion

/-- A single character is inserted, deleted or replaced. -/
inductive Edit : List Char → List Char → Prop where
  | insert (before : List Char) (c : Char) (behind : List Char) :
      Edit (before ++ behind) (before ++ c :: behind)
  | delete (before : List Char) (c : Char) (behind : List Char) :
      Edit (before ++ c :: behind) (before ++ behind)
  | substitute (before : List Char) (c d : Char) (behind : List Char) :
      Edit (before ++ c :: behind) (before ++ d :: behind)

/-- So many edits, one after the other, turn the first word into the second. -/
inductive Edits : Nat → List Char → List Char → Prop where
  | done (u : List Char) : Edits 0 u u
  | edit {n : Nat} {u v w : List Char} (first : Edit u v) (others : Edits n v w) :
      Edits (n + 1) u w

/-- The least number of edits that turn the first word into the second. -/
def Apart (n : Nat) (u v : List Char) : Prop := IsLeast {k | Edits k u v} n

/-- Two words gone over side by side. Characters that are not kept are replaced, inserted or
    deleted, and each of these costs one. -/
inductive Aligned : Nat → List Char → List Char → Prop where
  | nil : Aligned 0 [] []
  | keep {n : Nat} {u v : List Char} (c : Char) (rest : Aligned n u v) :
      Aligned n (c :: u) (c :: v)
  | substitute {n : Nat} {u v : List Char} (c d : Char) (rest : Aligned n u v) :
      Aligned (n + 1) (c :: u) (d :: v)
  | insert {n : Nat} {u v : List Char} (c : Char) (rest : Aligned n u v) :
      Aligned (n + 1) u (c :: v)
  | delete {n : Nat} {u v : List Char} (c : Char) (rest : Aligned n u v) :
      Aligned (n + 1) (c :: u) v

variable {a b c : Char} {u v w word : List Char} {k l m n : Nat}

/-! ## Edits -/

/-- An edit of the rest of a word is one of the word. -/
theorem Edit.cons (c : Char) (edit : Edit u v) : Edit (c :: u) (c :: v) := by
  cases edit with
  | insert before d behind => exact .insert (c :: before) d behind
  | delete before d behind => exact .delete (c :: before) d behind
  | substitute before d e behind => exact .substitute (c :: before) d e behind

/-- An edit is made at the front of what comes out, or in the rest of it. -/
theorem Edit.cases_cons (edit : Edit u (a :: v)) : u = v ∨ (∃ c, u = c :: a :: v) ∨
    (∃ c, u = c :: v) ∨ ∃ rest, u = a :: rest ∧ Edit rest v := by
  generalize out : a :: v = w at edit
  cases edit with
  | insert before c behind =>
    cases before with
    | nil =>
      cases out
      exact .inl rfl
    | cons d before =>
      cases out
      exact .inr (.inr (.inr ⟨_, rfl, .insert before c behind⟩))
  | delete before c behind =>
    cases before with
    | nil =>
      cases out
      exact .inr (.inl ⟨c, rfl⟩)
    | cons d before =>
      cases out
      exact .inr (.inr (.inr ⟨_, rfl, .delete before c behind⟩))
  | substitute before c d behind =>
    cases before with
    | nil =>
      cases out
      exact .inr (.inr (.inl ⟨c, rfl⟩))
    | cons e before =>
      cases out
      exact .inr (.inr (.inr ⟨_, rfl, .substitute before c d behind⟩))

/-- Only a single character is edited into nothing. -/
theorem Edit.to_nil (edit : Edit u []) : ∃ c, u = [c] := by
  generalize out : ([] : List Char) = w at edit
  cases edit with
  | insert before c behind => simp at out
  | substitute before c d behind => simp at out
  | delete before c behind =>
    obtain ⟨rfl, rfl⟩ := List.append_eq_nil_iff.mp out.symm
    exact ⟨c, rfl⟩

theorem Edits.cons (c : Char) (edits : Edits n u v) : Edits n (c :: u) (c :: v) := by
  induction edits with
  | done u => exact .done (c :: u)
  | edit first _ ih => exact .edit (first.cons c) ih

/-! ## Alignments -/

theorem Aligned.refl (u : List Char) : Aligned 0 u u := by
  induction u with
  | nil => exact .nil
  | cons c u ih => exact .keep c ih

theorem Aligned.symm (aligned : Aligned n u v) : Aligned n v u := by
  induction aligned with
  | nil => exact .nil
  | keep c _ ih => exact .keep c ih
  | substitute c d _ ih => exact .substitute d c ih
  | insert c _ ih => exact .delete c ih
  | delete c _ ih => exact .insert c ih

/-- An alignment says which edits to make. -/
theorem Aligned.edits (aligned : Aligned n u v) : Edits n u v := by
  induction aligned with
  | nil => exact .done []
  | keep c _ ih => exact ih.cons c
  | @substitute n u v c d _ ih => exact .edit (.substitute [] c d u) (ih.cons d)
  | @insert n u v c _ ih => exact .edit (.insert [] c u) (ih.cons c)
  | @delete n u v c _ ih => exact .edit (.delete [] c u) ih

/-- An edit in front of an alignment makes it cost at most one more. -/
theorem Aligned.edit (aligned : Aligned n v w) (edit : Edit u v) :
    ∃ m ≤ n + 1, Aligned m u w := by
  -- By induction on the alignment: it tells what becomes of the character that was edited.
  induction aligned generalizing u with
  | nil =>
    obtain ⟨c, rfl⟩ := edit.to_nil
    exact ⟨1, Nat.le_refl 1, .delete c .nil⟩
  | @insert n v w c rest ih =>
    obtain ⟨m, bound, aligned⟩ := ih edit
    exact ⟨m + 1, by omega, .insert c aligned⟩
  | @keep n v w c rest ih =>
    rcases edit.cases_cons with rfl | ⟨d, rfl⟩ | ⟨d, rfl⟩ | ⟨u, rfl, later⟩
    · exact ⟨n + 1, Nat.le_refl _, .insert c rest⟩
    · exact ⟨n + 1, Nat.le_refl _, .delete d (.keep c rest)⟩
    · exact ⟨n + 1, Nat.le_refl _, .substitute d c rest⟩
    · obtain ⟨m, bound, aligned⟩ := ih later
      exact ⟨m, bound, .keep c aligned⟩
  | @substitute n v w c d rest ih =>
    rcases edit.cases_cons with rfl | ⟨e, rfl⟩ | ⟨e, rfl⟩ | ⟨u, rfl, later⟩
    · exact ⟨n + 1, by omega, .insert d rest⟩
    · exact ⟨n + 2, by omega, .delete e (.substitute c d rest)⟩
    · exact ⟨n + 1, by omega, .substitute e d rest⟩
    · obtain ⟨m, bound, aligned⟩ := ih later
      exact ⟨m + 1, by omega, .substitute c d aligned⟩
  | @delete n v w c rest ih =>
    rcases edit.cases_cons with rfl | ⟨d, rfl⟩ | ⟨d, rfl⟩ | ⟨u, rfl, later⟩
    · exact ⟨n, by omega, rest⟩
    · exact ⟨n + 2, by omega, .delete d (.delete c rest)⟩
    · exact ⟨n + 1, by omega, .delete d rest⟩
    · obtain ⟨m, bound, aligned⟩ := ih later
      exact ⟨m + 1, by omega, .delete c aligned⟩

/-- However a word is edited, an alignment costs no more. -/
theorem Edits.aligned (edits : Edits n u v) : ∃ m ≤ n, Aligned m u v := by
  induction edits with
  | done u => exact ⟨0, Nat.le_refl 0, .refl u⟩
  | @edit n u v w first _ ih =>
    obtain ⟨m, bound, aligned⟩ := ih
    obtain ⟨l, bound', aligned⟩ := aligned.edit first
    exact ⟨l, by omega, aligned⟩

/-- What is added to one of the words is saved, but for one edit. -/
theorem Aligned.drop (aligned : Aligned n (a :: u) v) : ∃ m ≤ n + 1, Aligned m u v :=
  aligned.edit (.insert [] a u)

/-! ## The least cost -/

/-- A distance is the cost of an alignment, and none costs less. -/
theorem apart_iff : Apart n u v ↔ Aligned n u v ∧ ∀ m, Aligned m u v → n ≤ m := by
  constructor
  · rintro ⟨edits, least⟩
    obtain ⟨m, bound, aligned⟩ := edits.aligned
    have same : m = n := Nat.le_antisymm bound (least aligned.edits)
    exact ⟨same ▸ aligned, fun k other => least other.edits⟩
  · rintro ⟨aligned, least⟩
    refine ⟨aligned.edits, fun k edits => ?_⟩
    obtain ⟨m, bound, other⟩ := edits.aligned
    exact (least m other).trans bound

theorem Apart.unique (apart : Apart m u v) (apart' : Apart n u v) : m = n :=
  IsLeast.unique apart apart'

theorem apart_nil (v : List Char) : Apart v.length [] v := by
  rw [apart_iff]
  constructor
  · induction v with
    | nil => exact .nil
    | cons c v ih => exact .insert c ih
  · intro m aligned
    generalize nothing : ([] : List Char) = u at aligned
    induction aligned with
    | nil => exact Nat.le_refl 0
    | insert c _ ih => exact Nat.succ_le_succ (ih nothing)
    | keep | substitute | delete => cases nothing

/-- Where nothing is left of the second word, the rest of the first one is deleted. -/
theorem Apart.delete (apart : Apart n u []) (a : Char) : Apart (n + 1) (a :: u) [] := by
  rw [apart_iff] at apart ⊢
  obtain ⟨aligned, least⟩ := apart
  refine ⟨.delete a aligned, ?_⟩
  intro m other
  cases other with
  | delete _ rest => exact Nat.succ_le_succ (least _ rest)

/-- Characters that are the same are kept. -/
theorem Apart.keep (apart : Apart n u v) (a : Char) : Apart n (a :: u) (a :: v) := by
  rw [apart_iff] at apart ⊢
  obtain ⟨aligned, least⟩ := apart
  refine ⟨.keep a aligned, ?_⟩
  intro m other
  cases other with
  | keep _ rest => exact least m rest
  | substitute _ _ rest => exact (least _ rest).trans (Nat.le_succ _)
  | insert _ rest =>
    obtain ⟨k, bound, shorter⟩ := rest.drop
    exact (least k shorter).trans bound
  | delete _ rest =>
    obtain ⟨k, bound, shorter⟩ := rest.symm.drop
    exact (least k shorter.symm).trans bound

/-- Of characters that differ, one is replaced, deleted or inserted, whichever is best. -/
theorem Apart.differ (both : Apart k u v) (skipFirst : Apart l u (b :: v))
    (skipSecond : Apart m (a :: u) v) (differ : a ≠ b) :
    Apart (1 + min k (min l m)) (a :: u) (b :: v) := by
  rw [apart_iff] at both skipFirst skipSecond ⊢
  obtain ⟨substitutes, least⟩ := both
  obtain ⟨deletes, least'⟩ := skipFirst
  obtain ⟨inserts, least''⟩ := skipSecond
  constructor
  · have best : min k (min l m) = k ∨ min k (min l m) = l ∨ min k (min l m) = m := by omega
    rw [Nat.add_comm]
    rcases best with best | best | best
    · rw [best]
      exact .substitute a b substitutes
    · rw [best]
      exact .delete a deletes
    · rw [best]
      exact .insert b inserts
  · intro n other
    cases other with
    | keep => exact absurd rfl differ
    | substitute _ _ rest =>
      have := least _ rest
      omega
    | delete _ rest =>
      have := least' _ rest
      omega
    | insert _ rest =>
      have := least'' _ rest
      omega

/-! ## Rows -/

/-- The distances of a word to each suffix of another, longest suffix first. -/
def IsRow (word second : List Char) (distances : List Nat) : Prop :=
  List.Forall₂ (fun suffix n => Apart n word suffix) second.tails distances

theorem IsRow.headD {second : List Char} {distances : List Nat}
    (isRow : IsRow word second distances) : Apart (distances.headD 0) word second := by
  cases second with
  | nil =>
    cases isRow with
    | cons apart => exact apart
  | cons b rest =>
    cases isRow with
    | cons apart => exact apart

/-- From one row to the next. -/
theorem IsRow.nextRow {second : List Char} {below : List Nat} (isRow : IsRow word second below)
    (a : Char) : IsRow (a :: word) second (nextRow a second below) := by
  induction second generalizing below with
  | nil =>
    cases isRow with
    | cons apart rest =>
      cases rest
      exact .cons (apart.delete a) .nil
  | cons b second ih =>
    cases isRow with
    | @cons _ n _ below skipFirst rest =>
      have both : IsRow word second below := rest
      have onward := ih both
      refine .cons ?_ onward
      split
      · next same =>
        subst same
        exact both.headD.keep a
      · next differ => exact both.headD.differ skipFirst onward.headD differ

/-- Every row holds distances. -/
theorem isRow_row (second word : List Char) : IsRow word second (row second word) := by
  induction word with
  | nil =>
    induction second with
    | nil => exact .cons (apart_nil []) .nil
    | cons b second ih =>
      rw [row, List.length_cons, List.range_succ, List.reverse_append]
      exact .cons (apart_nil (b :: second)) ih
  | cons a word ih => exact ih.nextRow a

/-- The edit distance is the least number of insertions, deletions and substitutions of single
    characters that turn the one word into the other. -/
theorem apart_editDistance (first second : List Char) :
    Apart (editDistance first second) first second :=
  (isRow_row second first).headD

end Suggestion
end Fluxion
