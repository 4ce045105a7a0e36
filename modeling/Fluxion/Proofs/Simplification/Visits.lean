import Fluxion.Proofs.Simplification.Locality
import Fluxion.Proofs.Simplification.Refinement
/- The slots that simplification is still to visit. The order of visits is fixed before the pass
   begins, and the pass releases slots and moves nodes. What a rewrite changes is strictly below
   its node (`Confined`), and what is strictly below a node comes before it in the order
   (`Holds.pairwise_slots`). So every slot ahead stays where it is, whatever has been visited
   (`Awaits`): a rewrite at the first of them keeps this (`Awaits.rewriteBy`), hence so does a
   visit (`Awaits.simplifyNode`) and any part of the pass (`Awaits.simplifyAll`). Of the arena it
   is only asked that it holds a tree; the tree may have any shape, and what is stored in other
   slots does not matter. -/
namespace Fluxion
namespace Arena

open Relation Simplification

variable {a b c : Arena} {parent : Option Handle} {h x y : Handle} {L M N : Layout}
  {edit : Edit} {todo rest : List Handle}

/-! ## Up and down in a tree -/

/-- What is below a slot of a layout is in the layout. -/
theorem Stores.mem_of_below (stores : a.Stores parent L) (nodup : L.slots.Nodup) (mem : x ∈ L.slots)
    (below : ReflTransGen a.IsOperand y x) : y ∈ L.slots := by
  induction below using ReflTransGen.head_induction_on with
  | refl => exact mem
  | head operand _ ih => exact (stores.operand nodup ih operand).1

/-- In post-order no slot is below one that comes before it. -/
theorem Stores.pairwise_slots (stores : a.Stores parent L) (nodup : L.slots.Nodup) :
    L.slots.Pairwise fun x y => ¬ReflTransGen a.IsOperand y x := by
  induction L generalizing parent with
  | absent => exact .nil
  | node slot kind span left right ihLeft ihRight =>
    obtain ⟨nodupLeft, nodupRight, apart, notLeft, notRight⟩ := Layout.apart_of_nodup nodup
    obtain ⟨-, storesLeft, storesRight⟩ := stores
    have onLeft := ihLeft storesLeft nodupLeft
    have onRight := ihRight storesRight nodupRight
    rw [Layout.slots_node, List.pairwise_append, List.pairwise_append]
    refine ⟨⟨onLeft, onRight, ?_⟩, List.pairwise_singleton _ _, ?_⟩
    · intro x inLeft y inRight below
      exact apart y (storesLeft.mem_of_below nodupLeft inLeft below) inRight
    · intro x inOperands y top below
      rw [List.mem_singleton.mp top] at below
      rcases List.mem_append.mp inOperands with inLeft | inRight
      · exact notLeft (storesLeft.mem_of_below nodupLeft inLeft below)
      · exact notRight (storesRight.mem_of_below nodupRight inRight below)

namespace Holds

variable (holds : a.Holds L)
include holds

/-- The links up from a slot of the tree stay in the tree and lead to larger trees. -/
theorem of_leadsTo (mem : x ∈ L.slots) (link : a.LeadsTo x y) :
    y ∈ L.slots ∧ a.IsOperand x y ∧ a.sizeAt (some x) < a.sizeAt (some y) := by
  have linked : a.parent? x = some y := link
  rcases holds.stores.root?_or_operand mem with root | ⟨p, inside, operand, link'⟩
  · rw [holds.stores.parent?_root root] at linked
    cases linked
  · rw [link'] at linked
    cases linked
    exact ⟨inside, operand, (holds.stores.operand holds.nodup_slots inside operand).2.2⟩

theorem of_path (mem : x ∈ L.slots) (path : ReflTransGen a.LeadsTo x y) :
    y ∈ L.slots ∧ ReflTransGen a.IsOperand x y ∧ a.sizeAt (some x) ≤ a.sizeAt (some y) := by
  induction path with
  | refl => exact ⟨mem, .refl, Nat.le_refl _⟩
  | tail _ link ih =>
    obtain ⟨inside, down, larger⟩ := ih
    obtain ⟨inside', operand, larger'⟩ := holds.of_leadsTo inside link
    exact ⟨inside', down.tail operand, by omega⟩

theorem acyclic (mem : x ∈ L.slots) : ¬TransGen a.LeadsTo x x := by
  intro circle
  obtain ⟨y, link, path⟩ := TransGen.head'_iff.mp circle
  obtain ⟨inside, -, larger⟩ := holds.of_leadsTo mem link
  obtain ⟨-, -, larger'⟩ := holds.of_path inside path
  omega

theorem pairwise_slots : L.slots.Pairwise fun x y => ¬ReflTransGen a.LeadsTo y x := by
  apply (holds.stores.pairwise_slots holds.nodup_slots).imp_of_mem
  intro x y _ inside apart path
  exact apart (holds.of_path inside path).2.1

theorem live (mem : x ∈ L.slots) : a.Live x := by
  refine ⟨holds.stores.lt_size mem, ?_⟩
  intro released
  exact (List.nodup_append.mp holds.nodup).2.2 x mem x released rfl

/-- Carrying out an answer that fits a slot of the tree changes the tree below the slot only. -/
theorem applyEdit (mem : h ∈ L.slots) (fits : edit.Fits a h) :
    Confined a (a.applyEdit h edit) h ∧ ∃ M, Reduces a (a.applyEdit h edit) none L M := by
  obtain ⟨q, kind, span, l, r, stored, within⟩ := holds.stores.exists_of_mem mem
  have nodup := holds.nodup_slots.sublist within.slots_sublist
  have hangs : a.parent? h = q := stored.parent?_root rfl
  obtain ⟨N, reduces, shorter⟩ := reduces_applyEdit fits stored nodup
  obtain ⟨M, changes, top, lengths⟩ :=
    Rearranges.of_reduces holds.stores holds.nodup_slots within reduces
  have whole : Reduces a (a.applyEdit h edit) none L M := by
    refine ⟨changes.stores M (List.mem_singleton_self M), top, changes.size, changes.root, ?_, ?_⟩
    · simpa using changes.frame
    · simpa using changes.free
  have fewer : (a.applyEdit h edit).size < a.size := by
    obtain ⟨released, free, perm, -⟩ := whole.free
    have counted := perm.length_eq
    have room := holds.length_add_le
    simp only [size, whole.size, free, List.length_append] at counted ⊢
    omega
  refine ⟨?_, M, whole⟩
  apply (hangs ▸ reduces q stored).confined (holds.live mem) rfl nodup
  · intro x inside
    exact stored.leadsTo_root inside rfl
  · -- A parent of the slot among the slots below it would close a circle.
    intro p above inside
    exact holds.acyclic mem (.head' above (stored.leadsTo_root inside rfl))
  · exact fewer

end Holds

/-! ## What a rewrite leaves alone -/

/-- A slot that is in use and reachable in `b` and hangs where it hung in `a`. -/
structure InPlace (a b : Arena) (x : Handle) : Prop where
  live : b.Live x
  reachable : b.Reachable x
  parent : b.parent? x = a.parent? x
  isLeft : b.isLeft x = a.isLeft x
  isRight : b.isRight x = a.isRight x

theorem InPlace.trans (first : InPlace a b x) (second : InPlace b c x) : InPlace a c x :=
  ⟨second.live, second.reachable, second.parent.trans first.parent,
    second.isLeft.trans first.isLeft, second.isRight.trans first.isRight⟩

namespace Confined

variable (confined : Confined a b h)
include confined

/-- A slot that is not strictly below the node hangs where it hung. -/
theorem parent_eq (outside : ¬TransGen a.LeadsTo x h) : b.parent? x = a.parent? x := by
  by_cases same : x = h
  · rw [same]
    exact confined.parent
  · have frame := confined.frame x fun below =>
      outside ((reflTransGen_iff_eq_or_transGen.mp below).resolve_left (Ne.symm same))
    rw [parent?, parent?, frame]

/-- Paths up from such a slot were there before. -/
theorem path_of_path (outside : ¬TransGen a.LeadsTo x h) (path : ReflTransGen b.LeadsTo x y) :
    ReflTransGen a.LeadsTo x y := by
  induction path using ReflTransGen.head_induction_on with
  | refl => exact .refl
  | head link _ ih =>
    rw [LeadsTo, confined.parent_eq outside] at link
    exact .head link (ih fun below => outside (.head link below))

theorem inPlace (holds : a.Holds L) (reduces : Reduces a b none L M) (mem : x ∈ L.slots)
    (outside : ¬TransGen a.LeadsTo x h) : InPlace a b x := by
  have after := reduces.holds holds
  obtain ⟨released, free, perm, -⟩ := reduces.free
  obtain ⟨released', free', below⟩ := confined.released
  obtain rfl : released = released' := List.append_cancel_right (free.symm.trans free')
  have kept : x ∈ M.slots := by
    rcases List.mem_append.mp (perm.mem_iff.mpr mem) with gone | kept
    · exact absurd (below x gone) outside
    · exact kept
  have parent := confined.parent_eq outside
  -- The parent is neither the node itself nor below it.
  have frame : ∀ p, a.parent? x = some p → b.node? p = a.node? p := by
    intro p above
    exact confined.frame p fun path => outside (.head' above path)
  refine ⟨after.live kept, after.reachable_iff.mpr kept, parent, ?_, ?_⟩
  · rw [Arena.isLeft, Arena.isLeft, parent]
    cases above : a.parent? x with
    | none => rfl
    | some p => simp only [Option.any_some, left?, frame p above]
  · rw [Arena.isRight, Arena.isRight, parent]
    cases above : a.parent? x with
    | none => rfl
    | some p => simp only [Option.any_some, right?, frame p above]

end Confined

/-! ## The pass -/

/-- Between `a` and `b` some slots of the tree `L` have been visited, and `todo` is still to be
    visited: these slots are in place, and none is below one that comes before it. -/
structure Awaits (a b : Arena) (L M : Layout) (todo : List Handle) : Prop where
  reduces : Reduces a b none L M
  place : ∀ k ∈ todo, InPlace a b k
  ordered : todo.Pairwise fun x y => ¬ReflTransGen b.LeadsTo y x

namespace Awaits

theorem start (holds : a.Holds L) : Awaits a a L L L.slots where
  reduces := .refl holds.stores
  place _ mem := ⟨holds.live mem, holds.reachable_iff.mpr mem, rfl, rfl, rfl⟩
  ordered := holds.pairwise_slots

/-- One may as well begin in the midst of the pass. -/
theorem restart (awaits : Awaits a b L M todo) : Awaits b b M M todo where
  reduces := .refl awaits.reduces.stores
  place k mem := ⟨(awaits.place k mem).live, (awaits.place k mem).reachable, rfl, rfl, rfl⟩
  ordered := awaits.ordered

theorem tail (awaits : Awaits a b L M (h :: rest)) : Awaits a b L M rest where
  reduces := awaits.reduces
  place k mem := awaits.place k (List.mem_cons_of_mem h mem)
  ordered := (List.pairwise_cons.mp awaits.ordered).2

/-- A rewrite at the first slot to visit keeps all of them in place. -/
theorem rewriteBy (holds : a.Holds L) (awaits : Awaits a b L M (h :: rest)) {rule : Rule}
    (fitting : rule.IsFitting) : ∃ N, Awaits a (b.rewriteBy rule h).2 L N (h :: rest) := by
  cases found : rule b h with
  | none =>
    rw [rewriteBy_of_none found]
    exact ⟨M, awaits⟩
  | some rewrite =>
    rw [rewriteBy_of_some found]
    have before := awaits.reduces.holds holds
    have inside : ∀ k ∈ h :: rest, k ∈ M.slots := fun k mem =>
      before.reachable_iff.mp (awaits.place k mem).reachable
    have top := inside h List.mem_cons_self
    obtain ⟨confined, N, reduces⟩ := before.applyEdit top (fitting b h rewrite found)
    have outside : ∀ k ∈ h :: rest, ¬TransGen b.LeadsTo k h := by
      intro k mem below
      rcases List.mem_cons.mp mem with rfl | later
      · exact before.acyclic top below
      · exact (List.pairwise_cons.mp awaits.ordered).1 k later below.to_reflTransGen
    refine ⟨N, awaits.reduces.trans reduces holds.nodup_slots, ?_, ?_⟩
    · intro k mem
      exact (awaits.place k mem).trans
        (confined.inPlace before reduces (inside k mem) (outside k mem))
    · apply awaits.ordered.imp_of_mem
      intro x y _ mem apart path
      exact apart (confined.path_of_path (outside y mem) path)

theorem simplifyNode (holds : a.Holds L) (awaits : Awaits a b L M (h :: rest)) :
    ∃ N, Awaits a (b.simplifyNode h).2 L N (h :: rest) := by
  have fitting : Rule.IsFitting rewrite? := Rule.isFitting_of_mem rewrite? (by simp [rules])
  obtain ⟨N, first⟩ := awaits.rewriteBy holds fitting
  obtain ⟨N', second⟩ := first.rewriteBy holds fitting
  rw [Arena.simplifyNode]
  dsimp only
  split
  · exact ⟨N', second⟩
  · exact ⟨N, first⟩

/-- A part of the pass keeps what comes behind it in place. -/
theorem simplifyAll (holds : a.Holds L) (visited : List Handle)
    (awaits : Awaits a b L M (visited ++ todo)) :
    ∃ N, Awaits a (b.simplifyAll visited).2 L N todo := by
  induction visited generalizing b M with
  | nil => exact ⟨M, awaits⟩
  | cons h rest ih =>
    obtain ⟨N, first⟩ := awaits.simplifyNode holds
    exact ih first.tail

/-- What a part of the pass releases is among the slots visited before its end. -/
theorem released (awaits : Awaits a b L M todo) :
    ∃ released, b.free = released ++ a.free ∧ ∀ x ∈ released, x ∈ L.slots ∧ x ∉ todo := by
  obtain ⟨released, free, perm, -⟩ := awaits.reduces.free
  refine ⟨released, free, ?_⟩
  intro x gone
  refine ⟨perm.mem_iff.mp (List.mem_append_left _ gone), ?_⟩
  intro ahead
  exact (awaits.place x ahead).live.2 (free ▸ List.mem_append_left _ gone)

end Awaits

/-- Whenever simplification visits a slot, it and every slot behind it in the order are in use,
    reachable from the root, and operands of the nodes that they were operands of at the beginning,
    on the same side. So it is when a fused product is looked at again. No slot is taken
    in between: there are no new ones, and the released ones only become more, by slots that have
    been visited. -/
theorem visits_find_slots_in_place (holds : a.Holds L) :
    (∀ visited h rest, a.postOrder = visited ++ h :: rest → ∀ k ∈ h :: rest,
      InPlace a (a.simplifyAll visited).2 k ∧
        InPlace a ((a.simplifyAll visited).2.rewriteBy rewrite? h).2 k) ∧
    ∀ first second rest, a.postOrder = first ++ second ++ rest →
      (a.simplifyAll (first ++ second)).2.nodes.size = (a.simplifyAll first).2.nodes.size ∧
      ∃ released, (a.simplifyAll (first ++ second)).2.free =
          released ++ (a.simplifyAll first).2.free ∧ ∀ x ∈ released, x ∈ first ++ second := by
  rw [holds.postOrder_eq]
  have start := Awaits.start holds
  constructor
  · intro visited h rest split k mem
    rw [split] at start
    obtain ⟨M, awaits⟩ := start.simplifyAll holds visited
    have fitting : Rule.IsFitting rewrite? := Rule.isFitting_of_mem rewrite? (by simp [rules])
    obtain ⟨N, between⟩ := awaits.rewriteBy holds fitting
    exact ⟨awaits.place k mem, between.place k mem⟩
  · intro first second rest split
    rw [split, List.append_assoc] at start
    obtain ⟨M, awaits⟩ := start.simplifyAll holds first
    have before := awaits.reduces.holds holds
    obtain ⟨N, later⟩ := awaits.restart.simplifyAll before second
    obtain ⟨released, free, visited⟩ := later.released
    rw [simplifyAll_append]
    refine ⟨later.reduces.size, released, free, ?_⟩
    intro x gone
    have inTree : x ∈ first ++ second ++ rest :=
      split ▸ awaits.reduces.mem_of_mem (visited x gone).1
    exact (List.mem_append.mp inTree).resolve_right (visited x gone).2

theorem visits_find_slots_in_place_scattered :
    InPlace scattered (scattered.simplifyAll [6, 2, 4]).2 0 ∧
    InPlace scattered ((scattered.simplifyAll [6, 2, 4, 5, 1, 0]).2.rewriteBy rewrite? 7).2 7 ∧
    ∃ released, scattered.simplify.2.free = released ++ [8, 3] ∧
      ∀ x ∈ released, x ∈ [6, 2, 4, 5, 1, 0, 7] := by
  have order : scattered.postOrder = [6, 2, 4, 5, 1, 0, 7] := holds_scattered.postOrder_eq
  obtain ⟨inPlace, noneTaken⟩ := visits_find_slots_in_place holds_scattered
  refine ⟨(inPlace [6, 2, 4] 5 [1, 0, 7] order 0 (by simp)).1,
    (inPlace [6, 2, 4, 5, 1, 0] 7 [] order 7 (by simp)).2, ?_⟩
  rw [simplify, order]
  exact (noneTaken [] [6, 2, 4, 5, 1, 0, 7] [] order).2

end Arena
end Fluxion
