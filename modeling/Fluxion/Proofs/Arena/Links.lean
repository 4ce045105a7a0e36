import Fluxion.Proofs.Arena.Reachability
/- The links of an arena. `IsLinked` says, in terms of slots and links alone, what holds of an arena
   whatever is done with it: the links of the slots in use go both ways and never in circles, the
   two operands of a node are different, released slots have no links, and the root, once it is set,
   hangs on nothing.

   Such an arena is a forest (`IsForest`): layouts of their own hold all slots in use, next to each
   other and below no parent. This module leads from the layouts to the links (`IsForest.isLinked`).
   A link goes from a tree to a larger one (`IsForest.lt_of_leadsTo`), which is why there are no
   circles; and the slots in use are those of the layouts (`IsForest.live_iff`), so their number is
   that of the nodes. The way back is in `Fluxion.Proofs.Arena.Forest`. -/
namespace Fluxion

theorem Layout.size_tree (L : Layout) : L.tree.size = L.slots.length := by
  induction L with
  | absent => rfl
  | node slot kind span left right ihLeft ihRight =>
    simp only [tree, Tree.size, slots_node, List.length_append, List.length_singleton, ihLeft,
      ihRight]

namespace Arena

/-! ## By slots and links -/

/-- The slot is in use. -/
def Live (a : Arena) (h : Handle) : Prop := h < a.nodes.size ∧ h ∉ a.free

/-- A node names a slot as one of its operands. -/
def IsOperand (a : Arena) (x h : Handle) : Prop := a.left? h = some x ∨ a.right? h = some x

/-- A parent link leads from one slot up to another. -/
def LeadsTo (a : Arena) (x p : Handle) : Prop := a.parent? x = some p

/-- What every operation keeps. Nothing is known of the root before it is set. -/
structure IsLinked (a : Arena) (rooted : Bool) : Prop where
  releasedOnce : a.free.Nodup
  released : ∀ h ∈ a.free, ∃ kind span, a.node? h = some { kind, span }
  operand : ∀ h x, a.Live h → a.IsOperand x h → a.Live x ∧ a.parent? x = some h
  distinct : ∀ h x, a.Live h → a.left? h = some x → a.right? h ≠ some x
  parent : ∀ h p, a.Live h → a.parent? h = some p → a.IsOperand h p
  acyclic : ∀ h, ¬Relation.TransGen a.LeadsTo h h
  root : rooted = true → a.Live a.root ∧ a.parent? a.root = none

/-- The number of nodes of the tree that is stored at a slot. -/
def sizeAt (a : Arena) (h : Option Handle) : Nat := ((h.bind a.tree?).map Tree.size).getD 0

/-! ## By layouts -/

/-- The layouts are stored below no parent, and every slot that is not one of theirs is
    released and has no links. The root, once set, is the topmost slot of one of them. -/
structure IsForest (a : Arena) (rooted : Bool) (trees : List Layout) : Prop where
  stores : ∀ L ∈ trees, a.Stores none L
  perm : (trees.flatMap Layout.slots ++ a.free).Perm (List.range a.nodes.size)
  cleared : ∀ h ∈ a.free, a.node? h = (a.node? h).map Node.cleared
  root : rooted = true → ∃ L ∈ trees, L.root? = some a.root

variable {a : Arena} {rooted : Bool} {trees : List Layout} {L : Layout} {parent : Option Handle}
  {h x p : Handle}

theorem Stores.tree?_eq (stores : a.Stores parent L) (nodup : L.slots.Nodup) (root : L.root? = some h) :
    a.tree? h = some L.tree := by
  rw [tree?, foldFrom, ← root, stores.foldWithin_eq _ _ (stores.length_le nodup), Layout.fold_tree]

theorem Stores.sizeAt_eq (stores : a.Stores parent L) (nodup : L.slots.Nodup) :
    a.sizeAt L.root? = L.slots.length := by
  cases root : L.root? with
  | none =>
    cases L with
    | absent => rfl
    | node => cases root
  | some h =>
    rw [sizeAt, Option.bind_some, stores.tree?_eq nodup root, Option.map_some, Option.getD_some,
      Layout.size_tree]

/-- A slot is the topmost one, or an operand of another. -/
theorem Stores.root?_or_operand (stores : a.Stores parent L) (mem : x ∈ L.slots) :
    L.root? = some x ∨ ∃ p ∈ L.slots, a.IsOperand x p ∧ a.parent? x = some p := by
  induction L generalizing parent with
  | absent => simp at mem
  | node slot kind span left right ihLeft ihRight =>
    simp only [Layout.slots_node, List.mem_append, List.mem_singleton] at mem
    obtain (inLeft | inRight) | rfl := mem
    · obtain root | ⟨p, inside, operand, link⟩ := ihLeft stores.2.1 inLeft
      · exact .inr ⟨slot, by simp, .inl (stores.left?_node.trans root), stores.2.1.parent?_root root⟩
      · exact .inr ⟨p, by simp [inside], operand, link⟩
    · obtain root | ⟨p, inside, operand, link⟩ := ihRight stores.2.2 inRight
      · exact .inr ⟨slot, by simp, .inr (stores.right?_node.trans root), stores.2.2.parent?_root root⟩
      · exact .inr ⟨p, by simp [inside], operand, link⟩
    · exact .inl rfl

/-- An operand of a slot is in the same layout, has a parent link and fewer nodes. -/
theorem Stores.operand (stores : a.Stores parent L) (nodup : L.slots.Nodup) (mem : h ∈ L.slots)
    (operand : a.IsOperand x h) :
    x ∈ L.slots ∧ a.parent? x = some h ∧ a.sizeAt (some x) < a.sizeAt (some h) := by
  obtain ⟨q, kind, span, left, right, stored, within⟩ := stores.exists_of_mem mem
  have nodup := nodup.sublist within.slots_sublist
  have size : a.sizeAt (some h) = _ := stored.sizeAt_eq nodup
  obtain ⟨nodupLeft, nodupRight, -⟩ := Layout.apart_of_nodup nodup
  simp only [Layout.slots_node, List.length_append, List.length_singleton] at size
  obtain onLeft | onRight := operand
  · rw [stored.left?_node] at onLeft
    have smaller := stored.2.1.sizeAt_eq nodupLeft
    rw [onLeft] at smaller
    refine ⟨within.slots_sublist.subset ?_, stored.2.1.parent?_root onLeft, by omega⟩
    simp [Layout.mem_slots_of_root? onLeft]
  · rw [stored.right?_node] at onRight
    have smaller := stored.2.2.sizeAt_eq nodupRight
    rw [onRight] at smaller
    refine ⟨within.slots_sublist.subset ?_, stored.2.2.parent?_root onRight, by omega⟩
    simp [Layout.mem_slots_of_root? onRight]

/-- The two operands of a slot are different. -/
theorem Stores.distinct (stores : a.Stores parent L) (nodup : L.slots.Nodup) (mem : h ∈ L.slots)
    (onLeft : a.left? h = some x) : a.right? h ≠ some x := by
  intro onRight
  obtain ⟨q, kind, span, left, right, stored, within⟩ := stores.exists_of_mem mem
  rw [stored.left?_node] at onLeft
  rw [stored.right?_node] at onRight
  have apart := Layout.apart_of_nodup (nodup.sublist within.slots_sublist)
  exact apart.2.2.1 x (Layout.mem_slots_of_root? onLeft) (Layout.mem_slots_of_root? onRight)

namespace IsForest

variable (forest : a.IsForest rooted trees)
include forest

/-- The order of the layouts does not matter. -/
theorem of_perm {trees' : List Layout} (perm : trees.Perm trees') : a.IsForest rooted trees' where
  stores L mem := forest.stores L (perm.mem_iff.mpr mem)
  perm := ((perm.flatMap_right Layout.slots).symm.append_right a.free).trans forest.perm
  cleared := forest.cleared
  root isRooted := by
    obtain ⟨L, mem, top⟩ := forest.root isRooted
    exact ⟨L, perm.mem_iff.mp mem, top⟩

theorem nodup : (trees.flatMap Layout.slots ++ a.free).Nodup :=
  forest.perm.nodup_iff.mpr List.nodup_range

theorem nodup_slots (mem : L ∈ trees) : L.slots.Nodup :=
  (List.nodup_flatMap.mp (List.nodup_append.mp forest.nodup).1).1 L mem

theorem tidy : a.Tidy where
  nodup := (List.nodup_append.mp forest.nodup).2.1
  bound _ mem := List.mem_range.mp (forest.perm.mem_iff.mp (List.mem_append_right _ mem))

theorem live_iff : a.Live h ↔ ∃ L ∈ trees, h ∈ L.slots := by
  have used : h < a.nodes.size ↔ (∃ L ∈ trees, h ∈ L.slots) ∨ h ∈ a.free := by
    rw [← List.mem_range, ← forest.perm.mem_iff, List.mem_append, List.mem_flatMap]
  constructor
  · rintro ⟨bound, notFree⟩
    exact (used.mp bound).resolve_right notFree
  · rintro ⟨L, mem, inside⟩
    refine ⟨used.mpr (.inl ⟨L, mem, inside⟩), fun inFree => ?_⟩
    exact (List.nodup_append.mp forest.nodup).2.2 h (List.mem_flatMap.mpr ⟨L, mem, inside⟩) h inFree rfl

/-- The number of slots in use is that of the slots of the layouts. -/
theorem size_eq : a.size = (trees.flatMap Layout.slots).length := by
  have lengths := forest.perm.length_eq
  simp only [List.length_append, List.length_range] at lengths
  rw [size]
  omega

/-- Only slots in use have a parent, and it is of a larger tree. -/
theorem lt_of_leadsTo (link : a.LeadsTo x p) :
    a.IsOperand x p ∧ a.sizeAt (some x) < a.sizeAt (some p) := by
  have linked : a.parent? x = some p := link
  have live : a.Live x := by
    refine ⟨?_, fun released => ?_⟩
    · rw [parent?] at linked
      cases found : a.node? x with
      | none => rw [found] at linked; cases linked
      | some node => exact lt_size_of_node? found
    · rw [parent?, forest.cleared x released] at linked
      cases found : a.node? x with
      | none => rw [found] at linked; cases linked
      | some node => rw [found] at linked; cases linked
  obtain ⟨L, mem, inside⟩ := forest.live_iff.mp live
  have stores := forest.stores L mem
  obtain root | ⟨q, above, operand, link'⟩ := stores.root?_or_operand inside
  · rw [stores.parent?_root root] at linked
    cases linked
  · rw [link'] at linked
    cases linked
    exact ⟨operand, (stores.operand (forest.nodup_slots mem) above operand).2.2⟩

theorem acyclic (h : Handle) : ¬Relation.TransGen a.LeadsTo h h := by
  have larger : ∀ x, Relation.TransGen a.LeadsTo h x → a.sizeAt (some h) < a.sizeAt (some x) := by
    intro x path
    induction path with
    | single link => exact (forest.lt_of_leadsTo link).2
    | tail _ link ih => exact ih.trans (forest.lt_of_leadsTo link).2
  exact fun circle => Nat.lt_irrefl _ (larger h circle)

/-- A forest is linked both ways. -/
theorem isLinked : a.IsLinked rooted where
  releasedOnce := forest.tidy.nodup
  released h mem := by
    have bound := forest.tidy.bound h mem
    have found : a.node? h = some a.nodes[h] := Array.getElem?_eq_getElem bound
    have cleared := forest.cleared h mem
    rw [found, Option.map_some, Option.some.injEq] at cleared
    refine ⟨a.nodes[h].kind, a.nodes[h].span, ?_⟩
    rw [found, cleared]
    rfl
  operand h x live operand := by
    obtain ⟨L, mem, inside⟩ := forest.live_iff.mp live
    obtain ⟨below, link, -⟩ := (forest.stores L mem).operand (forest.nodup_slots mem) inside operand
    exact ⟨forest.live_iff.mpr ⟨L, mem, below⟩, link⟩
  distinct h x live onLeft := by
    obtain ⟨L, mem, inside⟩ := forest.live_iff.mp live
    exact (forest.stores L mem).distinct (forest.nodup_slots mem) inside onLeft
  parent h p _ link := (forest.lt_of_leadsTo link).1
  acyclic := forest.acyclic
  root isRooted := by
    obtain ⟨L, mem, top⟩ := forest.root isRooted
    exact ⟨forest.live_iff.mpr ⟨L, mem, Layout.mem_slots_of_root? top⟩,
      (forest.stores L mem).parent?_root top⟩

end IsForest
end Arena
end Fluxion
