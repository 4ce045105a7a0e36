import Fluxion.Proofs.Arena.Building
import Fluxion.Proofs.Arena.Reduction
import Fluxion.Proofs.Tree.Every
import Mathlib.Data.Set.Card
/- What the links of an arena lead to. `IsConsistent` says, in terms of slots and links alone, that
   the nodes reachable from the root form a tree whose nodes have the operands that their kinds ask
   for, that parameters have their entry in a table of the given size, and that every other slot is
   released, and released once.

   Layouts are brought in for the proof only. A layout has one below it for every slot (`Within`,
   `Stores.exists_of_mem`), so the slots that links lead to are those of the layout of the tree
   (`Holds.reachable_iff`). An arena that is filled by a layout, so that each of its slots is used
   by the layout or released, is consistent (`Fills.isConsistent`). Building makes such arenas, and
   reductions keep them (`Reduces.fills`). -/
namespace Fluxion
namespace Arena

/-! ## By slots and links -/

/-- Links lead from the root to the slot. -/
inductive Reachable (a : Arena) : Handle → Prop where
  | root : a.Reachable a.root
  | left {h x : Handle} (above : a.Reachable h) (link : a.left? h = some x) : a.Reachable x
  | right {h x : Handle} (above : a.Reachable h) (link : a.right? h = some x) : a.Reachable x

/-- The node has the operands that its kind asks for. -/
def Node.IsComplete (node : Node) : Prop :=
  match node.kind with
  | .operator (.binary .sub) => node.right.isSome
  | .operator (.binary _) => node.left.isSome ∧ node.right.isSome
  | .operator (.apply _) => node.left = none ∧ node.right.isSome
  | _ => node.left = none ∧ node.right = none

/-- The nodes in use are a tree of complete nodes, parameters have indexes below `params`,
    and all other slots are released. -/
structure IsConsistent (a : Arena) (params : Nat) : Prop where
  stored : ∀ h, a.Reachable h → (a.node? h).isSome
  parent_root : a.parent? a.root = none
  parent_operand : ∀ h x, a.Reachable h → a.left? h = some x ∨ a.right? h = some x →
    a.parent? x = some h
  unshared : ∀ h x, a.Reachable h → a.left? h = some x → a.right? h ≠ some x
  complete : ∀ h node, a.Reachable h → a.node? h = some node → node.IsComplete
  bounded : ∀ h index, a.Reachable h → a.kind? h = some (.param index) → index < params
  size : a.size = {h | a.Reachable h}.ncard
  releasedOnce : a.free.Nodup
  released : ∀ h, h ∈ a.free ↔ h < a.nodes.size ∧ ¬a.Reachable h

end Arena

/-! ## By layouts -/

namespace Layout

/-- `M` is `L` or is below a node of it. -/
inductive Within (M : Layout) : Layout → Prop where
  | here : Within M M
  | left {slot : Handle} {kind : Kind} {span : Span} {left right : Layout}
      (within : Within M left) : Within M (.node slot kind span left right)
  | right {slot : Handle} {kind : Kind} {span : Span} {left right : Layout}
      (within : Within M right) : Within M (.node slot kind span left right)

variable {L M : Layout}

/-- Every slot is the topmost one of a layout within. -/
theorem exists_within_of_mem {h : Handle} (mem : h ∈ L.slots) :
    ∃ kind span left right, Within (.node h kind span left right) L := by
  induction L with
  | absent => simp at mem
  | node slot kind span left right ihLeft ihRight =>
    simp only [slots_node, List.mem_append, List.mem_singleton] at mem
    obtain (inLeft | inRight) | rfl := mem
    · obtain ⟨k, s, l, r, within⟩ := ihLeft inLeft
      exact ⟨k, s, l, r, .left within⟩
    · obtain ⟨k, s, l, r, within⟩ := ihRight inRight
      exact ⟨k, s, l, r, .right within⟩
    · exact ⟨kind, span, left, right, .here⟩

theorem Within.slots_sublist (within : Within M L) : M.slots.Sublist L.slots := by
  induction within with
  | here => exact .refl _
  | left _ ih =>
    rw [slots_node, List.append_assoc]
    exact ih.trans (List.sublist_append_left _ _)
  | right _ ih =>
    rw [slots_node, List.append_assoc]
    exact ih.trans ((List.sublist_append_left _ _).trans (List.sublist_append_right _ _))

theorem Within.wellShaped (within : Within M L) (there : M ≠ .absent) (shaped : L.tree.WellShaped) :
    M.tree.WellShaped := by
  -- An operand that has a node within is not missing.
  have missing : ∀ {N : Layout}, Within M N → N.tree ≠ .absent := by
    intro N within same
    cases N with
    | absent => cases within; exact there rfl
    | node => cases same
  induction within with
  | here => exact shaped
  | left within ih => exact ih (shaped.operands.1.resolve_left (missing within))
  | right within ih => exact ih (shaped.operands.2.resolve_left (missing within))

theorem Within.every {p : Kind → Tree → Tree → Prop} (within : Within M L) (every : L.tree.Every p) :
    M.tree.Every p := by
  induction within with
  | here => exact every
  | left _ ih => exact ih every.2.1
  | right _ ih => exact ih every.2.2

end Layout

namespace Arena

variable {a b : Arena} {L M : Layout} {parent : Option Handle}

theorem Stores.within (stores : a.Stores parent L) (within : M.Within L) :
    ∃ parent, a.Stores parent M := by
  induction within generalizing parent with
  | here => exact ⟨parent, stores⟩
  | left _ ih => exact ih stores.2.1
  | right _ ih => exact ih stores.2.2

/-- What is stored in a slot of the layout, with the operands' layouts. -/
theorem Stores.exists_of_mem (stores : a.Stores parent L) {h : Handle} (mem : h ∈ L.slots) :
    ∃ q kind span left right, a.Stores q (.node h kind span left right) ∧
      (Layout.node h kind span left right).Within L := by
  obtain ⟨kind, span, left, right, within⟩ := Layout.exists_within_of_mem mem
  obtain ⟨q, stored⟩ := stores.within within
  exact ⟨q, kind, span, left, right, stored, within⟩

theorem Stores.left?_node {q : Option Handle} {h : Handle} {kind : Kind} {span : Span}
    {left right : Layout} (stores : a.Stores q (.node h kind span left right)) :
    a.left? h = left.root? := by
  rw [left?, stores.1, Option.bind_some]

theorem Stores.right?_node {q : Option Handle} {h : Handle} {kind : Kind} {span : Span}
    {left right : Layout} (stores : a.Stores q (.node h kind span left right)) :
    a.right? h = right.root? := by
  rw [right?, stores.1, Option.bind_some]

theorem Stores.parent?_root (stores : a.Stores parent L) {h : Handle} (root : L.root? = some h) :
    a.parent? h = parent := by
  cases L with
  | absent => cases root
  | node slot kind span left right =>
    cases root
    rw [parent?, stores.1, Option.bind_some]

/-- The slots that links lead to are those of the layout. -/
theorem Holds.reachable_iff (holds : a.Holds L) {h : Handle} : a.Reachable h ↔ h ∈ L.slots := by
  constructor
  · intro reachable
    induction reachable with
    | root => exact Layout.mem_slots_of_root? holds.root
    | left _ link ih =>
      obtain ⟨q, kind, span, left, right, stored, within⟩ := holds.stores.exists_of_mem ih
      rw [stored.left?_node] at link
      exact within.slots_sublist.subset (by simp [Layout.mem_slots_of_root? link])
    | right _ link ih =>
      obtain ⟨q, kind, span, left, right, stored, within⟩ := holds.stores.exists_of_mem ih
      rw [stored.right?_node] at link
      exact within.slots_sublist.subset (by simp [Layout.mem_slots_of_root? link])
  · -- From a reachable topmost slot all slots of a layout are reachable.
    have all : ∀ {M : Layout} {q : Option Handle}, a.Stores q M →
        (∀ x, M.root? = some x → a.Reachable x) → ∀ y ∈ M.slots, a.Reachable y := by
      intro M
      induction M with
      | absent => simp
      | node slot kind span left right ihLeft ihRight =>
        intro q stores top y mem
        have here : a.Reachable slot := top slot rfl
        simp only [Layout.slots_node, List.mem_append, List.mem_singleton] at mem
        obtain (inLeft | inRight) | rfl := mem
        · exact ihLeft stores.2.1 (fun x root => .left here (stores.left?_node.trans root)) y inLeft
        · exact ihRight stores.2.2 (fun x root => .right here (stores.right?_node.trans root)) y
            inRight
        · exact here
    apply all holds.stores
    intro x root
    rw [holds.root] at root
    cases root
    exact .root

theorem Fills.size_eq (fills : a.Fills L) : a.size = L.slots.length := by
  have lengths := fills.perm.length_eq
  simp only [List.length_append, List.length_range] at lengths
  rw [size]
  omega

theorem isComplete_of_wellShaped {h : Handle} {kind : Kind} {span : Span} {left right : Layout}
    {q : Option Handle} (shaped : (Layout.node h kind span left right).tree.WellShaped) :
    (⟨kind, span, q, left.root?, right.root?⟩ : Node).IsComplete := by
  have there : ∀ {N : Layout}, N.tree.WellShaped → N.root?.isSome := by
    intro N shaped
    obtain ⟨x, root⟩ := Layout.root?_of_shaped shaped
    rw [root]
    rfl
  have missing : ∀ {N : Layout}, Tree.absent = N.tree → N.root? = none := by
    intro N same
    cases N with
    | absent => rfl
    | node => cases same
  rw [Layout.tree] at shaped
  generalize treeLeft : left.tree = l at shaped
  generalize treeRight : right.tree = r at shaped
  cases shaped with
  | leaf noOperator =>
    have noLeft := missing treeLeft.symm
    have noRight := missing treeRight.symm
    cases kind with
    | operator => cases noOperator
    | integer | fraction | var | param => exact ⟨noLeft, noRight⟩
  | negation onOperand => exact there (treeRight ▸ onOperand)
  | @binary op _ _ _ onLeft onRight =>
    have someLeft := there (treeLeft ▸ onLeft)
    have someRight := there (treeRight ▸ onRight)
    cases op with
    | sub => exact someRight
    | add | mul | div | pow => exact ⟨someLeft, someRight⟩
  | call onArgument => exact ⟨missing treeLeft.symm, there (treeRight ▸ onArgument)⟩

/-- An arena that is filled by a layout is consistent. -/
theorem Fills.isConsistent (fills : a.Fills L) (shaped : L.tree.WellShaped) {params : Nat}
    (bounded : L.tree.EveryKind fun kind => ∀ index, kind = .param index → index < params) :
    a.IsConsistent params := by
  have holds := fills.holds
  have nodup := fills.perm.nodup_iff.mpr List.nodup_range
  have at' : ∀ h, a.Reachable h → ∃ q kind span left right,
      a.Stores q (.node h kind span left right) ∧
        (Layout.node h kind span left right).Within L := fun h reachable =>
    holds.stores.exists_of_mem (holds.reachable_iff.mp reachable)
  refine ⟨fun h reachable => ?_, ?_, fun h x reachable operand => ?_,
    fun h x reachable onLeft onRight => ?_, fun h node reachable found => ?_,
    fun h index reachable found => ?_, ?_, (List.nodup_append.mp nodup).2.1, fun h => ?_⟩
  · obtain ⟨q, kind, span, left, right, stored, -⟩ := at' h reachable
    rw [stored.1]
    rfl
  · exact holds.stores.parent?_root holds.root
  · obtain ⟨q, kind, span, left, right, stored, -⟩ := at' h reachable
    rw [stored.left?_node, stored.right?_node] at operand
    obtain onLeft | onRight := operand
    · exact stored.2.1.parent?_root onLeft
    · exact stored.2.2.parent?_root onRight
  · obtain ⟨q, kind, span, left, right, stored, within⟩ := at' h reachable
    rw [stored.left?_node] at onLeft
    rw [stored.right?_node] at onRight
    have apart := Layout.apart_of_nodup (holds.nodup_slots.sublist within.slots_sublist)
    exact apart.2.2.1 x (Layout.mem_slots_of_root? onLeft) (Layout.mem_slots_of_root? onRight)
  · obtain ⟨q, kind, span, left, right, stored, within⟩ := at' h reachable
    rw [stored.1] at found
    cases found
    exact isComplete_of_wellShaped (within.wellShaped Layout.noConfusion shaped)
  · obtain ⟨q, kind, span, left, right, stored, within⟩ := at' h reachable
    rw [kind?, stored.1, Option.map_some, Option.some.injEq] at found
    exact (within.every bounded).1 index found
  · have same : {h | a.Reachable h} = (L.slots.toFinset : Set Handle) := by
      ext h
      simp [holds.reachable_iff]
    rw [fills.size_eq, same, Set.ncard_coe_finset, List.toFinset_card_of_nodup holds.nodup_slots]
  · rw [holds.reachable_iff, ← List.mem_range, ← fills.perm.mem_iff, List.mem_append]
    constructor
    · intro mem
      exact ⟨.inr mem, fun stored => (List.nodup_append.mp nodup).2.2 h stored h mem rfl⟩
    · rintro ⟨stored | mem, unreachable⟩
      · exact absurd stored unreachable
      · exact mem

/-! ## Reductions -/

theorem Reduces.fills (reduces : Reduces a b none L M) (fills : a.Fills L) : b.Fills M := by
  obtain ⟨released, free, perm, -⟩ := reduces.free
  refine ⟨reduces.holds fills.holds, ?_⟩
  calc (M.slots ++ b.free).Perm (M.slots ++ (released ++ a.free)) := by rw [free]
    List.Perm _ (L.slots ++ a.free) := by
      rw [← List.append_assoc]
      exact (List.perm_append_comm.trans perm).append_right _
    List.Perm _ (List.range a.nodes.size) := fills.perm
    _ = List.range b.nodes.size := by rw [reduces.size]

end Arena
end Fluxion
