import Fluxion.Arena.Traversal
import Mathlib.Data.List.Perm.Subperm
/- Trees with the slots that they are stored in. `Arena.Stores` says that an arena holds a layout:
   every node sits in its slot, names the slots of its operands and is named by them as their
   parent. What other slots hold does not matter (`Stores.frame`), so an operation is described by
   the slots that it touches. `Arena.Holds` says besides that the layout is the tree of the arena,
   and that no slot of it is shared or released.

   The ways through an arena are read off the layout: a bottom-up computation is a fold
   (`Holds.foldFrom_eq`), the stored tree is the layout without its slots (`Holds.tree_eq`), and
   simplification visits the slots in the order of `Layout.slots` (`Holds.postOrder_eq`). For the
   last, the walk with a stack is followed over one layout at a time (`Stores.walk_eq`), and the
   number of its steps is bounded by twice the number of slots. -/
namespace Fluxion

/-- A tree in which every node knows its slot. -/
inductive Layout where
  | absent
  | node (slot : Handle) (kind : Kind) (span : Span) (left right : Layout)

namespace Layout

/-- The tree without its slots. -/
def tree : Layout → Tree
  | absent => .absent
  | node _ kind span left right => .node kind span left.tree right.tree

/-- The slot of the topmost node. -/
def root? : Layout → Option Handle
  | absent => none
  | node slot .. => some slot

/-- The slots in post-order. -/
def slots : Layout → List Handle
  | absent => []
  | node slot _ _ left right => left.slots ++ right.slots ++ [slot]

/-- The node that is stored for the topmost node, below the given parent. -/
def node? (parent : Option Handle) : Layout → Option Arena.Node
  | absent => none
  | node _ kind span left right => some ⟨kind, span, parent, left.root?, right.root?⟩

/-- Computes a value bottom-up. -/
def fold {β : Type} (absent : β) (combine : Handle → Arena.Node → β → β → β) :
    Option Handle → Layout → β
  | _, .absent => absent
  | parent, node slot kind span left right =>
    combine slot ⟨kind, span, parent, left.root?, right.root?⟩
      (left.fold absent combine (some slot)) (right.fold absent combine (some slot))

@[simp]
theorem root?_absent : root? absent = none := rfl

@[simp]
theorem root?_node (slot : Handle) (kind : Kind) (span : Span) (left right : Layout) :
    (node slot kind span left right).root? = some slot := rfl

@[simp]
theorem slots_absent : slots absent = [] := rfl

@[simp]
theorem slots_node (slot : Handle) (kind : Kind) (span : Span) (left right : Layout) :
    (node slot kind span left right).slots = left.slots ++ right.slots ++ [slot] := rfl

theorem mem_slots_of_root? {L : Layout} {h : Handle} (root : L.root? = some h) : h ∈ L.slots := by
  cases L with
  | absent => simp at root
  | node slot kind span left right =>
    simp only [root?_node, Option.some.injEq] at root
    simp [root]

/-- The slots of a node and of its operands are apart. -/
theorem apart_of_nodup {slot : Handle} {kind : Kind} {span : Span} {left right : Layout}
    (nodup : (node slot kind span left right).slots.Nodup) :
    left.slots.Nodup ∧ right.slots.Nodup ∧ (∀ x ∈ left.slots, x ∉ right.slots) ∧
      slot ∉ left.slots ∧ slot ∉ right.slots := by
  obtain ⟨nodupOperands, -, apartSlot⟩ := List.nodup_append.mp nodup
  obtain ⟨nodupLeft, nodupRight, apart⟩ := List.nodup_append.mp nodupOperands
  exact ⟨nodupLeft, nodupRight, fun x inLeft inRight => apart x inLeft x inRight rfl,
    fun mem => apartSlot slot (List.mem_append_left _ mem) slot (List.mem_singleton_self slot) rfl,
    fun mem => apartSlot slot (List.mem_append_right _ mem) slot (List.mem_singleton_self slot) rfl⟩

theorem fold_tree (L : Layout) (parent : Option Handle) :
    L.fold .absent (fun _ node left right => .node node.kind node.span left right) parent = L.tree := by
  induction L generalizing parent with
  | absent => rfl
  | node slot kind span left right ihLeft ihRight => simp only [fold, tree, ihLeft, ihRight]

end Layout

namespace Arena

/-! ## Reading and changing slots -/

theorem lt_size_of_node? {a : Arena} {h : Handle} {node : Node} (found : a.node? h = some node) :
    h < a.nodes.size :=
  (Array.getElem?_eq_some_iff.mp found).1

@[simp]
theorem node?_modify (a : Arena) (h : Handle) (change : Node → Node) (x : Handle) :
    (a.modify h change).node? x = if h = x then (a.node? x).map change else a.node? x := by
  simp only [node?, modify, Array.getElem?_modify]

@[simp]
theorem size_nodes_modify (a : Arena) (h : Handle) (change : Node → Node) :
    (a.modify h change).nodes.size = a.nodes.size := by
  simp [modify]

@[simp]
theorem free_modify (a : Arena) (h : Handle) (change : Node → Node) :
    (a.modify h change).free = a.free := rfl

@[simp]
theorem root_modify (a : Arena) (h : Handle) (change : Node → Node) :
    (a.modify h change).root = a.root := rfl

/-! ## Layouts in an arena -/

/-- The arena holds the layout below the given parent. -/
def Stores (a : Arena) (parent : Option Handle) : Layout → Prop
  | .absent => True
  | .node slot kind span left right =>
    a.node? slot = some ⟨kind, span, parent, left.root?, right.root?⟩ ∧
      a.Stores (some slot) left ∧ a.Stores (some slot) right

/-- The layout is the tree of the arena: nothing in it is shared or released. -/
structure Holds (a : Arena) (L : Layout) : Prop where
  root : L.root? = some a.root
  stores : a.Stores none L
  nodup : (L.slots ++ a.free).Nodup
  bound : ∀ h ∈ a.free, h < a.nodes.size

variable {a b : Arena} {L : Layout} {parent : Option Handle}

/-- Only the slots of the layout matter. -/
theorem Stores.frame (stores : a.Stores parent L)
    (same : ∀ h ∈ L.slots, b.node? h = a.node? h) : b.Stores parent L := by
  induction L generalizing parent with
  | absent => trivial
  | node slot kind span left right ihLeft ihRight =>
    obtain ⟨here, below⟩ := stores
    refine ⟨?_, ihLeft below.1 ?_, ihRight below.2 ?_⟩
    · rw [same slot (by simp), here]
    · intro h mem
      exact same h (by simp [mem])
    · intro h mem
      exact same h (by simp [mem])

theorem Stores.modify (stores : a.Stores parent L) {h : Handle} (outside : h ∉ L.slots)
    (change : Node → Node) : (a.modify h change).Stores parent L := by
  apply stores.frame
  intro x mem
  rw [node?_modify, if_neg]
  rintro rfl
  exact outside mem

theorem Stores.node?_root (stores : a.Stores parent L) {h : Handle} (root : L.root? = some h) :
    a.node? h = L.node? parent := by
  cases L with
  | absent => simp at root
  | node slot kind span left right =>
    simp only [Layout.root?_node, Option.some.injEq] at root
    subst root
    exact stores.1

theorem Stores.lt_size (stores : a.Stores parent L) {h : Handle} (mem : h ∈ L.slots) :
    h < a.nodes.size := by
  induction L generalizing parent with
  | absent => simp at mem
  | node slot kind span left right ihLeft ihRight =>
    simp only [Layout.slots_node, List.mem_append, List.mem_singleton] at mem
    obtain (inLeft | inRight) | here := mem
    · exact ihLeft stores.2.1 inLeft
    · exact ihRight stores.2.2 inRight
    · subst here
      exact lt_size_of_node? stores.1

/-- A list of distinct numbers below a bound is no longer than the bound. -/
theorem length_le_of_nodup {n : Nat} {xs : List Nat} (nodup : xs.Nodup) (bound : ∀ x ∈ xs, x < n) :
    xs.length ≤ n := by
  have within : xs ⊆ List.range n := fun x mem => List.mem_range.mpr (bound x mem)
  simpa using (nodup.subperm within).length_le

theorem Stores.length_le (stores : a.Stores parent L) (nodup : L.slots.Nodup) :
    L.slots.length ≤ a.nodes.size :=
  length_le_of_nodup nodup fun _ => stores.lt_size

theorem Holds.nodup_slots (holds : a.Holds L) : L.slots.Nodup := (List.nodup_append.mp holds.nodup).1

theorem Holds.length_add_le (holds : a.Holds L) : L.slots.length + a.free.length ≤ a.nodes.size := by
  rw [← List.length_append]
  apply length_le_of_nodup holds.nodup
  intro h mem
  obtain stored | released := List.mem_append.mp mem
  · exact holds.stores.lt_size stored
  · exact holds.bound h released

theorem Holds.slots_pos (holds : a.Holds L) : 0 < L.slots.length :=
  List.length_pos_of_mem (Layout.mem_slots_of_root? holds.root)

theorem Holds.isEmpty_eq_false (holds : a.Holds L) : a.isEmpty = false := by
  have := holds.length_add_le
  have := holds.slots_pos
  simp only [isEmpty, size, beq_eq_false_iff_ne]
  omega

/-! ## Bottom-up -/

section Fold
variable {β : Type} (absent : β) (combine : Handle → Node → β → β → β)

theorem Stores.foldWithin_eq {depth : Nat} (stores : a.Stores parent L)
    (deep : L.slots.length ≤ depth) :
    a.foldWithin absent combine depth L.root? = some (L.fold absent combine parent) := by
  induction L generalizing parent depth with
  | absent => rw [Layout.root?, foldWithin]; rfl
  | node slot kind span left right ihLeft ihRight =>
    obtain ⟨here, storesLeft, storesRight⟩ := stores
    simp only [Layout.slots_node, List.length_append, List.length_singleton] at deep
    obtain _ | depth := depth
    · omega
    · have onLeft := ihLeft storesLeft (show left.slots.length ≤ depth by omega)
      have onRight := ihRight storesRight (show right.slots.length ≤ depth by omega)
      simp only [Layout.root?_node, foldWithin, here, Option.bind_eq_bind, Option.bind_some, onLeft,
        onRight, Layout.fold]

theorem Holds.foldFrom_eq (holds : a.Holds L) :
    a.foldFrom absent combine a.root = some (L.fold absent combine none) := by
  rw [foldFrom, ← holds.root]
  exact holds.stores.foldWithin_eq absent combine (holds.stores.length_le holds.nodup_slots)

end Fold

theorem Holds.tree?_root (holds : a.Holds L) : a.tree? a.root = some L.tree := by
  rw [tree?, holds.foldFrom_eq, Layout.fold_tree]

theorem Holds.rootTree_eq (holds : a.Holds L) : a.rootTree = L.tree := by
  rw [rootTree, holds.tree?_root, Option.getD_some]

theorem Holds.tree_eq (holds : a.Holds L) : a.tree = L.tree := by
  rw [tree, holds.isEmpty_eq_false, if_neg Bool.false_ne_true, holds.rootTree_eq]

/-! ## In post-order -/

theorem walk_listed {slot : Handle} {node : Node} (here : a.node? slot = some node)
    {last : Option Handle} (back : node.right.or node.left = none ∨ node.right.or node.left = last)
    (steps : Nat) (stack : List Handle) :
    a.walk (steps + 1) (slot :: stack) last = (a.walk steps stack (some slot)).map (slot :: ·) := by
  have listed : ¬((node.right.or node.left).isSome ∧ node.right.or node.left ≠ last) := by
    rintro ⟨some, new⟩
    obtain none | old := back
    · simp [none] at some
    · exact new old
  rw [walk]
  simp only [here, Option.bind_eq_bind, Option.bind_some, if_neg listed]
  cases a.walk steps stack (some slot) <;> rfl

theorem walk_put_off {slot : Handle} {node : Node} (here : a.node? slot = some node)
    {last : Option Handle} {operand : Handle} (operands : node.right.or node.left = some operand)
    (new : last ≠ some operand) (steps : Nat) (stack : List Handle) :
    a.walk (steps + 1) (slot :: stack) last =
      a.walk steps (node.left.toList ++ node.right.toList ++ slot :: stack) last := by
  have waits : (node.right.or node.left).isSome ∧ node.right.or node.left ≠ last := by
    rw [operands]
    exact ⟨rfl, fun same => new same.symm⟩
  rw [walk]
  simp only [here, Option.bind_eq_bind, Option.bind_some, if_pos waits]

/-- A walk lists the slots of the layout on top of its stack, unless it has come from
    there, and then goes on below. -/
theorem Stores.walk_eq (stores : a.Stores parent L) (nodup : L.slots.Nodup) :
    ∃ n ≤ 2 * L.slots.length, ∀ (steps : Nat) (stack : List Handle) (last : Option Handle),
      (∀ h ∈ L.slots, last ≠ some h) →
      a.walk (n + steps) (L.root?.toList ++ stack) last =
        (a.walk steps stack (L.root?.or last)).map (L.slots ++ ·) := by
  induction L generalizing parent with
  | absent => exact ⟨0, by simp, fun steps stack last _ => by simp⟩
  | node slot kind span left right ihLeft ihRight =>
    obtain ⟨here, storesLeft, storesRight⟩ := stores
    obtain ⟨nodupLeft, nodupRight, apart, notLeft, -⟩ := Layout.apart_of_nodup nodup
    cases operands : right.root?.or left.root? with
    | none =>
      -- Without operands the node is a leaf and listed at its first sight.
      obtain ⟨noRight, noLeft⟩ := Option.or_eq_none_iff.mp operands
      refine ⟨1, by simp; omega, fun steps stack last _ => ?_⟩
      cases left <;> cases right <;> simp at noLeft noRight
      rw [Nat.add_comm, Layout.root?_node, Option.toList_some, List.singleton_append,
        walk_listed here (.inl rfl)]
      simp
    | some operand =>
      obtain ⟨m, shortLeft, onLeft⟩ := ihLeft storesLeft nodupLeft
      obtain ⟨n, shortRight, onRight⟩ := ihRight storesRight nodupRight
      refine ⟨m + n + 2, by simp; omega, fun steps stack last new => ?_⟩
      have inOperands : operand ∈ left.slots ++ right.slots := by
        obtain inRight | ⟨-, inLeft⟩ := Option.or_eq_some_iff.mp operands
        · exact List.mem_append_right _ (Layout.mem_slots_of_root? inRight)
        · exact List.mem_append_left _ (Layout.mem_slots_of_root? inLeft)
      have newLeft : ∀ h ∈ left.slots, last ≠ some h := fun h mem => new h (by simp [mem])
      have newRight : ∀ h ∈ right.slots, left.root?.or last ≠ some h := by
        intro h mem same
        obtain inLeft | ⟨-, old⟩ := Option.or_eq_some_iff.mp same
        · exact apart h (Layout.mem_slots_of_root? inLeft) mem
        · exact new h (by simp [mem]) old
      have back : right.root?.or (left.root?.or last) = some operand := by
        rw [← Option.or_assoc, operands, Option.some_or]
      calc a.walk (m + n + 2 + steps) (slot :: stack) last
          = a.walk (m + (n + (steps + 1)))
              (left.root?.toList ++ (right.root?.toList ++ slot :: stack)) last := by
            rw [show m + n + 2 + steps = m + (n + (steps + 1)) + 1 by omega,
              walk_put_off here operands (new operand (List.mem_append_left _ inOperands)),
              List.append_assoc]
        _ = ((a.walk (steps + 1) (slot :: stack) (some operand)).map (right.slots ++ ·)).map
              (left.slots ++ ·) := by
            rw [onLeft _ _ _ newLeft, onRight _ _ _ newRight, back]
        _ = (a.walk steps stack (some slot)).map ((left.slots ++ right.slots ++ [slot]) ++ ·) := by
            rw [walk_listed here (.inr operands)]
            cases a.walk steps stack (some slot) <;> simp

/-- A walk ends if it may look at every slot twice. -/
theorem Stores.walk_of_le (stores : a.Stores parent L) (nodup : L.slots.Nodup) {h : Handle}
    (root : L.root? = some h) {steps : Nat} (enough : 2 * L.slots.length ≤ steps) :
    a.walk steps [h] none = some L.slots := by
  obtain ⟨n, short, listed⟩ := stores.walk_eq nodup
  have walked := listed (steps - n) [] none (by simp)
  rw [Nat.add_sub_cancel' (Nat.le_trans short enough), root, walk] at walked
  simpa using walked

theorem Stores.postOrderFrom?_eq (stores : a.Stores parent L) (nodup : L.slots.Nodup) {h : Handle}
    (root : L.root? = some h) : a.postOrderFrom? h = some L.slots := by
  apply stores.walk_of_le nodup root
  have := stores.length_le nodup
  have := Nat.lt_two_pow_self (n := a.nodes.size)
  rw [Nat.one_shiftLeft, Nat.pow_succ]
  omega

theorem Holds.postOrder_eq (holds : a.Holds L) : a.postOrder = L.slots := by
  rw [postOrder, holds.isEmpty_eq_false, if_neg Bool.false_ne_true,
    holds.stores.postOrderFrom?_eq holds.nodup_slots holds.root, Option.getD_some]

end Arena
end Fluxion
