import Fluxion.Proofs.Arena.Reduction
import Fluxion.Simplification.Rewrite
/- The changes that simplification makes to a node, each as a reduction of its layout (`Reduces`):
   it becomes a literal (`Stores.makeLeaf`), one of its operands (`Stores.hoist`), a change of sign
   (`Stores.removeLeft`) or the quotient that a product with a reciprocal is (`Stores.fuse`).

   Which of two operands is kept makes no difference to the argument. `Sides` names a pair of
   operands without saying which is on the left, and a node with one of them replaced is again such
   a pair (`Sides.replace`). What is kept and what is released are together the slots of the old
   layout (`Sides.perm_hoist`, `Sides.perm_fuse`), so the two are apart.

   A fusion is the longest of the changes: both the product and the quotient in it give up their
   operands first (`Stores.stripped`), and only then is the product linked again. -/
namespace Fluxion
namespace Arena

variable {a b : Arena} {parent : Option Handle} {h : Handle} {kind : Kind} {span : Span}
  {left right : Layout}

theorem Stores.left?_eq (stores : a.Stores parent (.node h kind span left right)) :
    a.left? h = left.root? := by
  simp [left?, stores.1]

theorem Stores.right?_eq (stores : a.Stores parent (.node h kind span left right)) :
    a.right? h = right.root? := by
  simp [right?, stores.1]

/-! ## Literals -/

theorem Stores.makeLeaf (stores : a.Stores parent (.node h kind span left right))
    (nodup : (Layout.node h kind span left right).slots.Nodup) (new : Kind) :
    Reduces a (a.makeLeaf h new) parent (.node h kind span left right)
      (.node h new span .absent .absent) := by
  obtain ⟨nodupLeft, nodupRight, apart, notLeft, notRight⟩ := Layout.apart_of_nodup nodup
  let a₁ := a.modify h ({ · with kind := new, left := none, right := none })
  have first := Stores.released (a := a₁) (stores.2.1.modify notLeft _) nodupLeft
  have second := (first.frame (stores.2.2.modify notRight _)
    fun x inRight inLeft => apart x inLeft inRight).released nodupRight
  have unfolded : a.makeLeaf h new = (a₁.release left.root?).release right.root? := by
    rw [Arena.makeLeaf, stores.left?_eq, stores.right?_eq]
  rw [unfolded]
  refine ⟨⟨?_, trivial, trivial⟩, rfl, ?_, ?_, fun x outside => ?_, right.slots ++ left.slots, ?_,
    ?_, fun x mem => ?_⟩
  · rw [second.node?, if_neg notRight, first.node?, if_neg notLeft, node?_modify, if_pos rfl,
      stores.1]
    rfl
  · rw [second.size, first.size, size_nodes_modify]
  · rw [second.root, first.root, root_modify]
  · simp only [Layout.slots_node, List.mem_append, List.mem_singleton, not_or] at outside
    rw [second.node?, if_neg outside.1.2, first.node?, if_neg outside.1.1, node?_modify,
      if_neg (Ne.symm outside.2)]
  · rw [second.free, first.free, free_modify, List.append_assoc]
  · exact (List.perm_append_comm.append_right _)
  · rw [second.node?, first.node?]
    obtain inRight | inLeft := List.mem_append.mp mem
    · rw [if_pos inRight, Option.map_map]
      rfl
    · rw [if_neg (apart x inLeft), if_pos inLeft, Option.map_map]
      rfl

/-! ## Signs -/

theorem Stores.removeLeft (stores : a.Stores parent (.node h kind span left right))
    (nodup : (Layout.node h kind span left right).slots.Nodup) :
    Reduces a (a.removeLeft h) parent (.node h kind span left right)
      (.node h kind span .absent right) := by
  obtain ⟨nodupLeft, nodupRight, apart, notLeft, notRight⟩ := Layout.apart_of_nodup nodup
  let a₁ := a.modify h ({ · with left := none })
  have released := Stores.released (a := a₁) (stores.2.1.modify notLeft _) nodupLeft
  have unfolded : a.removeLeft h = a₁.release left.root? := by
    rw [Arena.removeLeft, stores.left?_eq]
  rw [unfolded]
  refine ⟨⟨?_, trivial, ?_⟩, rfl, ?_, ?_, fun x outside => ?_, left.slots, ?_, ?_, fun x mem => ?_⟩
  · rw [released.node?, if_neg notLeft, node?_modify, if_pos rfl, stores.1]
    rfl
  · exact released.frame (stores.2.2.modify notRight _) fun x inRight inLeft => apart x inLeft inRight
  · rw [released.size, size_nodes_modify]
  · rw [released.root, root_modify]
  · simp only [Layout.slots_node, List.mem_append, List.mem_singleton, not_or] at outside
    rw [released.node?, if_neg outside.1.1, node?_modify, if_neg (Ne.symm outside.2)]
  · rw [released.free, free_modify]
  · simp
  · rw [released.node?, if_pos mem, Option.map_map]
    rfl

/-! ## Other operands for a node -/

/-- A node is changed and linked to two layouts that are stored apart from it. -/
theorem Stores.relink {p q : Option Handle} {node : Node} (storesLeft : a.Stores p left)
    (storesRight : a.Stores q right) (here : a.node? h = some node) (change : Node → Node)
    (nodup : (Layout.node h (change node).kind (change node).span left right).slots.Nodup) :
    ((a.modify h change).link h left.root? right.root?).Stores (change node).parent
      (.node h (change node).kind (change node).span left right) := by
  obtain ⟨-, -, -, notLeft, notRight⟩ := Layout.apart_of_nodup nodup
  refine (storesLeft.modify notLeft change).link (storesRight.modify notRight change) ?_ nodup
  rw [node?_modify, if_pos rfl, here, Option.map_some]

theorem node?_relink_of_notMem (a : Arena) (change : Node → Node) {x : Handle}
    (outside : x ∉ (Layout.node h kind span left right).slots) :
    ((a.modify h change).link h left.root? right.root?).node? x = a.node? x := by
  simp only [Layout.slots_node, List.mem_append, List.mem_singleton, not_or] at outside
  have ne : h ≠ x := Ne.symm outside.2
  rw [node?_link_of_ne _ ne (fun root => outside.1.1 (Layout.mem_slots_of_root? root))
    (fun root => outside.1.2 (Layout.mem_slots_of_root? root)), node?_modify, if_neg ne]

/-- `child` and `other` are the operands of a node, on either side. -/
def Sides (child other left right : Layout) : Prop :=
  (left = child ∧ right = other) ∨ (left = other ∧ right = child)

theorem Sides.perm {child other : Layout} (sides : Sides child other left right) :
    (child.slots ++ other.slots ++ [h]).Perm (Layout.node h kind span left right).slots := by
  obtain ⟨rfl, rfl⟩ | ⟨rfl, rfl⟩ := sides
  · exact .refl _
  · exact List.perm_append_comm.append_right _

theorem Sides.nodup {child other : Layout} (sides : Sides child other left right)
    (nodup : (Layout.node h kind span left right).slots.Nodup) :
    (Layout.node h kind span child other).slots.Nodup :=
  sides.perm.nodup_iff.mpr nodup

/-- What a node with two operands stores, whichever operand is called first. -/
theorem Stores.sides {child other : Layout}
    (stores : a.Stores parent (.node h kind span left right))
    (sides : Sides child other left right) :
    a.Stores (some h) child ∧ a.Stores (some h) other := by
  obtain ⟨rfl, rfl⟩ | ⟨rfl, rfl⟩ := sides
  · exact stores.2
  · exact stores.2.symm

/-- A node with one of its operands replaced in the same slot. -/
theorem Sides.replace {child child' other : Layout} (sides : Sides child other left right)
    (here : a.node? h = some ⟨kind, span, parent, left.root?, right.root?⟩)
    (top : child'.root? = child.root?) (storesChild : a.Stores (some h) child')
    (storesOther : a.Stores (some h) other) :
    ∃ left' right', Sides child' other left' right' ∧
      a.Stores parent (.node h kind span left' right') := by
  obtain ⟨rfl, rfl⟩ | ⟨rfl, rfl⟩ := sides
  · exact ⟨child', right, .inl ⟨rfl, rfl⟩, by rw [here, top], storesChild, storesOther⟩
  · exact ⟨left, child', .inr ⟨rfl, rfl⟩, by rw [here, top], storesOther, storesChild⟩

/-- What a change of a node does not release is apart from what it releases. -/
theorem fresh_of_perm {slot : Handle} {gone new old : Layout}
    (perm : (slot :: gone.slots ++ new.slots).Perm old.slots) (nodup : old.slots.Nodup) :
    slot ∉ gone.slots ∧ gone.slots.Nodup ∧ new.slots.Nodup ∧
      ∀ x ∈ new.slots, x ≠ slot ∧ x ∉ gone.slots := by
  obtain ⟨nodupReleased, nodupNew, apart⟩ := List.nodup_append.mp (perm.nodup_iff.mpr nodup)
  obtain ⟨notGone, nodupGone⟩ := List.nodup_cons.mp nodupReleased
  refine ⟨notGone, nodupGone, nodupNew, fun x mem => ⟨?_, fun inGone => ?_⟩⟩
  · rintro rfl
    exact apart x List.mem_cons_self x mem rfl
  · exact apart x (List.mem_cons_of_mem slot inGone) x mem rfl

/-- Every slot of a node whose operand takes its place is either released or kept. -/
theorem Sides.perm_hoist {slot : Handle} {inner : Kind} {place : Span} {l r other : Layout}
    (sides : Sides (.node slot inner place l r) other left right) :
    (slot :: other.slots ++ (Layout.node h inner place l r).slots).Perm
      (Layout.node h kind span left right).slots := by
  refine List.Perm.trans ?_ sides.perm
  rw [List.perm_iff_count]
  intro x
  simp only [Layout.slots_node, List.count_append, List.count_cons, List.count_nil]
  omega

/-- Every slot of a product with a reciprocal is either released or in the quotient. -/
theorem Sides.perm_fuse {slot : Handle} {inner new : Kind} {place : Span}
    {one denominator other : Layout}
    (sides : Sides (.node slot inner place one denominator) other left right) :
    (slot :: one.slots ++ (Layout.node h new span other denominator).slots).Perm
      (Layout.node h kind span left right).slots := by
  refine List.Perm.trans ?_ sides.perm
  rw [List.perm_iff_count]
  intro x
  simp only [Layout.slots_node, List.count_append, List.count_cons, List.count_nil]
  omega

/-! ## One operand in the place of its node -/

/-- The operand that is not the given one. -/
theorem Stores.rest_eq {slot : Handle} {child other : Layout}
    (stores : a.Stores parent (.node h kind span left right)) (sides : Sides child other left right)
    (top : child.root? = some slot) (notOther : slot ∉ other.slots) :
    (if a.left? h = some slot then a.right? h else a.left? h) = other.root? := by
  rw [stores.left?_eq, stores.right?_eq]
  obtain ⟨rfl, rfl⟩ | ⟨rfl, rfl⟩ := sides
  · exact if_pos top
  · exact if_neg fun root => notOther (Layout.mem_slots_of_root? root)

/-- A node takes over what one of its operands holds; the other operand is released. -/
theorem Stores.hoist {slot : Handle} {inner : Kind} {place : Span} {l r other : Layout}
    (stores : a.Stores parent (.node h kind span left right))
    (nodup : (Layout.node h kind span left right).slots.Nodup)
    (sides : Sides (.node slot inner place l r) other left right) :
    Reduces a (a.hoist h slot) parent (.node h kind span left right) (.node h inner place l r) := by
  obtain ⟨storesChild, storesOther⟩ := stores.sides sides
  have perm : (slot :: other.slots ++ (Layout.node h inner place l r).slots).Perm
      (Layout.node h kind span left right).slots := sides.perm_hoist
  obtain ⟨notOther, nodupOther, nodupNew, fresh⟩ := fresh_of_perm perm nodup
  have notNew : slot ∉ (Layout.node h inner place l r).slots := fun mem => (fresh slot mem).1 rfl
  have rest := stores.rest_eq sides rfl notOther
  -- The operand keeps its contents until the node has taken them over.
  have first := storesOther.released nodupOther
  have keeps : ∀ x ∉ other.slots, (a.release other.root?).node? x = a.node? x :=
    fun x outside => by rw [first.node?, if_neg outside]
  have child₁ : (a.release other.root?).node? slot = _ := (keeps slot notOther).trans storesChild.1
  have here₁ : (a.release other.root?).node? h = _ := (keeps h (fresh h (by simp)).2).trans stores.1
  have moved := Stores.relink (storesChild.2.1.frame fun x mem => keeps x (fresh x (by simp [mem])).2)
    (storesChild.2.2.frame fun x mem => keeps x (fresh x (by simp [mem])).2) here₁
    ({ · with kind := inner, span := place }) nodupNew
  let b := ((a.release other.root?).modify h ({ · with kind := inner, span := place })).link h
    l.root? r.root?
  have outer : ∀ x ∉ (Layout.node h inner place l r).slots, b.node? x = (a.release other.root?).node? x :=
    fun x outside => node?_relink_of_notMem _ _ outside
  let c := b.modify slot ({ · with left := none, right := none })
  have leaf : c.Stores (some h) (.node slot inner place .absent .absent) := by
    refine ⟨?_, trivial, trivial⟩
    rw [node?_modify, if_pos rfl, outer slot notNew, child₁]
    rfl
  have last : Released c (c.release (some slot)) _ := leaf.released (by simp)
  have unfolded : a.hoist h slot = c.release (some slot) := by
    simp only [Arena.hoist, rest, child₁]
    rfl
  rw [unfolded]
  refine ⟨last.frame (moved.modify notNew _) fun x mem => ?_, rfl, ?_, ?_, fun x outside => ?_,
    slot :: other.slots, ?_, perm, fun x mem => ?_⟩
  · simpa using (fresh x mem).1
  · rw [last.size, size_nodes_modify, size_nodes_link, size_nodes_modify, first.size]
  · rw [last.root, root_modify, root_link, root_modify, first.root]
  · have neSlot : x ≠ slot := fun same => outside (perm.mem_iff.mp (by simp [same]))
    have notOther : x ∉ other.slots := fun mem => outside (perm.mem_iff.mp (by simp [mem]))
    have notNew := fun mem => outside (perm.mem_iff.mp (List.mem_append_right _ mem))
    rw [last.node?, if_neg (by simpa using neSlot), node?_modify, if_neg (Ne.symm neSlot),
      outer x notNew, keeps x notOther]
  · rw [last.free, free_modify, free_link, free_modify, first.free]
    rfl
  · rw [last.node?]
    obtain rfl | inOther := List.mem_cons.mp mem
    · rw [if_pos (by simp), Option.map_map]
      rfl
    · have ne : x ≠ slot := fun same => notOther (same ▸ inOther)
      rw [if_neg (by simpa using ne), node?_modify, if_neg (Ne.symm ne),
        outer x fun mem => (fresh x mem).2 inOther, first.node?, if_pos inOther, Option.map_map]
      rfl

/-! ## Products with a reciprocal -/

@[simp]
theorem size_nodes_takeOperands (a : Arena) (h : Handle) :
    (a.takeOperands h).2.nodes.size = a.nodes.size := by
  simp [takeOperands]

@[simp]
theorem free_takeOperands (a : Arena) (h : Handle) : (a.takeOperands h).2.free = a.free := by
  simp [takeOperands]

@[simp]
theorem root_takeOperands (a : Arena) (h : Handle) : (a.takeOperands h).2.root = a.root := by
  simp [takeOperands]

/-- The operands that are taken off a node are stored without a parent. -/
theorem Stores.takeOperands (stores : a.Stores parent (.node h kind span left right))
    (nodup : (Layout.node h kind span left right).slots.Nodup) :
    (a.takeOperands h).1 = (left.root?, right.root?) ∧
      (a.takeOperands h).2.Stores parent (.node h kind span .absent .absent) ∧
      (a.takeOperands h).2.Stores none left ∧ (a.takeOperands h).2.Stores none right ∧
      ∀ x, x ∉ (Layout.node h kind span left right).slots →
        (a.takeOperands h).2.node? x = a.node? x := by
  obtain ⟨nodupLeft, nodupRight, apart, notLeft, notRight⟩ := Layout.apart_of_nodup nodup
  have ofLeft : ∀ x ∉ left.slots, left.root? ≠ some x := fun x outside root =>
    outside (Layout.mem_slots_of_root? root)
  have ofRight : ∀ x ∉ right.slots, right.root? ≠ some x := fun x outside root =>
    outside (Layout.mem_slots_of_root? root)
  have unfolded : (a.takeOperands h).2 =
      ((a.modify h ({ · with left := none, right := none })).setParent left.root? none).setParent
        right.root? none := by
    rw [Arena.takeOperands, stores.left?_eq, stores.right?_eq]
  refine ⟨?_, ?_⟩
  · rw [Arena.takeOperands, stores.left?_eq, stores.right?_eq]
  rw [unfolded]
  refine ⟨⟨?_, trivial, trivial⟩, ?_, ?_, fun x outside => ?_⟩
  · simp [ofLeft h notLeft, ofRight h notRight, stores.1]
  · exact ((stores.2.1.modify notLeft _).setParent nodupLeft none).setParent_of_notMem
      (fun x mem => ofRight x (apart x mem)) none
  · exact ((stores.2.2.modify notRight _).setParent_of_notMem
      (fun x mem => ofLeft x fun inLeft => apart x inLeft mem) none).setParent nodupRight none
  · simp only [Layout.slots_node, List.mem_append, List.mem_singleton, not_or] at outside
    simp [ofLeft x outside.1.1, ofRight x outside.1.2, Ne.symm outside.2]

/-- `b` is `a` after a node has given up its operands and one of them was released. -/
structure Detached (a b : Arena) (parent : Option Handle) (h : Handle) (kind : Kind) (span : Span)
    (gone kept : Layout) : Prop where
  leaf : b.Stores parent (.node h kind span .absent .absent)
  loose : b.Stores none kept
  size : b.nodes.size = a.nodes.size
  root : b.root = a.root
  free : b.free = gone.slots ++ a.free
  frame : ∀ x, x ∉ (Layout.node h kind span gone kept).slots → b.node? x = a.node? x
  cleared : ∀ x ∈ gone.slots, b.node? x = (b.node? x).map Node.cleared

theorem Stores.detached {gone kept : Layout}
    (stores : a.Stores parent (.node h kind span left right))
    (nodup : (Layout.node h kind span left right).slots.Nodup) (sides : Sides gone kept left right) :
    Detached a ((a.takeOperands h).2.release gone.root?) parent h kind span gone kept := by
  obtain ⟨-, leaf, storesLeft, storesRight, outer⟩ := stores.takeOperands nodup
  obtain ⟨storesGone, storesKept⟩ : (a.takeOperands h).2.Stores none gone ∧
      (a.takeOperands h).2.Stores none kept := by
    obtain ⟨rfl, rfl⟩ | ⟨rfl, rfl⟩ := sides
    · exact ⟨storesLeft, storesRight⟩
    · exact ⟨storesRight, storesLeft⟩
  obtain ⟨nodupGone, -, apart, notGone, -⟩ := Layout.apart_of_nodup (sides.nodup nodup)
  have released := storesGone.released nodupGone
  refine ⟨released.frame leaf ?_, released.frame storesKept ?_, ?_, ?_, ?_, fun x outside => ?_,
    fun x mem => ?_⟩
  · simpa using notGone
  · exact fun x inKept inGone => apart x inGone inKept
  · rw [released.size, size_nodes_takeOperands]
  · rw [released.root, root_takeOperands]
  · rw [released.free, free_takeOperands]
  · have notReleased : x ∉ gone.slots := fun mem => outside (by simp [mem])
    rw [released.node?, if_neg notReleased, outer x fun mem => outside (sides.perm.mem_iff.mpr mem)]
  · rw [released.node?, if_pos mem, Option.map_map]
    rfl

section Fusion
variable {slot o : Handle} {inner : Kind} {place : Span} {one denominator other : Layout}

/-- Before a product is linked as a quotient, it and the quotient in it have given up their
    operands, and the numerator and the node of that quotient are released. -/
theorem Stores.stripped (stores : a.Stores parent (.node h kind span left right))
    (nodup : (Layout.node h kind span left right).slots.Nodup)
    (sides : Sides (.node slot inner place one denominator) other left right) :
    let a₁ := (a.takeOperands slot).2.release one.root?
    let a₂ := (a₁.takeOperands h).2.release (some slot)
    a₂.Stores parent (.node h kind span .absent .absent) ∧ a₂.Stores none other ∧
      a₂.Stores none denominator ∧ a₂.nodes.size = a.nodes.size ∧ a₂.root = a.root ∧
      a₂.free = slot :: one.slots ++ a.free ∧
      (∀ x, x ∉ (Layout.node h kind span left right).slots → a₂.node? x = a.node? x) ∧
      ∀ x ∈ slot :: one.slots, a₂.node? x = (a₂.node? x).map Node.cleared := by
  intro a₁ a₂
  obtain ⟨storesQuotient, storesOther⟩ := stores.sides sides
  have perm : (slot :: one.slots ++ (Layout.node h kind span other denominator).slots).Perm
      (Layout.node h kind span left right).slots := sides.perm_fuse
  obtain ⟨notOne, -, nodupNew, fresh⟩ := fresh_of_perm perm nodup
  obtain ⟨nodupOther, -, apart, notOther, notDenominator⟩ := Layout.apart_of_nodup nodupNew
  have freshHere : h ≠ slot ∧ h ∉ one.slots := fresh h (by simp)
  -- The quotient gives up its operands, and its numerator is released.
  have first : Detached a a₁ (some h) slot inner place one denominator :=
    storesQuotient.detached (Layout.apart_of_nodup (sides.nodup nodup)).1 (.inl ⟨rfl, rfl⟩)
  have here₁ := (first.frame h (by simp [freshHere, notDenominator])).trans stores.1
  have other₁ : a₁.Stores (some h) other := storesOther.frame fun x mem =>
    first.frame x (by simp [fresh x (by simp [mem]), apart x mem])
  -- The node gives up its operands, and what is left of the quotient is released.
  obtain ⟨left₁, right₁, sides₁, stores₁⟩ := sides.replace here₁
    (show (Layout.node slot inner place .absent .absent).root? = some slot from rfl)
    first.leaf other₁
  have nodup₁ : (Layout.node h kind span left₁ right₁).slots.Nodup := by
    have shrunk : ([slot] ++ other.slots ++ [h]).Sublist
        ((Layout.node slot inner place one denominator).slots ++ other.slots ++ [h]) :=
      ((List.sublist_append_right _ [slot]).append_right other.slots).append_right [h]
    exact sides₁.perm.nodup_iff.mp ((sides.nodup nodup).sublist shrunk)
  have second : Detached a₁ a₂ parent h kind span (.node slot inner place .absent .absent) other :=
    stores₁.detached nodup₁ sides₁
  have outside₂ : ∀ x, x ≠ slot → x ∉ other.slots → x ≠ h → a₂.node? x = a₁.node? x :=
    fun x notSlot notOther notHere => second.frame x (by simp [notSlot, notOther, notHere])
  refine ⟨second.leaf, second.loose, ?_, second.size.trans first.size,
    second.root.trans first.root, ?_, fun x outside => ?_, fun x mem => ?_⟩
  · refine first.loose.frame fun x mem => outside₂ x (fresh x (by simp [mem])).1 ?_ ?_
    · exact fun inOther => apart x inOther mem
    · exact fun same => notDenominator (same ▸ mem)
  · rw [second.free, first.free]
    rfl
  · have notReleased : x ∉ slot :: one.slots := fun mem =>
      outside (perm.mem_iff.mp (List.mem_append_left _ mem))
    have notNew : x ∉ (Layout.node h kind span other denominator).slots := fun mem =>
      outside (perm.mem_iff.mp (List.mem_append_right _ mem))
    simp only [List.mem_cons, not_or] at notReleased
    simp only [Layout.slots_node, List.mem_append, List.mem_singleton, not_or] at notNew
    rw [outside₂ x notReleased.1 notNew.1.1 notNew.2,
      first.frame x (by simp [notReleased, notNew])]
  · obtain rfl | inOne := List.mem_cons.mp mem
    · exact second.cleared x (by simp)
    · have notNew : x ∉ (Layout.node h kind span other denominator).slots := fun inNew =>
        (fresh x inNew).2 inOne
      simp only [Layout.slots_node, List.mem_append, List.mem_singleton, not_or] at notNew
      rw [outside₂ x (fun same => notOne (same ▸ inOne)) notNew.1.1 notNew.2]
      exact first.cleared x inOne

/-- A node with an operand that is a quotient becomes the quotient of its other operand by
    the denominator. -/
theorem Stores.fuse (stores : a.Stores parent (.node h kind span left right))
    (nodup : (Layout.node h kind span left right).slots.Nodup)
    (sides : Sides (.node slot inner place one denominator) other left right)
    (top : other.root? = some o) :
    Reduces a (a.fuse h o slot) parent (.node h kind span left right)
      (.node h (.operator (.binary .div)) span other denominator) := by
  obtain ⟨leaf, storesOther, storesDenominator, size, root, free, outer, cleared⟩ :=
    stores.stripped nodup sides
  let b := ((a.takeOperands slot).2.release one.root?).takeOperands h |>.2.release (some slot)
  have perm : (slot :: one.slots ++
      (Layout.node h (.operator (.binary .div)) span other denominator).slots).Perm
      (Layout.node h kind span left right).slots := sides.perm_fuse
  obtain ⟨-, -, nodupNew, fresh⟩ := fresh_of_perm perm nodup
  have moved := Stores.relink storesOther storesDenominator leaf.1
    ({ · with kind := .operator (.binary .div) }) nodupNew
  have unfolded : a.fuse h o slot =
      (b.modify h ({ · with kind := .operator (.binary .div) })).link h other.root?
        denominator.root? := by
    have taken : a.takeOperands slot = ((one.root?, denominator.root?), (a.takeOperands slot).2) :=
      Prod.ext ((stores.sides sides).1.takeOperands
        (Layout.apart_of_nodup (sides.nodup nodup)).1).1 rfl
    rw [Arena.fuse, taken, top]
    rfl
  have keeps : ∀ x, x ∉ (Layout.node h (.operator (.binary .div)) span other denominator).slots →
      (a.fuse h o slot).node? x = b.node? x := by
    intro x outside
    rw [unfolded, node?_relink_of_notMem _ _ outside]
  refine ⟨?_, rfl, ?_, ?_, fun x outside => ?_, slot :: one.slots, ?_, perm, fun x mem => ?_⟩
  · rw [unfolded]
    exact moved
  · rw [unfolded, size_nodes_link, size_nodes_modify, size]
  · rw [unfolded, root_link, root_modify, root]
  · rw [keeps x fun mem => outside (perm.mem_iff.mp (List.mem_append_right _ mem))]
    exact outer x outside
  · rw [unfolded, free_link, free_modify, free]
  · rw [keeps x fun inNew => ?_]
    · exact cleared x mem
    · obtain isSlot | inOne := List.mem_cons.mp mem
      · exact (fresh x inNew).1 isSlot
      · exact (fresh x inNew).2 inOne

end Fusion

end Arena
end Fluxion
