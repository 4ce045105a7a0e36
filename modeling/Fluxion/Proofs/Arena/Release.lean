import Fluxion.Proofs.Arena.Layout
/- Links and their removal. The first part tells when a node with its operands is stored by linking
   it: the operands must be stored apart from the node and from each other, and it does not matter
   what parents they had (`Stores.link`, `Stores.setParent`).

   The second part is about releases. Releasing a layout puts exactly its slots on the free stack,
   in post-order from the top, takes their links away and touches no other slot (`Released`,
   `Stores.released`); every layout stored elsewhere is still stored (`Released.frame`). The
   recursion has a bound on its depth, which a layout with slots of its own never reaches.

   Where the links form no layout, as in a stored form that was made up, a release may come to a
   slot from more than one side. Even then it changes nothing but links
   (`keepsButLinks_release`). -/
namespace Fluxion
namespace Arena

variable {a b : Arena} {L left right : Layout} {parent : Option Handle} {h : Handle}

/-! ## Linking -/

@[simp]
theorem node?_setParent (a : Arena) (child parent : Option Handle) (x : Handle) :
    (a.setParent child parent).node? x =
      if child = some x then (a.node? x).map ({ · with parent }) else a.node? x := by
  cases child <;> simp [setParent]

@[simp]
theorem size_nodes_setParent (a : Arena) (child parent : Option Handle) :
    (a.setParent child parent).nodes.size = a.nodes.size := by
  cases child <;> simp [setParent]

@[simp]
theorem free_setParent (a : Arena) (child parent : Option Handle) :
    (a.setParent child parent).free = a.free := by
  cases child <;> rfl

@[simp]
theorem root_setParent (a : Arena) (child parent : Option Handle) :
    (a.setParent child parent).root = a.root := by
  cases child <;> rfl

/-- A layout moves below another parent when its topmost node is told so. -/
theorem Stores.setParent (stores : a.Stores parent L) (nodup : L.slots.Nodup)
    (new : Option Handle) : (a.setParent L.root? new).Stores new L := by
  cases L with
  | absent => trivial
  | node slot kind span left right =>
    obtain ⟨here, storesLeft, storesRight⟩ := stores
    obtain ⟨-, -, -, notLeft, notRight⟩ := Layout.apart_of_nodup nodup
    exact ⟨by simp [here], storesLeft.modify notLeft _, storesRight.modify notRight _⟩

theorem Stores.setParent_of_notMem (stores : a.Stores parent L) {child : Option Handle}
    (apart : ∀ x ∈ L.slots, child ≠ some x) (new : Option Handle) :
    (a.setParent child new).Stores parent L :=
  stores.frame fun x mem => by simp [apart x mem]

@[simp]
theorem size_nodes_link (a : Arena) (h : Handle) (l r : Option Handle) :
    (a.link h l r).nodes.size = a.nodes.size := by
  simp [link]

@[simp]
theorem free_link (a : Arena) (h : Handle) (l r : Option Handle) :
    (a.link h l r).free = a.free := by
  simp [link]

@[simp]
theorem root_link (a : Arena) (h : Handle) (l r : Option Handle) :
    (a.link h l r).root = a.root := by
  simp [link]

theorem node?_link_of_ne (a : Arena) {l r : Option Handle} {x : Handle} (here : h ≠ x)
    (notLeft : l ≠ some x) (notRight : r ≠ some x) : (a.link h l r).node? x = a.node? x := by
  simp [link, here, notLeft, notRight]

/-- Linking a node to two layouts apart from it and from each other stores it with them. -/
theorem Stores.link {p q : Option Handle} (storesLeft : a.Stores p left)
    (storesRight : a.Stores q right) {node : Node} (here : a.node? h = some node)
    (nodup : (Layout.node h node.kind node.span left right).slots.Nodup) :
    (a.link h left.root? right.root?).Stores node.parent
      (.node h node.kind node.span left right) := by
  obtain ⟨nodupLeft, nodupRight, apart, notLeft, notRight⟩ := Layout.apart_of_nodup nodup
  have rootLeft : left.root? ≠ some h := fun root => notLeft (Layout.mem_slots_of_root? root)
  have rootRight : right.root? ≠ some h := fun root => notRight (Layout.mem_slots_of_root? root)
  refine ⟨by simp [Arena.link, rootLeft, rootRight, here], ?_, ?_⟩
  · exact ((storesLeft.modify notLeft _).setParent nodupLeft (some h)).setParent_of_notMem
      (fun x mem root => apart x mem (Layout.mem_slots_of_root? root)) _
  · exact ((storesRight.modify notRight _).setParent_of_notMem
      (fun x mem root => apart x (Layout.mem_slots_of_root? root) mem) _).setParent
        nodupRight (some h)

/-! ## Releasing -/

/-- The node without its links. -/
def Node.cleared (node : Node) : Node := { node with parent := none, left := none, right := none }

/-- The second entry of a slot is the first, or the first without its links. -/
def KeepsButLinks (before after : Option Node) : Prop :=
  after = before ∨ after = before.map Node.cleared

theorem KeepsButLinks.trans {first second third : Option Node} (early : KeepsButLinks first second)
    (late : KeepsButLinks second third) : KeepsButLinks first third := by
  rcases early with rfl | rfl
  · exact late
  · right
    rcases late with rfl | rfl
    · rfl
    · cases first <;> rfl

/-- Whatever the links are, a release takes nothing from a node but its links. -/
theorem keepsButLinks_releaseWithin (depth : Nat) (a : Arena) (top : Option Handle) (x : Handle) :
    KeepsButLinks (a.node? x) ((releaseWithin depth a top).node? x) := by
  induction depth generalizing a top with
  | zero => exact .inl rfl
  | succ depth ih =>
    cases top with
    | none => exact .inl rfl
    | some slot =>
      simp only [releaseWithin]
      split
      · exact .inl rfl
      · next node _ =>
        let a₁ : Arena := { a.modify slot Node.cleared with free := slot :: a.free }
        have modified : a₁.node? x = if slot = x then (a.node? x).map Node.cleared else a.node? x :=
          node?_modify a slot Node.cleared x
        have first : KeepsButLinks (a.node? x) (a₁.node? x) := by
          by_cases same : slot = x
          · exact .inr (modified.trans (if_pos same))
          · exact .inl (modified.trans (if_neg same))
        have onRight := ih a₁ node.right
        have onLeft := ih (releaseWithin depth a₁ node.right) node.left
        exact (first.trans onRight).trans onLeft

theorem keepsButLinks_release (a : Arena) (top : Option Handle) (x : Handle) :
    KeepsButLinks (a.node? x) ((a.release top).node? x) :=
  keepsButLinks_releaseWithin (a.nodes.size + 1) a top x

/-- `b` is `a` after the release of a layout. -/
structure Released (a b : Arena) (L : Layout) : Prop where
  free : b.free = L.slots ++ a.free
  size : b.nodes.size = a.nodes.size
  root : b.root = a.root
  node? : ∀ x, b.node? x = if x ∈ L.slots then (a.node? x).map Node.cleared else a.node? x

theorem Released.frame (released : Released a b L) {M : Layout} (stores : a.Stores parent M)
    (apart : ∀ x ∈ M.slots, x ∉ L.slots) : b.Stores parent M :=
  stores.frame fun x mem => by rw [released.node?, if_neg (apart x mem)]

theorem Stores.releaseWithin {depth : Nat} (stores : a.Stores parent L) (nodup : L.slots.Nodup)
    (deep : L.slots.length ≤ depth) : Released a (releaseWithin depth a L.root?) L := by
  induction L generalizing a parent depth with
  | absent =>
    cases depth <;> exact ⟨rfl, rfl, rfl, fun x => by simp [Arena.releaseWithin]⟩
  | node slot kind span left right ihLeft ihRight =>
    obtain ⟨here, storesLeft, storesRight⟩ := stores
    simp only [Layout.slots_node, List.length_append, List.length_singleton] at deep
    obtain _ | depth := depth
    · omega
    obtain ⟨nodupLeft, nodupRight, apart, notLeft, notRight⟩ := Layout.apart_of_nodup nodup
    -- The node gives up its links first, so its operands are still stored afterwards.
    let a₁ : Arena := { a.modify slot Node.cleared with free := slot :: a.free }
    have kept : ∀ {q : Option Handle} {M : Layout}, a.Stores q M → slot ∉ M.slots →
        a₁.Stores q M := fun stored outside => (stored.modify outside _).frame fun _ _ => rfl
    have onRight := ihRight (kept storesRight notRight) nodupRight
      (show right.slots.length ≤ depth by omega)
    have onLeft := ihLeft (onRight.frame (kept storesLeft notLeft) apart) nodupLeft
      (show left.slots.length ≤ depth by omega)
    have unfolded : Arena.releaseWithin (depth + 1) a (some slot) =
        Arena.releaseWithin depth (Arena.releaseWithin depth a₁ right.root?) left.root? := by
      simp only [Arena.releaseWithin, here]
      rfl
    rw [Layout.root?_node, unfolded]
    refine ⟨?_, ?_, ?_, fun x => ?_⟩
    · rw [onLeft.free, onRight.free]
      simp [a₁]
    · rw [onLeft.size, onRight.size]
      exact size_nodes_modify a slot Node.cleared
    · rw [onLeft.root, onRight.root]
      rfl
    · have first : a₁.node? x = if slot = x then (a.node? x).map Node.cleared else a.node? x :=
        node?_modify a slot Node.cleared x
      -- A slot is in one of the operands at most, and the topmost one is in neither.
      rw [onLeft.node?, onRight.node?, first]
      by_cases inLeft : x ∈ left.slots
      · have ne : slot ≠ x := fun same => notLeft (same ▸ inLeft)
        simp [inLeft, apart x inLeft, ne]
      · by_cases inRight : x ∈ right.slots
        · have ne : slot ≠ x := fun same => notRight (same ▸ inRight)
          simp [inLeft, inRight, ne]
        · by_cases same : slot = x
          · simp [inLeft, inRight, same]
          · simp [inLeft, inRight, same, Ne.symm same]

/-- Releasing a layout puts its slots on the free stack and clears them. -/
theorem Stores.released (stores : a.Stores parent L) (nodup : L.slots.Nodup) :
    Released a (a.release L.root?) L :=
  stores.releaseWithin nodup (Nat.le_succ_of_le (stores.length_le nodup))

end Arena
end Fluxion
