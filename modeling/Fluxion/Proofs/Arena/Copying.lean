import Fluxion.Proofs.Arena.Runs
import Fluxion.Proofs.Simplification.Refinement
import Fluxion.Proofs.Tree.Every
/- Copies from one arena into another. `Carries` says that a whole tree hangs at a slot, as
   `Holds` says it of the root; so it does at every node of a tree (`Holds.exists_carries`), and
   at every slot in use of a linked arena (`IsLinked.exists_carries`). Storing a draft takes as
   many slots as its tree has nodes, the released ones before new ones (`free_build`,
   `size_nodes_build`); with what `Tidy.build` says of the nodes, this is all there is to know of a
   copy: which slots it takes, what it stores there and that everything else stays
   (`copyFrom_faithful`).

   Equality of trees compares fractions as numbers, so a tree is equal to its copy, and to
   itself, if and only if no fraction in it is NaN (`Tree.same_self_iff`). -/
namespace Fluxion

/-! ## Equality of a tree and its copy -/

theorem Kind.same_self_iff (kind : Kind) : kind.same kind = true ↔ kind ≠ .fraction .nan := by
  cases kind with
  | fraction x =>
    show x.same x = true ↔ _
    cases x <;> simp [Binary64.same]
  | integer | var | param | operator => simp [Kind.same]

theorem Tree.same_self_iff (t : Tree) :
    t.same t = true ↔ t.EveryKind fun kind => kind ≠ .fraction .nan := by
  induction t with
  | absent => exact ⟨fun _ => trivial, fun _ => rfl⟩
  | node kind span left right ihLeft ihRight =>
    simp only [same, Bool.and_eq_true, ihLeft, ihRight, Kind.same_self_iff, and_assoc]
    rfl

namespace Arena

/-! ## Which slots are taken -/

theorem free_alloc (a : Arena) (node : Node) : (a.alloc node).2.free = a.free.drop 1 := by
  rw [alloc]
  split <;> simp [*]

theorem size_nodes_alloc (a : Arena) (node : Node) :
    (a.alloc node).2.nodes.size = a.nodes.size + (1 - a.free.length) := by
  rw [alloc]
  split <;> simp [*]

theorem free_place (a : Arena) (kind : Kind) (span : Span) (left right : Option Handle) :
    (a.place kind span left right).2.free = a.free.drop 1 := by
  rw [place, free_link, free_alloc]

theorem size_nodes_place (a : Arena) (kind : Kind) (span : Span) (left right : Option Handle) :
    (a.place kind span left right).2.nodes.size = a.nodes.size + (1 - a.free.length) := by
  rw [place, size_nodes_link, size_nodes_alloc]

/-- Storing a draft takes one slot for each node, and released slots first. -/
theorem free_build (a : Arena) (d : Draft) : (a.build d).2.free = a.free.drop d.tree.size := by
  induction d generalizing a with
  | absent => rfl
  | node kind span order left right ihLeft ihRight =>
    cases order with
    | leftFirst =>
      simp only [build, free_place, ihLeft, ihRight, List.drop_drop, Draft.tree, Tree.size]
    | rightFirst =>
      simp only [build, free_place, ihLeft, ihRight, List.drop_drop, Draft.tree, Tree.size,
        Nat.add_comm right.tree.size]

/-- New slots are made for the nodes that no released slot is left for. -/
theorem size_nodes_build (a : Arena) (d : Draft) :
    (a.build d).2.nodes.size = a.nodes.size + (d.tree.size - a.free.length) := by
  induction d generalizing a with
  | absent => simp [build, Draft.tree, Tree.size]
  | node kind span order left right ihLeft ihRight =>
    cases order <;>
    · simp only [build, size_nodes_place, ihLeft, ihRight, free_build, List.length_drop, Draft.tree,
        Tree.size]
      omega

/-! ## Trees at a slot -/

/-- A whole tree hangs at the slot, below the given parent: its links go both ways, and nothing
    in it is shared or released. -/
structure Carries (a : Arena) (parent : Option Handle) (h : Handle) (L : Layout) : Prop where
  root : L.root? = some h
  stores : a.Stores parent L
  nodup : (L.slots ++ a.free).Nodup
  bound : ∀ x ∈ a.free, x < a.nodes.size

variable {a b source : Arena} {parent : Option Handle} {h : Handle} {L : Layout}

/-- At every node of a tree hangs a tree. -/
theorem Holds.exists_carries (holds : a.Holds L) (reachable : a.Reachable h) :
    ∃ parent M, a.Carries parent h M := by
  obtain ⟨parent, kind, span, left, right, stores, within⟩ :=
    holds.stores.exists_of_mem (holds.reachable_iff.mp reachable)
  have nodup := holds.nodup.sublist (within.slots_sublist.append_right a.free)
  exact ⟨parent, _, rfl, stores, nodup, holds.bound⟩

/-- In a linked arena a tree hangs at every slot in use, below the root or not. -/
theorem IsLinked.exists_carries {rooted : Bool} (linked : a.IsLinked rooted) (live : a.Live h) :
    ∃ parent M, a.Carries parent h M := by
  obtain ⟨M, stores, root, nodup, below⟩ := linked.exists_layout live
  obtain ⟨trees, forest⟩ := linked.exists_isForest
  refine ⟨_, M, root, stores, List.nodup_append.mpr ⟨nodup, linked.releasedOnce, ?_⟩,
    forest.tidy.bound⟩
  -- What leads to a slot in use is in use.
  rintro x mem y released rfl
  obtain rfl | ⟨p, link, -⟩ := ((below x).mp mem).cases_head
  · exact live.2 released
  · exact (linked.of_leadsTo link).1.2 released

namespace Carries

variable (carries : a.Carries parent h L)
include carries

theorem nodup_slots : L.slots.Nodup := (List.nodup_append.mp carries.nodup).1

theorem tree?_eq : a.tree? h = some L.tree := carries.stores.tree?_eq carries.nodup_slots carries.root

/-- Made the root, the slot is that of the tree of the arena. -/
theorem holds_setRoot : (a.setRoot h).Holds L := by
  have moved := carries.stores.setParent carries.nodup_slots none
  rw [carries.root] at moved
  refine ⟨carries.root, moved.frame fun _ _ => rfl, ?_, ?_⟩
  · simpa [setRoot] using carries.nodup
  · simpa [setRoot] using carries.bound

end Carries

/-! ## Copies -/

/-- `b` is `a` with slots taken that were not in use: the released ones, the last released
    first, and new ones when these are used up. -/
structure Occupies (a b : Arena) (taken : List Handle) : Prop where
  slots : taken.Perm (a.free.take taken.length ++
    List.range' a.nodes.size (taken.length - a.free.length))
  free : b.free = a.free.drop taken.length
  size : b.nodes.size = a.nodes.size + (taken.length - a.free.length)
  root : b.root = a.root
  unused : ∀ x ∈ taken, ¬a.Live x
  kept : ∀ x, a.Live x → b.Live x ∧ b.node? x = a.node? x

theorem Takes.occupies {taken : List Handle} (takes : Takes a b taken)
    (free : b.free = a.free.drop taken.length)
    (size : b.nodes.size = a.nodes.size + (taken.length - a.free.length)) :
    Occupies a b taken := by
  -- The released slots that are taken are those that are no longer there.
  obtain ⟨reused, parted, slots⟩ := takes.free
  obtain rfl : reused = a.free.take taken.length := by
    rw [free] at parted
    exact List.append_cancel_right (parted.symm.trans (List.take_append_drop _ _).symm)
  rw [size, Nat.add_sub_cancel_left] at slots
  have unused : ∀ x ∈ taken, ¬a.Live x := by
    rintro x mem ⟨old, notFree⟩
    obtain inFree | inNew := List.mem_append.mp (slots.mem_iff.mp mem)
    · exact notFree (List.mem_of_mem_take inFree)
    · exact Nat.not_lt.mpr (List.mem_range'_1.mp inNew).1 old
  refine ⟨slots, free, size, takes.root, unused, fun x live => ⟨⟨?_, fun released => ?_⟩, ?_⟩⟩
  · exact live.1.trans_le takes.size
  · rw [free] at released
    exact live.2 (List.mem_of_mem_drop released)
  · exact takes.frame x fun mem => unused x mem live

/-- Copying what hangs at a slot stores it below no parent, in as many slots as it has nodes,
    none of them in use. Made the root, the copy is the tree that the slot has when it is made
    the root, and equal to it unless NaN occurs in it. -/
theorem copyFrom_faithful (carries : source.Carries parent h L) (tidy : a.Tidy) :
    ∃ copy b M, a.copyFrom source h = some (copy, b) ∧
      source.tree? h = some M.tree ∧ b.tree? copy = some M.tree ∧
      b.Carries none copy M ∧ b.parent? copy = none ∧
      Occupies a b M.slots ∧ M.slots.length = source.sizeAt (some h) ∧
      (b.setRoot copy).tree = (source.setRoot h).tree ∧
      ((b.setRoot copy).same (source.setRoot h) = true ↔
        M.tree.EveryKind fun kind => kind ≠ .fraction .nan) := by
  have read := carries.tree?_eq
  have size := carries.stores.sizeAt_eq carries.nodup_slots
  rw [carries.root] at size
  obtain ⟨M, takes, stores, top, drafted⟩ := tidy.build (.copy L.tree)
  rw [Draft.tree_copy] at drafted
  have taken : (Draft.copy L.tree).tree.size = M.slots.length := by
    rw [Draft.tree_copy, ← drafted, Layout.size_tree]
  have occupies : Occupies a (a.build (.copy L.tree)).2 M.slots :=
    takes.occupies (taken ▸ free_build a _) (taken ▸ size_nodes_build a _)
  obtain ⟨copy, root⟩ : ∃ copy, M.root? = some copy := by
    cases M with
    | node slot => exact ⟨slot, rfl⟩
    | absent =>
      cases L with
      | absent => cases carries.root
      | node => cases drafted
  have copied : a.copyFrom source h = some (copy, (a.build (.copy L.tree)).2) := by
    rw [copyFrom, read]
    simp only [Option.bind_eq_bind, Option.bind_some, top, root]
  have carried : (a.build (.copy L.tree)).2.Carries none copy M :=
    ⟨root, stores, takes.nodup tidy, (takes.tidy tidy).bound⟩
  have tree : ((a.build (.copy L.tree)).2.setRoot copy).tree = (source.setRoot h).tree := by
    rw [carried.holds_setRoot.tree_eq, carries.holds_setRoot.tree_eq, drafted]
  refine ⟨copy, _, M, copied, by rw [read, drafted], carried.tree?_eq, carried,
    stores.parent?_root root, occupies, ?_, tree, ?_⟩
  · rw [size, ← Layout.size_tree, drafted, Layout.size_tree]
  · rw [same, ← tree, Tree.same_self_iff, carried.holds_setRoot.tree_eq]

/-- The expression `sin(x)` between two released slots. -/
def crowded : Arena where
  nodes := #[⟨.integer 7, ⟨0, 1⟩, none, none, none⟩, ⟨.var, ⟨4, 5⟩, some 3, none, none⟩,
    ⟨.integer 8, ⟨1, 2⟩, none, none, none⟩,
    ⟨.operator (.apply .sin), ⟨0, 6⟩, none, none, some 1⟩]
  free := [2, 0]
  root := 3

theorem copyFrom_faithful_quotient :
    ∃ b M, crowded.copyFrom scattered 0 = some (4, b) ∧ b.Carries none 4 M ∧
      b.tree? 4 = some (.node (.operator (.binary .div)) ⟨6, 9⟩ (.leaf (.integer 1) ⟨6, 7⟩)
        (.leaf (.param 0) ⟨8, 9⟩)) ∧
      M.slots.Perm [2, 0, 4] ∧ b.free = [] ∧ b.nodes.size = 5 ∧ b.node? 1 = crowded.node? 1 ∧
      b.node? 3 = crowded.node? 3 ∧ (b.setRoot 4).same (scattered.setRoot 0) = true := by
  have reachable : scattered.Reachable 0 := holds_scattered.reachable_iff.mpr (by decide)
  obtain ⟨parent, L, carries⟩ := holds_scattered.exists_carries reachable
  have tidy : crowded.Tidy := ⟨by decide, by decide⟩
  obtain ⟨copy, b, M, copied, read, tree, carried, -, occupies, size, -, same⟩ :=
    copyFrom_faithful carries tidy
  obtain rfl : copy = 4 := by
    have answered : (crowded.copyFrom scattered 0).map Prod.fst = some 4 := by decide +kernel
    rw [copied] at answered
    exact Option.some.inj answered
  have whole : scattered.tree? 0 = some (.node (.operator (.binary .div)) ⟨6, 9⟩
      (.leaf (.integer 1) ⟨6, 7⟩) (.leaf (.param 0) ⟨8, 9⟩)) := by decide +kernel
  have three : M.slots.length = 3 := size.trans (by decide +kernel)
  have slots := occupies.slots
  have free := occupies.free
  have new := occupies.size
  rw [three] at slots free new
  rw [whole] at read
  refine ⟨b, M, copied, carried, tree.trans read.symm, slots, free, new,
    (occupies.kept 1 ⟨by decide, by decide⟩).2, (occupies.kept 3 ⟨by decide, by decide⟩).2,
    same.mpr ?_⟩
  rw [← Option.some.inj read]
  simp [Tree.leaf, Tree.EveryKind, Tree.Every]

/-- A number that is none, as a tree of one node. -/
def notANumber : Arena where
  nodes := #[⟨.fraction .nan, ⟨0, 1⟩, none, none, none⟩]

/-- Two slots, of which the first was released twice. -/
def releasedTwice : Arena where
  nodes := #[⟨.var, ⟨0, 1⟩, none, none, none⟩, ⟨.var, ⟨0, 1⟩, none, none, none⟩]
  free := [0, 0]

/-- The copy of a tree with NaN in it is the same tree, and not equal to it. Where a slot was
    released twice, a copy puts two nodes into it and is another tree: of `x*1` it is `1*1`. -/
theorem copyFrom_not_always_equal :
    (notANumber.WellFormed ∧
      ∃ copy b, ({} : Arena).copyFrom notANumber 0 = some (copy, b) ∧
        (b.setRoot copy).tree = (notANumber.setRoot 0).tree ∧
        (b.setRoot copy).same (notANumber.setRoot 0) = false) ∧
    ((((({} : Arena).alloc ⟨.var, ⟨0, 1⟩, none, none, none⟩).2.alloc
        ⟨.var, ⟨0, 1⟩, none, none, none⟩).2.release (some 0)).release (some 0) = releasedTwice ∧
      ∃ copy b, releasedTwice.copyFrom product 2 = some (copy, b) ∧
        (b.setRoot copy).same (product.setRoot 2) = false ∧
        b.tree? copy = some (.node (.operator (.binary .mul)) .nowhere
          (.leaf (.integer 1) .nowhere) (.leaf (.integer 1) .nowhere))) := by
  refine ⟨⟨⟨.node 0 (.fraction .nan) ⟨0, 1⟩ .absent .absent, ?_, .leaf rfl⟩, ?_⟩, ?_, ?_⟩
  · exact ⟨rfl, ⟨rfl, trivial, trivial⟩, by decide, by decide⟩
  · exact ⟨0, notANumber, by decide +kernel, by decide +kernel, by decide +kernel⟩
  · decide +kernel
  · exact ⟨2, ((releasedTwice.copyFrom product 2).getD (0, {})).2, by decide +kernel,
      by decide +kernel, by decide +kernel⟩

end Arena
end Fluxion
