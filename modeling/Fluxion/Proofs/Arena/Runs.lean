import Fluxion.Arena.Command
import Fluxion.Proofs.Arena.Rearrangement
/- Commands and runs. A command is proper in an arena if what it names is in use and hangs where the
   command wants it (`Command.IsProper`): operands and a new root hang nowhere, what is released
   hangs nowhere either, and what is copied belongs to a linked arena.

   Carried out on a linked arena, a proper command succeeds, leaves a linked arena and changes the
   number of slots in use by the number of nodes that it stores and releases (`Command.growth`,
   `IsLinked.run?`). There is one lemma for each command, from what the command does to the forest
   of the arena. By induction on the commands, whatever comes of an empty arena by proper commands,
   however many, is linked (`IsBuilt`, `commands_keep_links`).

   Before a root is set, nothing is known of the field that names it; `setsRoot` says which commands
   set it. -/
namespace Fluxion
namespace Arena

variable {a b : Arena} {rooted : Bool} {trees rest : List Layout} {h : Handle}

/-! ## Commands in their place -/

/-- In use, below no parent and, where there is a root, not the root itself. -/
structure IsLoose (a : Arena) (rooted : Bool) (h : Handle) : Prop where
  live : a.Live h
  top : a.parent? h = none
  notRoot : rooted = true → h ≠ a.root

namespace Command

/-- What a command asks of the arena. Operands hang nowhere, and apart from each other and from
    a node that is to be rewritten; a root hangs nowhere, and so does what is released; what is
    copied is a part of a linked arena. -/
def IsProper (a : Arena) (rooted : Bool) : Command → Prop
  | leaf .. => True
  | binary _ left right _ => a.IsLoose rooted left ∧ a.IsLoose rooted right ∧ left ≠ right
  | unary _ operand _ => a.IsLoose rooted operand
  | setRoot h => a.Live h ∧ a.parent? h = none
  | release h => a.IsLoose rooted h
  | makeLeaf h _ | takeOperands h | removeLeft h => a.Live h
  | hoist h child => a.Live h ∧ a.IsOperand child h
  | rewrite h _ left right =>
    a.Live h ∧ a.left? h = none ∧ a.right? h = none ∧
      (∀ x, left = some x ∨ right = some x →
        a.IsLoose rooted x ∧ ¬Relation.ReflTransGen a.LeadsTo h x) ∧
      ∀ x, left = some x → right ≠ some x
  | copy source h => (∃ rooted, source.IsLinked rooted) ∧ source.Live h

/-- Whether there is a root after the command, be there one before or not. -/
def setsRoot : Command → Bool
  | setRoot _ => true
  | _ => false

/-- How many more slots are in use after the command. -/
def growth (a : Arena) : Command → Int
  | leaf .. | binary .. | unary .. => 1
  | copy source h => source.sizeAt (some h)
  | release h => -a.sizeAt (some h)
  | makeLeaf h _ => 1 - a.sizeAt (some h)
  | hoist h child => -(1 + a.sizeAt (if a.left? h = some child then a.right? h else a.left? h))
  | removeLeft h => -a.sizeAt (a.left? h)
  | setRoot .. | takeOperands .. | rewrite .. => 0

theorem size_le_reach (a : Arena) (command : Command) : a.nodes.size ≤ command.reach a := by
  cases command with
  | binary | unary =>
    simp only [reach]
    split <;> omega
  | leaf | setRoot | release | makeLeaf | hoist | takeOperands | removeLeft | rewrite | copy =>
    exact Nat.le_refl _

end Command

/-- What comes of an empty arena by proper commands, with or without a root. -/
inductive IsBuilt : Arena → Bool → Prop where
  | empty : IsBuilt {} false
  | step {a b : Arena} {rooted : Bool} {reply : Reply} (command : Command) (built : IsBuilt a rooted)
      (proper : command.IsProper a rooted) (ran : command.run? a = some (reply, b)) :
      IsBuilt b (rooted || command.setsRoot)

/-! ## On forests -/

namespace IsForest

variable (forest : a.IsForest rooted trees)
include forest

theorem isCounted : a.isCounted = true := by
  have lengths := forest.perm.length_eq
  simp only [List.length_append, List.length_range] at lengths
  rw [Arena.isCounted, decide_eq_true_eq]
  omega

/-- A slot in use, with the layout that it is in in front. -/
theorem exists_within (live : a.Live h) : ∃ L rest kind span l r, trees.Perm (L :: rest) ∧
    a.IsForest rooted (L :: rest) ∧ (Layout.node h kind span l r).Within L := by
  obtain ⟨L, mem, inside⟩ := forest.live_iff.mp live
  obtain ⟨rest, perm, forest⟩ := forest.exists_cons mem
  obtain ⟨kind, span, l, r, within⟩ := Layout.exists_within_of_mem inside
  exact ⟨L, rest, kind, span, l, r, perm, forest, within⟩

/-- A node somewhere in the forest is reduced. -/
theorem reduce {lost : Nat} (live : a.Live h)
    (reduces : ∀ kind span l r, (Layout.node h kind span l r).slots.Nodup →
      (∃ q, a.Stores q (.node h kind span l r)) →
      ∃ N, (∀ q, a.Stores q (.node h kind span l r) → Reduces a b q (.node h kind span l r) N) ∧
        N.slots.length + lost = (Layout.node h kind span l r).slots.length) :
    ∃ trees', b.IsForest rooted trees' ∧ b.size + lost = a.size := by
  obtain ⟨L, rest, kind, span, l, r, -, forest, within⟩ := forest.exists_within live
  have stores := forest.stores L List.mem_cons_self
  have nodup := forest.nodup_slots (L := L) List.mem_cons_self
  obtain ⟨N, reduction, fewer⟩ := reduces kind span l r (nodup.sublist within.slots_sublist)
    (stores.within within)
  obtain ⟨L', changes, root, lengths⟩ := Rearranges.of_reduces stores nodup within reduction
  have after : b.IsForest rooted ([L'] ++ rest) :=
    IsForest.rearrange [L] forest changes fun _ M mem top => by
      cases List.mem_singleton.mp mem
      exact ⟨L', List.mem_singleton_self L', root.trans top⟩
  refine ⟨_, after, ?_⟩
  rw [after.size_eq, forest.size_eq]
  simp only [List.flatMap_cons, List.singleton_append, List.length_append]
  omega

theorem alloc (kind : Kind) (span : Span) :
    (a.alloc { kind, span }).2.IsForest rooted
        (.node (a.alloc { kind, span }).1 kind span .absent .absent :: trees) ∧
      (a.alloc { kind, span }).2.size = a.size + 1 := by
  obtain ⟨takes, here⟩ := forest.tidy.alloc { kind, span }
  have after := forest.takes takes
    (L := .node (a.alloc { kind, span }).1 kind span .absent .absent) ⟨here, trivial, trivial⟩ rfl
  refine ⟨after, ?_⟩
  rw [after.size_eq, forest.size_eq, List.flatMap_cons, List.length_append]
  exact Nat.add_comm _ _

end IsForest

/-- A leaf somewhere in the forest becomes an operator over others of its layouts. -/
theorem IsForest.rewrite {L l r : Layout} {kind : Kind} {span : Span}
    (forest : a.IsForest rooted (r :: l :: L :: rest))
    (within : (Layout.node h kind span .absent .absent).Within L) (op : Operator)
    (notLeft : rooted = true → l.root? ≠ some a.root)
    (notRight : rooted = true → r.root? ≠ some a.root) :
    ∃ trees', (a.rewrite h op l.root? r.root?).IsForest rooted trees' := by
  have ordered : (r :: l :: L :: rest).Perm ([L, l, r] ++ rest) :=
    ((List.Perm.swap L l rest).cons r).trans ((List.Perm.swap L r _).trans
      ((List.Perm.swap l r rest).cons L))
  have forest := forest.of_perm ordered
  have nodup := forest.nodup
  rw [List.flatMap_append, List.append_assoc] at nodup
  obtain ⟨L', changes, root⟩ := (forest.stores L (by simp)).rearranges_rewrite
    (forest.stores l (by simp)) (forest.stores r (by simp)) (List.nodup_append.mp nodup).1 within op
  refine ⟨_, IsForest.rearrange _ forest changes fun isRooted M mem top =>
    ⟨L', List.mem_singleton_self L', ?_⟩⟩
  simp only [List.mem_cons, List.not_mem_nil, or_false] at mem
  obtain rfl | rfl | rfl := mem
  · exact root.trans top
  · exact absurd top (notLeft isRooted)
  · exact absurd top (notRight isRooted)

/-! ## On linked arenas -/

/-- A slot of a layout is below its topmost one. -/
theorem Stores.leadsTo_root {L : Layout} {parent : Option Handle} {x : Handle}
    (stores : a.Stores parent L) (mem : x ∈ L.slots) (root : L.root? = some h) :
    Relation.ReflTransGen a.LeadsTo x h := by
  induction L generalizing parent h with
  | absent => simp at mem
  | node slot kind span left right ihLeft ihRight =>
    cases root
    simp only [Layout.slots_node, List.mem_append, List.mem_singleton] at mem
    obtain (inLeft | inRight) | rfl := mem
    · obtain ⟨y, root⟩ : ∃ y, left.root? = some y := by
        cases left with
        | absent => simp at inLeft
        | node y => exact ⟨y, rfl⟩
      exact (ihLeft stores.2.1 inLeft root).tail (stores.2.1.parent?_root root)
    · obtain ⟨y, root⟩ : ∃ y, right.root? = some y := by
        cases right with
        | absent => simp at inRight
        | node y => exact ⟨y, rfl⟩
      exact (ihRight stores.2.2 inRight root).tail (stores.2.2.parent?_root root)
    · exact .refl

/-- An operand of a node is one of the two layouts below it. -/
theorem Stores.exists_sides {l r : Layout} {parent : Option Handle} {kind : Kind} {span : Span}
    {child : Handle} (stored : a.Stores parent (.node h kind span l r))
    (operand : a.IsOperand child h) :
    ∃ inner place below beside other, Sides (.node child inner place below beside) other l r := by
  obtain onLeft | onRight := operand
  · rw [stored.left?_eq] at onLeft
    cases l with
    | absent => cases onLeft
    | node slot inner place below beside =>
      cases onLeft
      exact ⟨inner, place, below, beside, r, .inl ⟨rfl, rfl⟩⟩
  · rw [stored.right?_eq] at onRight
    cases r with
    | absent => cases onRight
    | node slot inner place below beside =>
      cases onRight
      exact ⟨inner, place, below, beside, l, .inr ⟨rfl, rfl⟩⟩

theorem modify_eq_self {node : Node} {change : Node → Node} (here : a.node? h = some node)
    (same : change node = node) : a.modify h change = a := by
  have nodes : a.nodes.modify h change = a.nodes := by
    refine Array.ext_getElem? fun x => ?_
    rw [Array.getElem?_modify]
    split
    · next slot =>
      subst slot
      rw [show a.nodes[h]? = some node from here, Option.map_some, same]
    · rfl
  rw [modify, nodes]

/-- Placing an operator is storing it without operands and rewriting it. -/
theorem place_eq (tidy : a.Tidy) (op : Operator) (span : Span) (l r : Option Handle) :
    a.place (.operator op) span l r = ((a.alloc { kind := .operator op, span }).1,
      (a.alloc { kind := .operator op, span }).2.rewrite (a.alloc { kind := .operator op, span }).1
        op l r) := by
  obtain ⟨-, here⟩ := tidy.alloc { kind := .operator op, span }
  rw [Arena.rewrite, modify_eq_self here rfl, place]

theorem size_rewrite (a : Arena) (h : Handle) (op : Operator) (l r : Option Handle) :
    (a.rewrite h op l r).size = a.size := by
  simp [size, rewrite]

namespace IsLinked

variable (linked : a.IsLinked rooted)
include linked

theorem sizeAt_pos (live : a.Live h) : 0 < a.sizeAt (some h) := by
  obtain ⟨L, stores, root, nodup, -⟩ := linked.exists_layout live
  rw [← root, stores.sizeAt_eq nodup]
  exact List.length_pos_of_mem (Layout.mem_slots_of_root? root)

theorem makeLeaf (live : a.Live h) (kind : Kind) :
    ∃ trees, (a.makeLeaf h kind).IsForest rooted trees ∧
      (a.makeLeaf h kind).size + (a.sizeAt (some h) - 1) = a.size := by
  obtain ⟨trees, forest⟩ := linked.exists_isForest
  refine forest.reduce live fun old span l r nodup ⟨q, stored⟩ => ?_
  refine ⟨.node h kind span .absent .absent, fun q stored => stored.makeLeaf nodup kind, ?_⟩
  have size := stored.sizeAt_eq nodup
  rw [Layout.root?_node] at size
  rw [size]
  simp only [Layout.slots_node, Layout.slots_absent, List.length_append, List.length_singleton,
    List.length_nil]
  omega

theorem removeLeft (live : a.Live h) : ∃ trees, (a.removeLeft h).IsForest rooted trees ∧
    (a.removeLeft h).size + a.sizeAt (a.left? h) = a.size := by
  obtain ⟨trees, forest⟩ := linked.exists_isForest
  refine forest.reduce live fun kind span l r nodup ⟨q, stored⟩ => ?_
  refine ⟨.node h kind span .absent r, fun q stored => stored.removeLeft nodup, ?_⟩
  rw [stored.left?_eq, stored.2.1.sizeAt_eq (Layout.apart_of_nodup nodup).1]
  simp only [Layout.slots_node, Layout.slots_absent, List.length_append, List.length_singleton,
    List.length_nil]
  omega

theorem hoist {child : Handle} (live : a.Live h) (operand : a.IsOperand child h) :
    ∃ trees, (a.hoist h child).IsForest rooted trees ∧ (a.hoist h child).size +
      (1 + a.sizeAt (if a.left? h = some child then a.right? h else a.left? h)) = a.size := by
  obtain ⟨trees, forest⟩ := linked.exists_isForest
  refine forest.reduce live fun kind span l r nodup ⟨q, stored⟩ => ?_
  -- The other operand is released with the slot of this one.
  obtain ⟨inner, place, below, beside, other, sides⟩ := stored.exists_sides operand
  refine ⟨_, fun q stored => stored.hoist nodup sides, ?_⟩
  have perm : (child :: other.slots ++ (Layout.node h inner place below beside).slots).Perm
      (Layout.node h kind span l r).slots := sides.perm_hoist
  have apart := fresh_of_perm perm nodup
  rw [stored.rest_eq sides rfl apart.1, (stored.sides sides).2.sizeAt_eq apart.2.1, ← perm.length_eq,
    List.length_append, List.length_cons]
  omega

theorem takeOperands (live : a.Live h) :
    ∃ trees, (a.takeOperands h).2.IsForest rooted trees := by
  obtain ⟨trees, forest⟩ := linked.exists_isForest
  obtain ⟨L, rest, kind, span, l, r, -, forest, within⟩ := forest.exists_within live
  obtain ⟨L', changes, root⟩ := (forest.stores L List.mem_cons_self).rearranges_takeOperands
    (forest.nodup_slots List.mem_cons_self) within
  refine ⟨_, IsForest.rearrange [L] forest changes fun _ M mem top => ?_⟩
  cases List.mem_singleton.mp mem
  exact ⟨L', List.mem_cons_self, root.trans top⟩

theorem release (loose : a.IsLoose rooted h) : ∃ trees, (a.release (some h)).IsForest rooted trees ∧
    (a.release (some h)).size + a.sizeAt (some h) = a.size := by
  obtain ⟨trees, forest⟩ := linked.exists_isForest
  obtain ⟨L, mem, root⟩ := forest.exists_root loose.live loose.top
  obtain ⟨rest, -, forest⟩ := forest.exists_cons mem
  have stores := forest.stores L List.mem_cons_self
  have nodup := forest.nodup_slots (L := L) List.mem_cons_self
  have changes := stores.rearranges_release nodup
  have size := stores.sizeAt_eq nodup
  rw [root] at changes size
  have after : (a.release (some h)).IsForest rooted ([] ++ rest) :=
    IsForest.rearrange [L] forest changes fun isRooted M mem top => by
      cases List.mem_singleton.mp mem
      rw [root] at top
      exact absurd (Option.some.inj top) (loose.notRoot isRooted)
  refine ⟨_, after, ?_⟩
  rw [after.size_eq, forest.size_eq, size, List.nil_append, List.flatMap_cons, List.length_append]
  omega

theorem setRoot (live : a.Live h) (top : a.parent? h = none) :
    ∃ trees, (a.setRoot h).IsForest true trees ∧ (a.setRoot h).size = a.size := by
  obtain ⟨trees, forest⟩ := linked.exists_isForest
  obtain ⟨L, mem, root⟩ := forest.exists_root live top
  -- The node has no parent link that would have to be cleared.
  have same : a.setRoot h = { a with root := h } := by
    obtain ⟨node, here⟩ : ∃ node, a.node? h = some node := ⟨_, Array.getElem?_eq_getElem live.1⟩
    rw [parent?, here, Option.bind_some] at top
    have cleared : { node with parent := none } = node := by rw [← top]
    rw [Arena.setRoot, setParent, modify_eq_self here cleared]
  rw [same]
  refine ⟨trees, ⟨fun M mem => ?_, forest.perm, forest.cleared, fun _ => ⟨L, mem, root⟩⟩, rfl⟩
  exact (forest.stores M mem).frame fun _ _ => rfl

theorem rewrite {op : Operator} {l r : Option Handle}
    (proper : (Command.rewrite h op l r).IsProper a rooted) :
    ∃ trees, (a.rewrite h op l r).IsForest rooted trees := by
  obtain ⟨live, noLeft, noRight, loose, distinct⟩ := proper
  obtain ⟨trees, forest⟩ := linked.exists_isForest
  obtain ⟨L, rest, kind, span, left, right, -, forest, within⟩ := forest.exists_within live
  have stores := forest.stores L List.mem_cons_self
  -- The node has no operands, so its layout is a leaf.
  obtain ⟨q, stored⟩ := stores.within within
  rw [stored.left?_eq] at noLeft
  rw [stored.right?_eq] at noRight
  cases left with
  | node => cases noLeft
  | absent =>
  cases right with
  | node => cases noRight
  | absent =>
  have here : h ∈ L.slots := within.slots_sublist.subset (by simp)
  have notAbove : ∀ x, l = some x ∨ r = some x → L.root? ≠ some x := fun x operand root =>
    (loose x operand).2 (stores.leadsTo_root here root)
  obtain ⟨left, rest, rootLeft, forest⟩ := forest.take_operand [L] l
    fun x operand => ⟨(loose x (.inl operand)).1.live, (loose x (.inl operand)).1.top,
      by simpa using notAbove x (.inl operand)⟩
  obtain ⟨right, rest, rootRight, forest⟩ := forest.take_operand [left, L] r
    fun x operand =>
      ⟨(loose x (.inr operand)).1.live, (loose x (.inr operand)).1.top, by
        simpa [rootLeft, notAbove x (.inr operand)] using fun same => distinct x same operand⟩
  subst rootLeft rootRight
  exact forest.rewrite within op
    (fun isRooted root => (loose _ (.inl root)).1.notRoot isRooted rfl)
    (fun isRooted root => (loose _ (.inr root)).1.notRoot isRooted rfl)

theorem place {l r : Option Handle} (op : Operator) (span : Span)
    (loose : ∀ x, l = some x ∨ r = some x → a.IsLoose rooted x)
    (distinct : ∀ x, l = some x → r ≠ some x) :
    ∃ trees, (a.place (.operator op) span l r).2.IsForest rooted trees ∧
      (a.place (.operator op) span l r).2.size = a.size + 1 := by
  obtain ⟨trees, forest⟩ := linked.exists_isForest
  obtain ⟨left, rest, rootLeft, before⟩ := forest.take_operand [] l
    fun x operand => ⟨(loose x (.inl operand)).live, (loose x (.inl operand)).top, by simp⟩
  obtain ⟨right, rest, rootRight, before⟩ := before.take_operand [left] r
    fun x operand => ⟨(loose x (.inr operand)).live, (loose x (.inr operand)).top, by
      simpa [rootLeft] using fun same => distinct x same operand⟩
  obtain ⟨stored, size⟩ := before.alloc (.operator op) span
  have root : (a.alloc { kind := .operator op, span }).2.root = a.root :=
    (forest.tidy.alloc _).1.root
  rw [place_eq forest.tidy, size_rewrite, size]
  subst rootLeft rootRight
  have ordered := List.Perm.trans (List.Perm.swap right
    (Layout.node (a.alloc { kind := .operator op, span }).1 (.operator op) span .absent .absent)
    (left :: rest)) ((List.Perm.swap left _ rest).cons right)
  obtain ⟨trees, after⟩ := (stored.of_perm ordered).rewrite .here op
    (fun isRooted same => (loose _ (.inl (same.trans (congrArg some root)))).notRoot isRooted rfl)
    (fun isRooted same => (loose _ (.inr (same.trans (congrArg some root)))).notRoot isRooted rfl)
  exact ⟨trees, after, rfl⟩

theorem copyFrom {source : Arena} {sourceRooted : Bool} (from' : source.IsLinked sourceRooted)
    (live : source.Live h) : ∃ copy b trees, a.copyFrom source h = some (copy, b) ∧
      b.IsForest rooted trees ∧ b.size = a.size + source.sizeAt (some h) := by
  obtain ⟨trees, forest⟩ := linked.exists_isForest
  obtain ⟨L, stores, root, nodup, -⟩ := from'.exists_layout live
  have tree := stores.tree?_eq nodup root
  have size := stores.sizeAt_eq nodup
  rw [root] at size
  obtain ⟨M, takes, stored, top, same⟩ := forest.tidy.build (.copy L.tree)
  rw [Draft.tree_copy] at same
  have after := forest.takes takes stored rfl
  cases M with
  | absent =>
    cases L with
    | absent => cases root
    | node => cases same
  | node slot kind span l r =>
    refine ⟨slot, (a.build (.copy L.tree)).2, _, ?_, after, ?_⟩
    · rw [Arena.copyFrom, tree]
      simp only [Option.bind_eq_bind, Option.bind_some, top, Layout.root?_node]
    · rw [after.size_eq, forest.size_eq, size, List.flatMap_cons, List.length_append,
        ← Layout.size_tree, same, Layout.size_tree, Nat.add_comm]

/-- A proper command on a linked arena is carried out, and the arena is linked again. -/
theorem run? {command : Command} (proper : command.IsProper a rooted) :
    ∃ reply b, command.run? a = some (reply, b) ∧ b.IsLinked (rooted || command.setsRoot) ∧
      b.isCounted = true ∧ (b.size : Int) = a.size + command.growth a := by
  -- It is enough to know what the command does to the forest.
  suffices done : ∃ reply b next trees, (∀ x ∈ command.slots, a.Live x) ∧ command.isFit a = true ∧
      command.perform a = some (reply, b) ∧ next = (rooted || command.setsRoot) ∧
      b.IsForest next trees ∧ (b.size : Int) = a.size + command.growth a by
    obtain ⟨reply, b, next, trees, live, fit, performed, rfl, forest, size⟩ := done
    refine ⟨reply, b, ?_, forest.isLinked, forest.isCounted, size⟩
    rw [Command.run?, performed, if_pos]
    rw [Bool.and_eq_true, List.all_eq_true]
    exact ⟨fun x mem => decide_eq_true ((live x mem).1.trans_le (command.size_le_reach a)), fit⟩
  have same : rooted = (rooted || false) := (Bool.or_false rooted).symm
  cases command with
  | leaf kind span =>
    obtain ⟨trees, forest⟩ := linked.exists_isForest
    obtain ⟨after, size⟩ := forest.alloc kind span
    refine ⟨.slot (a.alloc { kind, span }).1, (a.alloc { kind, span }).2, _, _, ?_, rfl, rfl, same,
      after, ?_⟩
    · simp [Command.slots]
    · rw [size, Command.growth]
      omega
  | binary op left right span =>
    obtain ⟨looseLeft, looseRight, distinct⟩ := proper
    obtain ⟨trees, after, size⟩ := linked.place (l := some left) (r := some right) op span
      (by rintro x (operand | operand) <;> cases operand <;> assumption)
      (by rintro x operand operand'; cases operand; cases operand'; exact distinct rfl)
    let placed := a.place (.operator op) span (some left) (some right)
    refine ⟨.slot placed.1, placed.2, _, trees, ?_, rfl, rfl, same, after, ?_⟩
    · simp [Command.slots, looseLeft.live, looseRight.live]
    · rw [size, Command.growth]
      omega
  | unary op operand span =>
    have loose : a.IsLoose rooted operand := proper
    obtain ⟨trees, after, size⟩ := linked.place (l := none) (r := some operand) op span
      (by rintro x (operand | operand) <;> cases operand; exact loose) (by simp)
    let placed := a.place (.operator op) span none (some operand)
    refine ⟨.slot placed.1, placed.2, _, trees, ?_, rfl, rfl, same, after, ?_⟩
    · simp [Command.slots, loose.live]
    · rw [size, Command.growth]
      omega
  | setRoot h =>
    obtain ⟨trees, after, size⟩ := linked.setRoot proper.1 proper.2
    refine ⟨.done, a.setRoot h, true, trees, ?_, rfl, rfl, (Bool.or_true rooted).symm, after, ?_⟩
    · simp [Command.slots, proper.1]
    · rw [size, Command.growth]
      omega
  | release h =>
    have loose : a.IsLoose rooted h := proper
    obtain ⟨trees, after, size⟩ := linked.release loose
    refine ⟨.done, a.release (some h), _, trees, ?_, rfl, rfl, same, after, ?_⟩
    · simp [Command.slots, loose.live]
    · rw [Command.growth]
      omega
  | makeLeaf h kind =>
    have live : a.Live h := proper
    obtain ⟨trees, after, size⟩ := linked.makeLeaf live kind
    have positive := linked.sizeAt_pos live
    refine ⟨.done, a.makeLeaf h kind, _, trees, ?_, rfl, rfl, same, after, ?_⟩
    · simp [Command.slots, live]
    · rw [Command.growth]
      omega
  | hoist h child =>
    obtain ⟨live, operand⟩ := proper
    obtain ⟨trees, after, size⟩ := linked.hoist live operand
    refine ⟨.done, a.hoist h child, _, trees, ?_, ?_, rfl, same, after, ?_⟩
    · simp [Command.slots, live, (linked.operand h child live operand).1]
    · simpa [Command.isFit, IsOperand] using operand
    · rw [Command.growth]
      omega
  | takeOperands h =>
    have live : a.Live h := proper
    obtain ⟨trees, after⟩ := linked.takeOperands live
    let taken := a.takeOperands h
    refine ⟨.operands taken.1.1 taken.1.2, taken.2, _, trees, ?_, rfl, rfl, same, after, ?_⟩
    · simp [Command.slots, live]
    · rw [Command.growth, Int.add_zero, Arena.size, size_nodes_takeOperands, free_takeOperands,
        Arena.size]
  | removeLeft h =>
    have live : a.Live h := proper
    obtain ⟨trees, after, size⟩ := linked.removeLeft live
    refine ⟨.done, a.removeLeft h, _, trees, ?_, rfl, rfl, same, after, ?_⟩
    · simp [Command.slots, live]
    · rw [Command.growth]
      omega
  | rewrite h op left right =>
    obtain ⟨trees, after⟩ := linked.rewrite proper
    obtain ⟨live, -, -, loose, -⟩ := proper
    refine ⟨.done, a.rewrite h op left right, _, trees, fun x mem => ?_, rfl, rfl, same, after, ?_⟩
    · simp only [Command.slots, List.cons_append, List.mem_cons, List.mem_append,
        Option.mem_toList] at mem
      obtain rfl | onLeft | onRight := mem
      · exact live
      · exact (loose x (.inl onLeft)).1.live
      · exact (loose x (.inr onRight)).1.live
    · rw [size_rewrite, Command.growth, Int.add_zero]
  | copy source h =>
    obtain ⟨⟨sourceRooted, from'⟩, live⟩ := proper
    obtain ⟨copy, b, trees, copied, after, size⟩ := linked.copyFrom from' live
    refine ⟨.slot copy, b, _, trees, ?_, rfl, ?_, same, after, ?_⟩
    · simp [Command.slots]
    · rw [Command.perform, copied]
      rfl
    · rw [size, Command.growth]
      omega

end IsLinked

theorem isLinked_empty : ({} : Arena).IsLinked false := by
  have forest : ({} : Arena).IsForest false [] := ⟨by simp, .refl _, by simp, nofun⟩
  exact forest.isLinked

/-- Every proper command on a linked arena is carried out, leaves a linked arena and changes the
    number of slots in use by what it stores and releases. So whatever comes of an empty arena by
    proper commands, however many, is linked. -/
theorem commands_keep_links :
    (∀ (a : Arena) (rooted : Bool) (command : Command), a.IsLinked rooted →
      command.IsProper a rooted →
      ∃ reply b, command.run? a = some (reply, b) ∧ b.IsLinked (rooted || command.setsRoot) ∧
        b.isCounted = true ∧ (b.size : Int) = a.size + command.growth a) ∧
    ∀ (a : Arena) (rooted : Bool), a.IsBuilt rooted → a.IsLinked rooted := by
  refine ⟨fun a rooted command linked proper => linked.run? proper, fun a rooted built => ?_⟩
  induction built with
  | empty => exact isLinked_empty
  | step _ _ proper ran ih =>
    obtain ⟨reply, b, ran', linked, -⟩ := ih.run? proper
    rw [ran] at ran'
    cases ran'
    exact linked

/-- The expression `x*1`, stored by commands. -/
def product : Arena where
  nodes := #[⟨.var, .nowhere, some 2, none, none⟩, ⟨.integer 1, .nowhere, some 2, none, none⟩,
    ⟨.operator (.binary .mul), .nowhere, none, some 0, some 1⟩]
  root := 2

theorem isBuilt_product : product.IsBuilt true := by
  have x := IsBuilt.empty.step (.leaf .var .nowhere) trivial rfl
  have one := x.step (.leaf (.integer 1) .nowhere) trivial rfl
  have joined := one.step (.binary (.binary .mul) 0 1 .nowhere)
    ⟨⟨⟨by decide, by decide⟩, rfl, nofun⟩, ⟨⟨by decide, by decide⟩, rfl, nofun⟩, by decide⟩ rfl
  exact joined.step (.setRoot 2) ⟨⟨by decide, by decide⟩, rfl⟩ rfl

theorem commands_keep_links_product : product.IsLinked true ∧
    ∃ reply b, (Command.hoist 2 0).run? product = some (reply, b) ∧ b.IsLinked true ∧
      b.isCounted = true ∧ (b.size : Int) = 1 := by
  have linked := commands_keep_links.2 product true isBuilt_product
  have proper : (Command.hoist 2 0).IsProper product true :=
    ⟨⟨by decide, by decide⟩, .inl rfl⟩
  obtain ⟨reply, b, ran, after, counted, size⟩ := commands_keep_links.1 product true _ linked proper
  refine ⟨linked, reply, b, ran, after, counted, ?_⟩
  rw [size]
  decide +kernel

end Arena
end Fluxion
