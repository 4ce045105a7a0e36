import Fluxion.Proofs.Arena.Runs
import Fluxion.Proofs.Simplification.InPlace
/- What a rule of simplification touches. Whatever a rule answers, the node has the operands that
   the answer speaks of and one at least to release (`Edit.Fits`); that is checked for every rule
   and for every way in which rules are put together (`isFitting_of_mem`). Carrying out such an
   answer reduces the layout below the node to a smaller one (`reduces_applyEdit`).

   So in a linked arena, whatever its shape, a rewrite stays below its node, takes no slot and
   leaves a linked arena with fewer slots in use (`Confined`, `rules_confined`). A rule that does
   not apply changes nothing, and rules that are tried one after the other on the arena itself do
   what the first one that applies does (`rewriteBy_firstOf`). Counted over a pass, no more laws are
   applied than slots are released (`IsLinked.simplifyAll`). -/
namespace Fluxion

open Simplification

namespace Simplification

/-! ## Answers that fit their node -/

/-- The rules: each by itself, those for one operator, all laws, and what is done to a node. -/
def rules : List Rule :=
  [foldConstants, addZero, addition, subtractZero, subtraction, multiplyZero, multiplyOne,
    multiplyReciprocal, multiplication, divideZero, divideOne, division, powerZero, powerOne,
    exponentiation, laws, rewrite?]

/-- The node has the operands that the change speaks of, and an operand that it releases. -/
def Edit.Fits (a : Arena) (h : Handle) : Edit → Prop
  | literal _ => ∃ x, a.IsOperand x h
  | keep operand => a.IsOperand operand h
  | dropLeft => ∃ x, a.left? h = some x
  | divide other reciprocal =>
    (a.left? h = some reciprocal ∧ a.right? h = some other) ∨
      (a.left? h = some other ∧ a.right? h = some reciprocal)

/-- Whatever the rule answers fits the node. -/
def Rule.IsFitting (rule : Rule) : Prop :=
  ∀ a h rewrite, rule a h = some rewrite → rewrite.edit.Fits a h

namespace Rule

variable {a : Arena} {h : Handle} {rewrite : Rewrite}

theorem IsFitting.firstOf {rules : List Rule} (fitting : ∀ rule ∈ rules, rule.IsFitting) :
    IsFitting (firstOf rules) := by
  intro a h rewrite found
  obtain ⟨rule, mem, answer⟩ := List.exists_of_findSome?_eq_some found
  exact fitting rule mem a h rewrite answer

/-- Most rules look at both operands of an operator. -/
theorem fits_of_operands? {op : BinaryOp} {answer : Handle × Handle → Option Rewrite}
    (found : (operands? op a h).bind answer = some rewrite)
    (fits : ∀ x y, a.left? h = some x → a.right? h = some y → answer (x, y) = some rewrite →
      rewrite.edit.Fits a h) : rewrite.edit.Fits a h := by
  obtain ⟨⟨x, y⟩, both, answer⟩ := Option.bind_eq_some_iff.mp found
  rw [operands?] at both
  split at both
  · obtain ⟨l, onLeft, both⟩ := Option.bind_eq_some_iff.mp both
    obtain ⟨r, onRight, both⟩ := Option.bind_eq_some_iff.mp both
    cases both
    exact fits x y onLeft onRight answer
  · cases both

theorem isFitting_foldConstants : IsFitting foldConstants := by
  intro a h rewrite found
  rw [foldConstants] at found
  split at found
  · obtain ⟨l, onLeft, found⟩ := Option.bind_eq_some_iff.mp found
    obtain ⟨r, -, found⟩ := Option.bind_eq_some_iff.mp found
    obtain ⟨value, -, found⟩ := Option.bind_eq_some_iff.mp found
    obtain ⟨x, left, -⟩ := Option.bind_eq_some_iff.mp onLeft
    cases found
    exact ⟨x, .inl left⟩
  · cases found

theorem isFitting_subtractZero : IsFitting subtractZero := by
  intro a h rewrite found
  rw [subtractZero] at found
  split_ifs at found
  obtain ⟨y, onRight, found⟩ := Option.bind_eq_some_iff.mp found
  split at found
  · split_ifs at found
    cases found
    exact ⟨y, .inr onRight⟩
  · next x onLeft =>
    split_ifs at found <;> cases found
    · exact ⟨x, onLeft⟩
    · exact .inl onLeft

/-- The rules that look at both operands answer with a literal, with one of the operands or with
    the quotient of the two. -/
theorem isFitting_of_operands :
    ∀ rule ∈ [addZero, multiplyZero, multiplyOne, multiplyReciprocal, divideZero, divideOne,
      powerZero, powerOne], IsFitting rule := by
  simp only [List.forall_mem_cons, List.not_mem_nil, false_implies, implies_true, and_true]
  refine ⟨?_, ?_, ?_, ?_, ?_, ?_, ?_, ?_⟩
  all_goals
    intro a h rewrite found
    refine fits_of_operands? found fun x y onLeft onRight answer => ?_
    dsimp only at answer
    split_ifs at answer <;> cases answer <;> simp [Edit.Fits, Arena.IsOperand, onLeft, onRight]

/-- Each rule asks for no more than the node has. -/
theorem isFitting_of_mem : ∀ rule ∈ rules, IsFitting rule := by
  have binary := isFitting_of_operands
  simp only [List.forall_mem_cons, List.not_mem_nil, false_implies, implies_true, and_true] at binary
  obtain ⟨sum, zeroTimes, oneTimes, fusion, zeroOver, overOne, toZero, toOne⟩ := binary
  have sums : IsFitting addition := .firstOf (by simpa using sum)
  have differences : IsFitting subtraction := .firstOf (by simpa using isFitting_subtractZero)
  have products : IsFitting multiplication :=
    .firstOf (by simpa using ⟨zeroTimes, oneTimes, fusion⟩)
  have quotients : IsFitting division := .firstOf (by simpa using ⟨zeroOver, overOne⟩)
  have powers : IsFitting exponentiation := .firstOf (by simpa using ⟨toZero, toOne⟩)
  have all : IsFitting laws :=
    .firstOf (by simpa using ⟨sums, differences, products, quotients, powers⟩)
  have node : IsFitting rewrite? := by
    intro a h rewrite found
    rw [rewrite?] at found
    split_ifs at found
    · exact isFitting_foldConstants a h rewrite found
    · exact all a h rewrite found
  simp only [rules, List.forall_mem_cons, List.not_mem_nil, false_implies, implies_true, and_true]
  exact ⟨isFitting_foldConstants, sum, sums, isFitting_subtractZero, differences, zeroTimes, oneTimes,
    fusion, products, zeroOver, overOne, quotients, toZero, toOne, powers, all, node⟩

end Rule

end Simplification

namespace Arena

open Relation

variable {a b : Arena} {rooted : Bool} {parent : Option Handle} {h : Handle} {kind : Kind}
  {span : Span} {l r : Layout} {edit : Edit}

/-! ## Answers as reductions -/

theorem Stores.length_pos_of_isOperand (stored : a.Stores parent (.node h kind span l r))
    {x : Handle} (operand : a.IsOperand x h) : 0 < l.slots.length + r.slots.length := by
  rw [IsOperand, stored.left?_node, stored.right?_node] at operand
  obtain onLeft | onRight := operand
  · exact Nat.add_pos_left (List.length_pos_of_mem (Layout.mem_slots_of_root? onLeft)) _
  · exact Nat.add_pos_right _ (List.length_pos_of_mem (Layout.mem_slots_of_root? onRight))

/-- Carrying out an answer that fits makes the layout below the node a smaller one. -/
theorem reduces_applyEdit (fits : edit.Fits a h) (stored : a.Stores parent (.node h kind span l r))
    (nodup : (Layout.node h kind span l r).slots.Nodup) :
    ∃ M, (∀ q, a.Stores q (.node h kind span l r) →
        Reduces a (a.applyEdit h edit) q (.node h kind span l r) M) ∧
      M.slots.length < (Layout.node h kind span l r).slots.length := by
  cases edit with
  | literal value =>
    obtain ⟨x, operand⟩ := fits
    have positive := stored.length_pos_of_isOperand operand
    refine ⟨_, fun q stored => stored.makeLeaf nodup (.integer value), ?_⟩
    simp only [Layout.slots_node, Layout.slots_absent, List.length_append, List.length_singleton,
      List.length_nil]
    omega
  | keep child =>
    obtain ⟨inner, place, below, beside, other, sides⟩ := stored.exists_sides fits
    have perm : (child :: other.slots ++ (Layout.node h inner place below beside).slots).Perm
        (Layout.node h kind span l r).slots := sides.perm_hoist
    refine ⟨_, fun q stored => stored.hoist nodup sides, ?_⟩
    rw [← perm.length_eq, List.length_append, List.length_cons]
    omega
  | dropLeft =>
    obtain ⟨x, onLeft⟩ := fits
    rw [stored.left?_node] at onLeft
    have positive := List.length_pos_of_mem (Layout.mem_slots_of_root? onLeft)
    refine ⟨_, fun q stored => stored.removeLeft nodup, ?_⟩
    simp only [Layout.slots_node, Layout.slots_absent, List.length_append, List.length_singleton,
      List.length_nil]
    omega
  | divide other reciprocal =>
    obtain ⟨quotient, factor, sides, top, root⟩ : ∃ quotient factor, Sides quotient factor l r ∧
        quotient.root? = some reciprocal ∧ factor.root? = some other := by
      rw [Edit.Fits, stored.left?_node, stored.right?_node] at fits
      obtain ⟨onLeft, onRight⟩ | ⟨onLeft, onRight⟩ := fits
      · exact ⟨l, r, .inl ⟨rfl, rfl⟩, onLeft, onRight⟩
      · exact ⟨r, l, .inr ⟨rfl, rfl⟩, onRight, onLeft⟩
    cases quotient with
    | absent => cases top
    | node slot inner place one denominator =>
      cases top
      have perm : (reciprocal :: one.slots ++
          (Layout.node h (.operator (.binary .div)) span factor denominator).slots).Perm
          (Layout.node h kind span l r).slots := sides.perm_fuse
      refine ⟨_, fun q stored => stored.fuse nodup sides root, ?_⟩
      rw [← perm.length_eq, List.length_append, List.length_cons]
      omega

/-! ## Changes below a slot -/

/-- `b` is `a` after a change that stays below a slot: slots in use there are released, none is
    taken, the slot itself hangs where it hung, and all other slots keep what they hold. -/
structure Confined (a b : Arena) (h : Handle) : Prop where
  nodes : b.nodes.size = a.nodes.size
  root : b.root = a.root
  released : ∃ released, b.free = released ++ a.free ∧ ∀ x ∈ released, TransGen a.LeadsTo x h
  taken : ∀ x, b.Live x → a.Live x
  fewer : b.size < a.size
  live : b.Live h
  parent : b.parent? h = a.parent? h
  isLeft : b.isLeft h = a.isLeft h
  isRight : b.isRight h = a.isRight h
  frame : ∀ x, ¬ReflTransGen a.LeadsTo x h → b.node? x = a.node? x

/-- What hangs above a slot is not below it. -/
theorem IsLinked.not_below_of_parent? (linked : a.IsLinked rooted) {p : Handle}
    (above : a.parent? h = some p) : ¬ReflTransGen a.LeadsTo p h := fun path =>
  linked.acyclic h (TransGen.head' above path)

/-- A smaller layout at a slot in use is a change below it. -/
theorem Reduces.confined {L M : Layout} (reduces : Reduces a b (a.parent? h) L M) (live : a.Live h)
    (root : L.root? = some h) (nodup : L.slots.Nodup)
    (below : ∀ x ∈ L.slots, ReflTransGen a.LeadsTo x h)
    (above : ∀ p, a.parent? h = some p → p ∉ L.slots) (fewer : b.size < a.size) :
    Confined a b h := by
  obtain ⟨released, free, perm, -⟩ := reduces.free
  have apart := (List.nodup_append.mp (perm.nodup_iff.mpr nodup)).2.2
  have here : h ∈ M.slots := Layout.mem_slots_of_root? (reduces.top.trans root)
  have parent : b.parent? h = a.parent? h :=
    reduces.stores.parent?_root (reduces.top.trans root)
  have frame : ∀ x, ¬ReflTransGen a.LeadsTo x h → b.node? x = a.node? x := fun x outside =>
    reduces.frame x fun mem => outside (below x mem)
  refine ⟨reduces.size, reduces.root, ⟨released, free, fun x mem => ?_⟩, fun x inUse => ?_, fewer,
    ⟨reduces.size ▸ live.1, fun inFree => ?_⟩, parent, ?_, ?_, frame⟩
  · have path := below x (perm.mem_iff.mp (List.mem_append_left _ mem))
    obtain same | path := reflTransGen_iff_eq_or_transGen.mp path
    · exact absurd same.symm (apart x mem h here)
    · exact path
  · exact ⟨reduces.size ▸ inUse.1, fun inFree => inUse.2 (free ▸ List.mem_append_right _ inFree)⟩
  · rw [free] at inFree
    obtain new | old := List.mem_append.mp inFree
    · exact apart h new h here rfl
    · exact live.2 old
  · rw [isLeft, isLeft, parent]
    cases hangs : a.parent? h with
    | none => rfl
    | some p => rw [Option.any_some, Option.any_some, left?, left?, reduces.frame p (above p hangs)]
  · rw [isRight, isRight, parent]
    cases hangs : a.parent? h with
    | none => rfl
    | some p => rw [Option.any_some, Option.any_some, right?, right?, reduces.frame p (above p hangs)]

/-- Carrying out an answer that fits a slot in use is a change below it. -/
theorem IsLinked.applyEdit (linked : a.IsLinked rooted) (live : a.Live h) (fits : edit.Fits a h) :
    Confined a (a.applyEdit h edit) h ∧ (a.applyEdit h edit).IsLinked rooted := by
  let b := a.applyEdit h edit
  obtain ⟨trees, forest⟩ := linked.exists_isForest
  have sizes : ∀ {q kind span l r N}, a.Stores q (.node h kind span l r) →
      (Layout.node h kind span l r).slots.Nodup → Reduces a b q (.node h kind span l r) N →
      a.sizeAt (some h) = (Layout.node h kind span l r).slots.length ∧
        b.sizeAt (some h) = N.slots.length := by
    intro q kind span l r N stored nodup reduces
    have after := reduces.stores.sizeAt_eq (reduces.nodup nodup)
    rw [reduces.top] at after
    exact ⟨stored.sizeAt_eq nodup, after⟩
  obtain ⟨trees', after, size⟩ : ∃ trees', b.IsForest rooted trees' ∧
      b.size + (a.sizeAt (some h) - b.sizeAt (some h)) = a.size := by
    refine forest.reduce live fun kind span l r nodup ⟨q, stored⟩ => ?_
    obtain ⟨N, reduces, fewer⟩ := reduces_applyEdit fits stored nodup
    obtain ⟨sizeBefore, sizeAfter⟩ := sizes stored nodup (reduces q stored)
    exact ⟨N, reduces, by omega⟩
  obtain ⟨L, stores, root, nodup, slots⟩ := linked.exists_layout live
  cases L with
  | absent => cases root
  | node slot kind span l r =>
    cases root
    obtain ⟨M, reduces, fewer⟩ := reduces_applyEdit fits stores nodup
    obtain ⟨sizeBefore, sizeAfter⟩ := sizes stores nodup (reduces _ stores)
    have released : b.size < a.size := by omega
    have above : ∀ p, a.parent? h = some p →
        p ∉ (Layout.node h kind span l r).slots := fun p hangs mem =>
      linked.not_below_of_parent? hangs ((slots p).mp mem)
    exact ⟨(reduces _ stores).confined live rfl nodup (fun x => (slots x).mp) above released,
      after.isLinked⟩

/-! ## Rules -/

/-- An answer that fits speaks of an operand. -/
theorem exists_isOperand_of_fits (fits : edit.Fits a h) : ∃ x, a.IsOperand x h := by
  cases edit with
  | literal => exact fits
  | keep operand => exact ⟨operand, fits⟩
  | dropLeft =>
    obtain ⟨x, onLeft⟩ := fits
    exact ⟨x, .inl onLeft⟩
  | divide other reciprocal =>
    obtain ⟨onLeft, -⟩ | ⟨onLeft, -⟩ := fits
    · exact ⟨reciprocal, .inl onLeft⟩
    · exact ⟨other, .inl onLeft⟩

theorem rewriteBy_of_none {rule : Rule} (none : rule a h = none) : a.rewriteBy rule h = ([], a) := by
  rw [rewriteBy, none]

theorem rewriteBy_of_some {rule : Rule} {rewrite : Rewrite} (found : rule a h = some rewrite) :
    a.rewriteBy rule h = ([rewrite.step], a.applyEdit h rewrite.edit) := by
  rw [rewriteBy, found]

/-- Tries rules one after the other on the arena itself, until one of them takes a step. -/
def rewriteInTurn (a : Arena) (h : Handle) : List Rule → List Step × Arena
  | [] => ([], a)
  | rule :: others =>
    let (steps, b) := a.rewriteBy rule h
    if steps.isEmpty then b.rewriteInTurn h others else (steps, b)

/-- Rules that are tried on the arena itself do what the first one that applies does: those
    before it have changed nothing. -/
theorem rewriteBy_firstOf (a : Arena) (h : Handle) (rules : List Rule) :
    a.rewriteBy (firstOf rules) h = a.rewriteInTurn h rules := by
  induction rules with
  | nil => rfl
  | cons rule others ih =>
    rw [rewriteInTurn]
    cases found : rule a h with
    | none =>
      have passed : firstOf (rule :: others) a h = firstOf others a h := by
        rw [firstOf_cons, found, Option.none_or]
      rw [rewriteBy_of_none found]
      show a.rewriteBy (firstOf (rule :: others)) h = a.rewriteInTurn h others
      rw [← ih, Arena.rewriteBy, Arena.rewriteBy, passed]
    | some rewrite =>
      have first : firstOf (rule :: others) a h = some rewrite := by
        rw [firstOf_cons, found, Option.some_or]
      rw [rewriteBy_of_some found, rewriteBy_of_some first]
      rfl

namespace IsLinked

variable (linked : a.IsLinked rooted)
include linked

/-- A rule keeps the arena linked and pays for its step with a slot, wherever it is tried. -/
theorem rewriteBy {rule : Rule} (fitting : rule.IsFitting) (h : Handle) :
    (a.rewriteBy rule h).2.IsLinked rooted ∧
      (a.rewriteBy rule h).1.length + (a.rewriteBy rule h).2.size ≤ a.size := by
  cases found : rule a h with
  | none =>
    rw [rewriteBy_of_none found]
    exact ⟨linked, by simp⟩
  | some rewrite =>
    have fits := fitting a h rewrite found
    obtain ⟨x, operand⟩ := exists_isOperand_of_fits fits
    obtain ⟨confined, after⟩ := linked.applyEdit (linked.live_of_isOperand operand) fits
    have fewer := confined.fewer
    rw [rewriteBy_of_some found]
    refine ⟨after, ?_⟩
    show 1 + (a.applyEdit h rewrite.edit).size ≤ a.size
    omega

theorem simplifyNode (h : Handle) :
    (a.simplifyNode h).2.IsLinked rooted ∧
      (a.simplifyNode h).1.length + (a.simplifyNode h).2.size ≤ a.size := by
  have fitting : Rule.IsFitting rewrite? := Rule.isFitting_of_mem rewrite? (by simp [rules])
  obtain ⟨after, fewer⟩ := linked.rewriteBy fitting h
  obtain ⟨afterAgain, fewerAgain⟩ := after.rewriteBy fitting h
  rw [Arena.simplifyNode]
  dsimp only
  split
  · refine ⟨afterAgain, ?_⟩
    dsimp only
    rw [List.length_append]
    omega
  · exact ⟨after, fewer⟩

end IsLinked

/-- Of whatever slots are visited, no more laws are applied than slots are released. -/
theorem IsLinked.simplifyAll (slots : List Handle) :
    ∀ {a : Arena}, a.IsLinked rooted → (a.simplifyAll slots).2.IsLinked rooted ∧
      (a.simplifyAll slots).1.length + (a.simplifyAll slots).2.size ≤ a.size := by
  induction slots with
  | nil =>
    intro a linked
    exact ⟨linked, by simp [Arena.simplifyAll]⟩
  | cons h rest ih =>
    intro a linked
    obtain ⟨first, fewer⟩ := linked.simplifyNode h
    obtain ⟨others, fewerOthers⟩ := ih first
    rw [Arena.simplifyAll]
    dsimp only
    rw [List.length_append]
    exact ⟨others, by omega⟩

/-- In a linked arena, whatever its shape, a rule that does not apply to a slot in use changes
    nothing, and one that applies takes one step, changes the arena below the slot only, releases
    slots and leaves the arena linked. So the steps that simplification answers are no more than
    the slots that it releases. -/
theorem rules_confined :
    (∀ (a : Arena) (rooted : Bool) (h : Handle), a.IsLinked rooted → a.Live h → ∀ rule ∈ rules,
      (rule a h = none → a.rewriteBy rule h = ([], a)) ∧
      ∀ rewrite, rule a h = some rewrite → (a.rewriteBy rule h).1 = [rewrite.step] ∧
        Confined a (a.rewriteBy rule h).2 h ∧ (a.rewriteBy rule h).2.IsLinked rooted) ∧
    ∀ (f : Function) (rooted : Bool), f.body.IsLinked rooted →
      f.simplifyWithSteps.2.body.IsLinked rooted ∧
      f.simplifyWithSteps.1.length + f.simplifyWithSteps.2.body.size ≤ f.body.size := by
  refine ⟨fun a rooted h linked live rule mem => ⟨rewriteBy_of_none, fun rewrite found => ?_⟩,
    fun f rooted linked => IsLinked.simplifyAll f.body.postOrder linked⟩
  have fits := Rule.isFitting_of_mem rule mem a h rewrite found
  rw [rewriteBy_of_some found]
  exact ⟨rfl, linked.applyEdit live fits⟩

/-- A product of a literal with an operand of its own by a sum without operands. -/
def ragged : Arena where
  nodes := #[⟨.integer 0, .nowhere, some 2, some 1, none⟩, ⟨.var, .nowhere, some 0, none, none⟩,
    ⟨.operator (.binary .mul), .nowhere, none, some 0, some 3⟩,
    ⟨.operator (.binary .add), .nowhere, some 2, none, none⟩,
    ⟨.integer 7, .nowhere, none, none, none⟩]
  free := [4]
  root := 2

theorem isLinked_ragged : ragged.IsLinked true := by
  have forest : ragged.IsForest true
      [.node 2 (.operator (.binary .mul)) .nowhere
        (.node 0 (.integer 0) .nowhere (.node 1 .var .nowhere .absent .absent) .absent)
        (.node 3 (.operator (.binary .add)) .nowhere .absent .absent)] := by
    refine ⟨?_, by decide, by decide, fun _ => ⟨_, List.mem_cons_self, rfl⟩⟩
    simp [Stores, ragged, node?]
  exact forest.isLinked

theorem rules_confined_ragged :
    (ragged.rewriteBy multiplication 2).1 = [.multiplyZero] ∧
    Confined ragged (ragged.rewriteBy multiplication 2).2 2 ∧
    (ragged.rewriteBy multiplication 2).2.IsLinked true ∧
    ({ name := "f", variableName := "x", body := ragged } :
      Function).simplifyWithSteps.1.length ≤ 3 := by
  obtain ⟨steps, confined, after⟩ := (rules_confined.1 ragged true 2 isLinked_ragged
    ⟨by decide, by decide⟩ multiplication (by simp [rules])).2 ⟨.multiplyZero, .literal 0⟩ rfl
  have counted := (rules_confined.2
    { name := "f", variableName := "x", body := ragged } true isLinked_ragged).2
  have left : ragged.simplify.2.size = 1 := by decide +kernel
  refine ⟨steps, confined, after, ?_⟩
  show ragged.simplify.1.length ≤ 3
  have counted : ragged.simplify.1.length + ragged.simplify.2.size ≤ 4 := counted
  omega

end Arena
end Fluxion
