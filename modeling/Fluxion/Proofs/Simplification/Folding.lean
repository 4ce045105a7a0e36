import Fluxion.Proofs.Simplification.Locality
/- Folding at the limits of 64 bits. What is computed of two literals is the mathematical result,
   and only where 64 bits can hold it (`compute?_eq_some_iff`, for all operators); a quotient has to
   come out even besides. Words that wrap around give the same, once an overflow is noticed
   (`compute?_eq_checked?`): the least word divided by -1 is the one division that overflows, though
   its remainder is zero.

   A node is folded exactly if both of its operands are integer literals and something is computed
   of them (`foldConstants_eq_some_iff`), in any arena, well shaped or not, and then it is a literal
   without operands in the place where it was (`IsFolded`). Otherwise nothing changes at all
   (`rewriteBy_eq_self_iff`). A release that goes astray between links that contradict each other
   still changes nothing but links, so it cannot undo the literal. -/
namespace Fluxion

open Simplification

/-! ## Exact results -/

/-- Whether 64 bits can hold an integer. -/
def IsInt64 (n : Int) : Prop := -2 ^ 63 ≤ n ∧ n ≤ 2 ^ 63 - 1

theorem isInt64_toInt (w : Int64) : IsInt64 w.toInt := by
  have low := w.le_toInt
  have high := w.toInt_lt
  unfold IsInt64
  omega

theorem exists_toInt_eq {n : Int} (bounds : IsInt64 n) : ∃ w : Int64, w.toInt = n := by
  unfold IsInt64 at bounds
  refine ⟨Int64.ofInt n, ?_⟩
  apply Int64.toInt_ofInt_of_le
  · exact bounds.1
  · omega

namespace Operator

/-- What the operator computes of two integer literals. A function of one argument computes
    nothing of them. -/
def compute? : Operator → Int64 → Int64 → Option Int64
  | binary op, l, r => Simplification.compute? op l r
  | apply _, _, _ => none

/-- `n` is the sum, the difference or the product of two integers, or their quotient if it
    exists and comes out even. -/
def IsResult (op : Operator) (l r n : Int) : Prop :=
  (op = binary .add ∧ n = l + r) ∨ (op = binary .sub ∧ n = l - r) ∨
    (op = binary .mul ∧ n = l * r) ∨ (op = binary .div ∧ r ≠ 0 ∧ r ∣ l ∧ n = l / r)

theorem isResult_binary_iff {op : BinaryOp} {l r n : Int} :
    (binary op).IsResult l r n ↔ op.IsExact l r n := by
  cases op with
  | add => simp [IsResult, BinaryOp.IsExact]
  | sub => simp [IsResult, BinaryOp.IsExact]
  | mul => simp [IsResult, BinaryOp.IsExact]
  | div =>
    constructor
    · rintro (⟨⟨⟩, -⟩ | ⟨⟨⟩, -⟩ | ⟨⟨⟩, -⟩ | ⟨-, nonzero, divides, rfl⟩)
      exact ⟨nonzero, Int.ediv_mul_cancel divides⟩
    · rintro ⟨nonzero, rfl⟩
      have quotient : n = n * r / r := (Int.mul_ediv_cancel n nonzero).symm
      exact .inr (.inr (.inr ⟨rfl, nonzero, Int.dvd_mul_left n r, quotient⟩))
  | pow => simp [IsResult, BinaryOp.IsExact]

variable {op : Operator} {l r v : Int64}

theorem compute?_eq_some_iff : op.compute? l r = some v ↔ op.IsResult l.toInt r.toInt v.toInt := by
  cases op with
  | binary op => exact Simplification.compute?_eq_some_iff.trans isResult_binary_iff.symm
  | apply f => simp [compute?, IsResult]

/-- Of all results, exactly those that 64 bits can hold are computed. -/
theorem exists_compute?_iff :
    (∃ v, op.compute? l r = some v) ↔ ∃ n, op.IsResult l.toInt r.toInt n ∧ IsInt64 n := by
  constructor
  · rintro ⟨v, computed⟩
    exact ⟨v.toInt, compute?_eq_some_iff.mp computed, isInt64_toInt v⟩
  · rintro ⟨n, result, bounds⟩
    obtain ⟨v, rfl⟩ := exists_toInt_eq bounds
    exact ⟨v, compute?_eq_some_iff.mpr result⟩

/-! ## Words that wrap around -/

/-- What the operator makes of two words that wrap around, unless it overflows. There is no
    division by zero, and of all others only that of the least word by -1 overflows. -/
def checked? (op : Operator) (l r : Int64) : Option Int64 :=
  match op with
  | binary .add => if l.toBitVec.saddOverflow r.toBitVec then none else some (l + r)
  | binary .sub => if l.toBitVec.ssubOverflow r.toBitVec then none else some (l - r)
  | binary .mul => if l.toBitVec.smulOverflow r.toBitVec then none else some (l * r)
  | binary .div =>
    if r = 0 ∨ (l = Int64.minValue ∧ r = -1) then none
    else if l % r = 0 then some (l / r)
    else none
  | _ => none

/-- The flag of an overflow is set for the integers that 64 bits cannot hold. -/
theorem overflow_eq_false_iff {n : Int} :
    (decide (n ≥ 2 ^ (64 - 1)) || decide (n < -2 ^ (64 - 1))) = false ↔ IsInt64 n := by
  rw [Bool.or_eq_false_iff, decide_eq_false_iff_not, decide_eq_false_iff_not, IsInt64]
  omega

/-- A word that wrapped around is the integer itself, unless there was an overflow. -/
theorem toWord?_eq_ite {n : Int} {w : Int64} {overflow : Bool} (wraps : w.toInt = n.bmod (2 ^ 64))
    (flag : overflow = false ↔ IsInt64 n) : toWord? n = if overflow then none else some w := by
  cases overflow with
  | true =>
    show toWord? n = none
    rw [Option.eq_none_iff_forall_ne_some]
    intro v found
    have bounds : IsInt64 n := toWord?_eq_some_iff.mp found ▸ isInt64_toInt v
    exact Bool.noConfusion (flag.mpr bounds)
  | false =>
    have bounds := flag.mp rfl
    unfold IsInt64 at bounds
    show toWord? n = some w
    rw [toWord?_eq_some_iff, wraps]
    apply Int.bmod_eq_of_le
    · omega
    · omega

theorem toWord?_quotient (fits : ¬(l = Int64.minValue ∧ r = -1)) :
    toWord? (l.toInt.tdiv r.toInt) = some (l / r) := by
  rw [toWord?_eq_some_iff]
  by_cases least : l = Int64.minValue
  · apply Int64.toInt_div_of_ne_right
    intro minusOne
    exact fits ⟨least, minusOne⟩
  · exact Int64.toInt_div_of_ne_left l r least

/-- Words give what is computed of the integers. -/
theorem compute?_eq_checked? (op : Operator) (l r : Int64) : op.compute? l r = op.checked? l r := by
  cases op with
  | apply f => rfl
  | binary op =>
    cases op with
    | add => exact toWord?_eq_ite (Int64.toInt_add l r) overflow_eq_false_iff
    | sub => exact toWord?_eq_ite (Int64.toInt_sub l r) overflow_eq_false_iff
    | mul => exact toWord?_eq_ite (Int64.toInt_mul l r) overflow_eq_false_iff
    | div =>
      have zero : r.toInt = 0 ↔ r = 0 := Int64.toInt_inj (y := 0)
      have even : l.toInt.tmod r.toInt = 0 ↔ l % r = 0 := by
        rw [← Int64.toInt_mod]
        exact Int64.toInt_inj (y := 0)
      simp only [compute?, Simplification.compute?, checked?, ne_eq, zero, even]
      by_cases byZero : r = 0
      · simp [byZero]
      · by_cases overflows : l = Int64.minValue ∧ r = -1
        · obtain ⟨rfl, rfl⟩ := overflows
          decide
        · simp [byZero, overflows, toWord?_quotient overflows]
    | pow => rfl

example : Int64.minValue % -1 = 0 ∧ (binary .div).compute? Int64.minValue (-1) = none := by decide

end Operator

/-! ## Nodes -/

namespace Arena

variable {a : Arena} {h : Handle} {v : Int64}

/-- The node is an arithmetic operator between two integer literals, of which `v` is computed. -/
def FoldsTo (a : Arena) (h : Handle) (v : Int64) : Prop :=
  ∃ op x y l r, a.operator? h = some op ∧ op.isArithmetic = true ∧ a.left? h = some x ∧
    a.right? h = some y ∧ a.integer? x = some l ∧ a.integer? y = some r ∧ op.compute? l r = some v

/-- The node is an integer literal now, without operands, and stands for the same part of the
    source as before. -/
structure IsFolded (a b : Arena) (h : Handle) (v : Int64) : Prop where
  kind : b.kind? h = some (.integer v)
  span : (b.node? h).map (·.span) = (a.node? h).map (·.span)
  left : b.left? h = none
  right : b.right? h = none

theorem isFolded_makeLeaf {node : Node} (here : a.node? h = some node) :
    IsFolded a (a.makeLeaf h (.integer v)) h v := by
  let leaf : Node := { node with kind := .integer v, left := none, right := none }
  let b := a.modify h fun node => { node with kind := .integer v, left := none, right := none }
  have changed : b.node? h = some leaf := by
    rw [node?_modify, if_pos rfl, here]
    rfl
  -- Where links run in a circle the node is below its operands, and loses its parent with them.
  have kept := (keepsButLinks_release b (a.left? h) h).trans
    (keepsButLinks_release (b.release (a.left? h)) (a.right? h) h)
  have after : (a.makeLeaf h (.integer v)).node? h = some leaf ∨
      (a.makeLeaf h (.integer v)).node? h = some leaf.cleared := by
    rw [KeepsButLinks, changed] at kept
    exact kept
  rcases after with after | after <;> constructor <;>
    simp [kind?, left?, right?, after, here, leaf, Node.cleared]

theorem foldConstants_eq_some_iff {rewrite : Rewrite} :
    foldConstants a h = some rewrite ↔
      ∃ v, a.FoldsTo h v ∧ rewrite = ⟨.foldConstants, .literal v⟩ := by
  constructor
  · intro found
    rw [foldConstants] at found
    split at found
    · next op operator =>
      obtain ⟨l, onLeft, found⟩ := Option.bind_eq_some_iff.mp found
      obtain ⟨r, onRight, found⟩ := Option.bind_eq_some_iff.mp found
      obtain ⟨v, computed, found⟩ := Option.bind_eq_some_iff.mp found
      obtain ⟨x, left, literalLeft⟩ := Option.bind_eq_some_iff.mp onLeft
      obtain ⟨y, right, literalRight⟩ := Option.bind_eq_some_iff.mp onRight
      have arithmetic : op.isArithmetic = true := by
        cases op with
        | pow => cases computed
        | _ => rfl
      refine ⟨v, ⟨.binary op, x, y, l, r, operator, arithmetic, left, right, literalLeft,
        literalRight, computed⟩, ?_⟩
      exact (Option.some.inj found).symm
    · cases found
  · rintro ⟨v, ⟨op, x, y, l, r, operator, -, left, right, literalLeft, literalRight, computed⟩, rfl⟩
    cases op with
    | binary op =>
      have computed : compute? op l r = some v := computed
      simp [foldConstants, operator, left, right, literalLeft, literalRight, computed]
    | apply f => cases computed

theorem foldConstants_eq_none_iff : foldConstants a h = none ↔ ∀ v, ¬a.FoldsTo h v := by
  rw [Option.eq_none_iff_forall_ne_some]
  constructor
  · intro none v folds
    exact none _ (foldConstants_eq_some_iff.mpr ⟨v, folds, rfl⟩)
  · intro none rewrite found
    obtain ⟨v, folds, -⟩ := foldConstants_eq_some_iff.mp found
    exact none v folds

/-- What becomes of a node that folds. -/
theorem FoldsTo.rewriteBy (folds : a.FoldsTo h v) :
    (a.rewriteBy foldConstants h).1 = [.foldConstants] ∧
      IsFolded a (a.rewriteBy foldConstants h).2 h v := by
  have found : foldConstants a h = some ⟨.foldConstants, .literal v⟩ :=
    foldConstants_eq_some_iff.mpr ⟨v, folds, rfl⟩
  obtain ⟨op, x, y, l, r, operator, -⟩ := folds
  obtain ⟨kind, stored, -⟩ := Option.bind_eq_some_iff.mp operator
  obtain ⟨node, here, -⟩ := Option.map_eq_some_iff.mp stored
  rw [rewriteBy_of_some found]
  exact ⟨rfl, isFolded_makeLeaf here⟩

theorem isFolded_rewriteBy_iff :
    (a.rewriteBy foldConstants h).1 = [.foldConstants] ∧
      IsFolded a (a.rewriteBy foldConstants h).2 h v ↔ a.FoldsTo h v := by
  refine ⟨?_, FoldsTo.rewriteBy⟩
  rintro ⟨steps, folded⟩
  cases found : foldConstants a h with
  | none =>
    rw [rewriteBy_of_none found] at steps
    cases steps
  | some rewrite =>
    obtain ⟨w, folds, -⟩ := foldConstants_eq_some_iff.mp found
    have same : some (Kind.integer w) = some (.integer v) :=
      folds.rewriteBy.2.kind.symm.trans folded.kind
    cases same
    exact folds

theorem rewriteBy_eq_self_iff :
    a.rewriteBy foldConstants h = ([], a) ↔ ∀ v, ¬a.FoldsTo h v := by
  constructor
  · intro unchanged v folds
    have steps := folds.rewriteBy.1
    rw [unchanged] at steps
    cases steps
  · intro none
    exact rewriteBy_of_none (foldConstants_eq_none_iff.mpr none)

/-- Folding is exact at the limits of 64 bits. What an operator computes of two integers is its
    result, it is computed whenever 64 bits can hold it, and words that wrap around give the same
    unless they overflow. A node is folded exactly if it is an arithmetic operator between integer
    literals of which something is computed, and otherwise nothing changes. -/
theorem folding_is_exact :
    (∀ (op : Operator) (l r v : Int64), op.compute? l r = some v ↔
      ∃ n, op.IsResult l.toInt r.toInt n ∧ IsInt64 n ∧ v.toInt = n) ∧
    (∀ (op : Operator) (l r : Int64), (∃ v, op.compute? l r = some v) ↔
      ∃ n, op.IsResult l.toInt r.toInt n ∧ IsInt64 n) ∧
    (∀ (op : Operator) (l r : Int64), op.compute? l r = op.checked? l r) ∧
    ∀ (a : Arena) (h : Handle),
      (∀ v, (a.rewriteBy foldConstants h).1 = [.foldConstants] ∧
        IsFolded a (a.rewriteBy foldConstants h).2 h v ↔ a.FoldsTo h v) ∧
      (a.rewriteBy foldConstants h = ([], a) ↔ ∀ v, ¬a.FoldsTo h v) := by
  refine ⟨?_, fun op l r => Operator.exists_compute?_iff, Operator.compute?_eq_checked?,
    fun a h => ⟨fun v => isFolded_rewriteBy_iff, rewriteBy_eq_self_iff⟩⟩
  intro op l r v
  rw [Operator.compute?_eq_some_iff]
  constructor
  · intro result
    exact ⟨v.toInt, result, isInt64_toInt v, rfl⟩
  · rintro ⟨n, result, -, value⟩
    rw [value]
    exact result

end Arena
end Fluxion
