import Fluxion.Function
import Fluxion.Proofs.Arena.Reachability
import Fluxion.Proofs.Simplification.NormalForm
/- Printing by trees. The phrase of a stored body asks every node for its parent to find out which
   operands stand in parentheses; the phrase of a tree (`Tree.phrase`) asks the operator above them.
   For an arena that holds a tree the two are the same (`phrase_eq`), so what a function prints
   depends on its tree, its variable and its parameters alone.

   Which operands an operator encloses is given once more, as a table (`BinaryOp.encloses`), with
   the classes of operators spelled out: sums enclose nothing, differences what is as loose on their
   right, products sums and differences, quotients also products and quotients on their right, and
   powers every base that is no leaf. The lemmas at the end give the characters of a node from those
   of its operands (`text_binary`, `text_apply`), which is the form in which printed expressions are
   read again. -/
namespace Fluxion

/-- Whether the operator takes an operand of a binding class in parentheses. Sums take none,
    differences sums and differences on their right. Products enclose sums and differences,
    quotients also products and quotients on their right, and a power has a leaf for its base
    or encloses it. -/
def BinaryOp.encloses (outer : BinaryOp) (right : Bool) (priority : Nat) : Bool :=
  match outer, right with
  | .add, _ | .sub, false | .pow, true => false
  | .sub, true | .mul, _ | .div, false => priority == 5
  | .div, true => 4 ≤ priority
  | .pow, false => priority != 1

namespace Tree

/-- The binding class of the topmost node; leaves bind tightest. -/
def priority (t : Tree) : Nat := (t.operator?.map (·.priority)).getD 1

/-- Whether the tree stands in parentheses as the left or the right operand of an operator. -/
def isWrapped (outer : Operator) (right : Bool) (t : Tree) : Bool :=
  if outer = .binary .pow ∧ right then false
  else if outer = .binary .pow ∧ t.operator? = some (.binary .pow) then true
  else outer.priority < t.priority ||
    (outer.priority == t.priority && right && !outer.isCommutative)

/-- The tree with its leaves printed and its parentheses set. -/
def phrase (leaf : Kind → Phrase) : Tree → Phrase
  | absent => .absent
  | node (.operator op) _ left right =>
    .operation op (left.phrase leaf) (left.isWrapped op false) (right.phrase leaf)
      (right.isWrapped op true)
  | node kind .. => leaf kind

/-! ## Parentheses -/

theorem priority_binary (op : BinaryOp) (span : Span) (left right : Tree) :
    (node (.operator (.binary op)) span left right).priority = op.priority := rfl

theorem one_le_priority (t : Tree) : 1 ≤ t.priority := by
  rw [priority]
  cases t.operator? with
  | none => decide
  | some op =>
    cases op with
    | binary op => cases op <;> decide
    | apply f => exact (by decide : 1 ≤ 3)

theorem priority_le (t : Tree) : t.priority ≤ 5 := by
  rw [priority]
  cases t.operator? with
  | none => decide
  | some op =>
    cases op with
    | binary op => cases op <;> decide
    | apply f => exact (by decide : 3 ≤ 5)

/-- Only powers have the binding class of powers. -/
theorem operator?_eq_pow_iff {t : Tree} : t.operator? = some (.binary .pow) ↔ t.priority = 2 := by
  rw [priority]
  cases t.operator? with
  | none => exact ⟨nofun, nofun⟩
  | some op =>
    cases op with
    | binary op => cases op <;> decide
    | apply f => exact ⟨nofun, nofun⟩

/-- What binds as loosely as products or sums is one of their operators. -/
theorem exists_binary_of_priority {t : Tree} (loose : 4 ≤ t.priority) :
    ∃ op, t.operator? = some (.binary op) ∧ op.priority = t.priority := by
  rw [priority] at loose ⊢
  cases operator : t.operator? with
  | none =>
    rw [operator] at loose
    exact absurd loose (by decide)
  | some op =>
    rw [operator] at loose
    cases op with
    | binary op => exact ⟨op, rfl, rfl⟩
    | apply f => exact absurd loose (by decide : ¬4 ≤ 3)

theorem isWrapped_binary (op : BinaryOp) (right : Bool) (t : Tree) :
    t.isWrapped (.binary op) right = op.encloses right t.priority := by
  have upper := t.priority_le
  have lower := t.one_le_priority
  rw [isWrapped]
  cases op <;> cases right <;>
    simp only [operator?_eq_pow_iff, BinaryOp.encloses, Operator.priority, BinaryOp.priority,
      Operator.isCommutative, BinaryOp.isCommutative] <;>
    grind

theorem isWrapped_absent (outer : Operator) (right : Bool) : absent.isWrapped outer right = false := by
  cases outer with
  | binary op => cases op <;> cases right <;> rfl
  | apply f => cases right <;> rfl

end Tree

variable {L : Layout}

theorem Layout.tree_eq_absent_iff : L.tree = .absent ↔ L.root? = none := by
  cases L with
  | absent => exact ⟨fun _ => rfl, fun _ => rfl⟩
  | node => exact ⟨nofun, nofun⟩

namespace Arena

variable {a : Arena} {parent : Option Handle} {h : Handle} {kind : Kind} {span : Span}
  {left right : Layout}

theorem Stores.operator?_root (stores : a.Stores parent L) (root : L.root? = some h) :
    a.operator? h = L.tree.operator? := by
  cases L with
  | absent => cases root
  | node slot kind span left right =>
    cases root
    rw [operator?, kind?, stores.1]
    rfl

theorem Stores.priority_root (stores : a.Stores parent L) (root : L.root? = some h) :
    a.priority h = L.tree.priority := by
  rw [priority, Tree.priority, stores.operator?_root root]

/-- A node with a parent stands in parentheses where its tree does. -/
theorem Stores.needsParentheses_eq {p : Handle} {outer : Operator} (stores : a.Stores (some p) L)
    (root : L.root? = some h) (above : a.operator? p = some outer) {isRight : Bool}
    (side : a.isRight h = isRight) : a.needsParentheses h = L.tree.isWrapped outer isRight := by
  have priority : a.priority p = outer.priority := by
    rw [Arena.priority, above]
    rfl
  rw [needsParentheses, stores.parent?_root root, Tree.isWrapped]
  simp only [above, Option.some.injEq, side, stores.operator?_root root, stores.priority_root root,
    priority, Option.any_some]

/-- An operand of a node stands in parentheses where its tree does. -/
theorem Stores.any_needsParentheses {slot : Handle} {op : Operator}
    (stores : a.Stores parent (.node slot (.operator op) span left right))
    (nodup : (Layout.node slot (.operator op) span left right).slots.Nodup) :
    left.root?.any a.needsParentheses = left.tree.isWrapped op false ∧
      right.root?.any a.needsParentheses = right.tree.isWrapped op true := by
  have above : a.operator? slot = some op := stores.operator?_root rfl
  obtain ⟨-, -, apart, -, -⟩ := Layout.apart_of_nodup nodup
  constructor
  · cases root : left.root? with
    | none =>
      rw [Layout.tree_eq_absent_iff.mpr root, Tree.isWrapped_absent]
      rfl
    | some h =>
      refine stores.2.1.needsParentheses_eq root above ?_
      -- The right operand sits in another slot.
      rw [isRight, stores.2.1.parent?_root root, Option.any_some, stores.right?_node,
        beq_eq_false_iff_ne]
      intro same
      exact apart h (Layout.mem_slots_of_root? root) (Layout.mem_slots_of_root? same)
  · cases root : right.root? with
    | none =>
      rw [Layout.tree_eq_absent_iff.mpr root, Tree.isWrapped_absent]
      rfl
    | some h =>
      refine stores.2.2.needsParentheses_eq root above ?_
      rw [isRight, stores.2.2.parent?_root root, Option.any_some, stores.right?_node, root]
      exact beq_self_eq_true _

end Arena

namespace Function

variable {f : Function}

theorem fold_nodePhrase {parent : Option Handle} (stores : f.body.Stores parent L)
    (nodup : L.slots.Nodup) :
    L.fold .absent f.nodePhrase parent = L.tree.phrase f.leafPhrase := by
  induction L generalizing parent with
  | absent => rfl
  | node slot kind span left right ihLeft ihRight =>
    obtain ⟨nodupLeft, nodupRight, -, -, -⟩ := Layout.apart_of_nodup nodup
    cases kind with
    | operator op =>
      obtain ⟨wrapsLeft, wrapsRight⟩ := stores.any_needsParentheses nodup
      simp only [Layout.fold, Layout.tree, Tree.phrase, nodePhrase, wrapsLeft, wrapsRight,
        ihLeft stores.2.1 nodupLeft, ihRight stores.2.2 nodupRight]
    | integer | fraction | var | param => rfl

/-- What a body prints as is what its tree prints as. -/
theorem phrase_eq (formed : f.body.WellFormed) : f.phrase = f.body.tree.phrase f.leafPhrase := by
  obtain ⟨L, holds, -⟩ := formed
  rw [phrase, phraseAt?, holds.foldFrom_eq, Option.getD_some, holds.tree_eq,
    fold_nodePhrase holds.stores holds.nodup_slots]

/-- The characters of a tree in linear notation, with the names of the function. -/
def text (f : Function) (t : Tree) : List Char := (t.phrase f.leafPhrase).linear

/-- The characters of an operand, in parentheses if the operator encloses it. -/
def operandText (f : Function) (outer : BinaryOp) (right : Bool) (t : Tree) : List Char :=
  Phrase.wrapped (outer.encloses right t.priority) (f.text t)

theorem text_binary (op : BinaryOp) (span : Span) (left right : Tree) :
    f.text (.node (.operator (.binary op)) span left right) =
      f.operandText op false left ++ op.symbol.toList ++ f.operandText op true right := by
  rw [operandText, operandText, ← Tree.isWrapped_binary, ← Tree.isWrapped_binary]
  rfl

theorem text_apply (g : Elementary) (span : Span) (left right : Tree) :
    f.text (.node (.operator (.apply g)) span left right) =
      g.symbol.toList ++ '(' :: f.text right ++ [')'] := rfl

theorem bodyLinear_eq (formed : f.body.WellFormed) :
    f.bodyLinear = String.ofList (f.text f.body.tree) := by
  rw [bodyLinear, phrase_eq formed, text]

end Function
end Fluxion
