import Fluxion.Proofs.Arena.Layout
/- The shapes that trees of definitions have (`WellShaped`): leaves have no operands, elementary
   functions and the change of sign have a right one, and every other operator has two. Nothing is
   said about which kinds of nodes there are, nor about parameters, which may lack an entry in the
   table.

   An arena is well formed if it holds such a tree (`Arena.WellFormed`); slots that the tree does
   not use may hold anything. This is what most theorems about functions ask of a body, and what
   every function that was parsed has, whatever has been made of it since. A tree has more shapes
   than these, and some theorems do without them: those about links, about locality and about the
   order of visits hold of trees with a left operand only as well. -/
namespace Fluxion
namespace Tree

/-- Every node of the tree has the operands that its kind asks for. -/
inductive WellShaped : Tree → Prop where
  | leaf {kind : Kind} {span : Span} (noOperator : kind.operator? = none) :
      WellShaped (.leaf kind span)
  | negation {span : Span} {operand : Tree} (onOperand : WellShaped operand) :
      WellShaped (.node (.operator (.binary .sub)) span .absent operand)
  | binary {op : BinaryOp} {span : Span} {left right : Tree} (onLeft : WellShaped left)
      (onRight : WellShaped right) : WellShaped (.node (.operator (.binary op)) span left right)
  | call {f : Elementary} {span : Span} {argument : Tree} (onArgument : WellShaped argument) :
      WellShaped (.node (.operator (.apply f)) span .absent argument)

theorem WellShaped.ne_absent {t : Tree} (shaped : t.WellShaped) : t ≠ .absent := by
  cases shaped <;> exact Tree.noConfusion

/-- Only the change of sign has no left operand. -/
theorem WellShaped.operands_of_binary {op : BinaryOp} {span : Span} {left right : Tree}
    (shaped : (node (.operator (.binary op)) span left right).WellShaped) :
    right.WellShaped ∧ (left.WellShaped ∨ (op = .sub ∧ left = .absent)) := by
  cases shaped with
  | leaf noOperator => cases noOperator
  | negation onOperand => exact ⟨onOperand, .inr ⟨rfl, rfl⟩⟩
  | binary onLeft onRight => exact ⟨onRight, .inl onLeft⟩

/-- An operand is either missing or well shaped itself. -/
theorem WellShaped.operands {kind : Kind} {span : Span} {left right : Tree}
    (shaped : (node kind span left right).WellShaped) :
    (left = .absent ∨ left.WellShaped) ∧ (right = .absent ∨ right.WellShaped) := by
  cases shaped with
  | leaf => exact ⟨.inl rfl, .inl rfl⟩
  | negation onOperand => exact ⟨.inl rfl, .inr onOperand⟩
  | binary onLeft onRight => exact ⟨.inr onLeft, .inr onRight⟩
  | call onArgument => exact ⟨.inl rfl, .inr onArgument⟩

end Tree

/-- A layout of a tree that is there has a topmost slot. -/
theorem Layout.root?_of_shaped {L : Layout} (shaped : L.tree.WellShaped) :
    ∃ h, L.root? = some h := by
  cases L with
  | absent => exact absurd rfl shaped.ne_absent
  | node slot kind span left right => exact ⟨slot, rfl⟩

/-- The arena holds a well-shaped tree. -/
def Arena.WellFormed (a : Arena) : Prop := ∃ L, a.Holds L ∧ L.tree.WellShaped

theorem Arena.WellFormed.tree {a : Arena} (formed : a.WellFormed) : a.tree.WellShaped := by
  obtain ⟨L, holds, shaped⟩ := formed
  rwa [holds.tree_eq]

end Fluxion
