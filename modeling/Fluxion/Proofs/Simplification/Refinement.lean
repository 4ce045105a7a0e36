import Fluxion.Proofs.Function.Bodies
import Fluxion.Proofs.Simplification.InPlace
/- What simplification in place computes. Wherever the nodes of an arena sit and whatever has been
   released before, the tree afterwards is the one that the pass makes of the tree before, and the
   laws are answered in the order of the pass: those of the left operand, those of the right one,
   and then those of the node itself (`simplify_refines_pass`). Nothing is asked of the arena but
   that it holds a tree of a proper shape.

   The example has its nodes out of order and two slots released (`scattered`). The second result is
   about literals: not every operator between two of them is folded or left as it is. A power is no
   arithmetic, and its laws apply to literals as to anything else, so `2^1` becomes `2` by the law
   for the exponent one (`simplify_literals_by_law`). -/
namespace Fluxion
namespace Arena

open Simplification

theorem simplify_refines_pass {a : Arena} (formed : a.WellFormed) :
    a.simplify.2.WellFormed ∧ a.simplify.2.tree = a.tree.simplify.2 ∧
      a.simplify.1 = a.tree.simplify.1 :=
  ⟨formed.simplify, formed.simplify_eq.2, formed.simplify_eq.1⟩

/-- The expression `(0+x)*(1/y)` with its nodes out of order and two slots released. -/
def scattered : Arena where
  nodes := #[⟨.operator (.binary .div), ⟨6, 9⟩, some 7, some 5, some 1⟩,
    ⟨.param 0, ⟨8, 9⟩, some 0, none, none⟩, ⟨.var, ⟨3, 4⟩, some 4, none, none⟩,
    ⟨.integer 9, ⟨0, 1⟩, none, none, none⟩,
    ⟨.operator (.binary .add), ⟨1, 4⟩, some 7, some 6, some 2⟩,
    ⟨.integer 1, ⟨6, 7⟩, some 0, none, none⟩, ⟨.integer 0, ⟨1, 2⟩, some 4, none, none⟩,
    ⟨.operator (.binary .mul), ⟨0, 10⟩, none, some 4, some 0⟩,
    ⟨.var, ⟨0, 0⟩, some 3, none, none⟩]
  free := [8, 3]
  root := 7

/-- The slots of the nodes. -/
def scatteredLayout : Layout :=
  .node 7 (.operator (.binary .mul)) ⟨0, 10⟩
    (.node 4 (.operator (.binary .add)) ⟨1, 4⟩ (.node 6 (.integer 0) ⟨1, 2⟩ .absent .absent)
      (.node 2 .var ⟨3, 4⟩ .absent .absent))
    (.node 0 (.operator (.binary .div)) ⟨6, 9⟩ (.node 5 (.integer 1) ⟨6, 7⟩ .absent .absent)
      (.node 1 (.param 0) ⟨8, 9⟩ .absent .absent))

theorem holds_scattered : scattered.Holds scatteredLayout where
  root := rfl
  stores := ⟨rfl, ⟨rfl, ⟨rfl, trivial, trivial⟩, rfl, trivial, trivial⟩, rfl,
    ⟨rfl, trivial, trivial⟩, rfl, trivial, trivial⟩
  nodup := by decide
  bound := by decide

theorem simplify_refines_pass_scattered :
    scattered.WellFormed ∧ scattered.simplify.1 = [.addZero, .multiplyReciprocal] ∧
      scattered.simplify.2.tree =
        .node (.operator (.binary .div)) ⟨0, 10⟩ (.leaf .var ⟨3, 4⟩) (.leaf (.param 0) ⟨8, 9⟩) := by
  have formed : scattered.WellFormed :=
    ⟨scatteredLayout, holds_scattered,
      .binary (.binary (.leaf rfl) (.leaf rfl)) (.binary (.leaf rfl) (.leaf rfl))⟩
  obtain ⟨-, tree, steps⟩ := simplify_refines_pass formed
  have before : scattered.tree = scatteredLayout.tree := holds_scattered.tree_eq
  rw [before] at tree steps
  exact ⟨formed, steps, tree⟩

/-- The definition `f(x)=2^1`. -/
def twoToTheOne : Definition :=
  ⟨"f", "x", .binary .pow (.integer 2 ⟨5, 6⟩) (.integer 1 ⟨7, 8⟩) ⟨5, 8⟩⟩

/-- Not every operator between integer literals is folded or left as it is: a power is no
    arithmetic, and its laws apply to literals too. -/
theorem simplify_literals_by_law :
    ¬∀ (a : Arena) (op : BinaryOp) (span : Span) (l r : Tree), a.WellFormed →
      a.tree = .node (.operator (.binary op)) span l r → l.integer?.isSome → r.integer?.isSome →
      a.simplify.1 = [] ∨ a.simplify.1 = [.foldConstants] := by
  intro folded
  have formed := Function.wellFormed_body_ofDefinition twoToTheOne
  have tree := Function.tree_body_ofDefinition twoToTheOne
  have steps : (Function.ofDefinition twoToTheOne).body.simplify.1 = [.powerOne] := by
    rw [formed.simplify_eq.1, tree]
    rfl
  obtain idle | fold := folded _ _ _ _ _ formed tree rfl rfl
  · rw [steps] at idle
    cases idle
  · rw [steps] at fold
    cases fold

end Arena
end Fluxion
