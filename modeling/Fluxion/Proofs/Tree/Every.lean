import Fluxion.Proofs.Tree.Shape
/- Properties that every node of a tree has (`Every`). A property may look at the kind of a node and
   at its operands; most of those used here are about kinds alone (`EveryKind`). They can be decided
   where the property of a node can, and they follow from each other node by node (`Every.mono`,
   `Every.and`).

   A property of nodes is kept by an operation on trees if it is kept where the operation makes a
   node, so theorems about such properties go by induction on the tree and one lemma for each node
   that is made. What is said this way are conditions on expressions: exponents that are leaves,
   signs that can be read, parameters that are in a table, logarithms whose argument is not zero. -/
namespace Fluxion
namespace Tree

/-- Every node has the property, which sees its kind and its operands. -/
def Every (p : Kind → Tree → Tree → Prop) : Tree → Prop
  | absent => True
  | node kind _ left right => p kind left right ∧ left.Every p ∧ right.Every p

/-- The kind of every node has the property. -/
def EveryKind (p : Kind → Prop) : Tree → Prop := Every fun kind _ _ => p kind

instance Every.decidable (p : Kind → Tree → Tree → Prop)
    [∀ kind left right, Decidable (p kind left right)] : (t : Tree) → Decidable (t.Every p)
  | absent => .isTrue trivial
  | node kind _ left right =>
    have := decidable p left
    have := decidable p right
    inferInstanceAs (Decidable (p kind left right ∧ left.Every p ∧ right.Every p))

variable {p q : Kind → Tree → Tree → Prop} {t : Tree}

theorem Every.mono (every : t.Every p) (imp : ∀ kind l r, p kind l r → q kind l r) : t.Every q := by
  induction t with
  | absent => trivial
  | node kind span left right ihLeft ihRight =>
    exact ⟨imp kind left right every.1, ihLeft every.2.1, ihRight every.2.2⟩

theorem Every.and (first : t.Every p) (second : t.Every q) :
    t.Every fun kind l r => p kind l r ∧ q kind l r := by
  induction t with
  | absent => trivial
  | node kind span left right ihLeft ihRight =>
    exact ⟨⟨first.1, second.1⟩, ihLeft first.2.1 second.2.1, ihRight first.2.2 second.2.2⟩

theorem EveryKind.mono {p q : Kind → Prop} (every : t.EveryKind p) (imp : ∀ kind, p kind → q kind) :
    t.EveryKind q :=
  Every.mono every fun kind _ _ => imp kind

theorem everyKind_leaf {p : Kind → Prop} {kind : Kind} {span : Span} :
    (leaf kind span).EveryKind p ↔ p kind :=
  ⟨fun every => every.1, fun here => ⟨here, trivial, trivial⟩⟩

end Tree
end Fluxion
