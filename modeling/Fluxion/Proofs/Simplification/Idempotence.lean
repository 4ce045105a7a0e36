import Fluxion.Proofs.Function.Bodies
import Fluxion.Proofs.Simplification.InPlace
/- One pass of simplification is enough (`simplify_normal_and_idempotent`). After a pass the body
   holds a tree that is normal, which is said of the tree without the rules. In an arena that holds
   a normal tree no rule applies to any node: where the rules agree with the rewrite of the tree,
   and the tree has none, they have none (`Stores.rewrite?_eq_none`). So another pass visits all
   nodes, answers no laws and changes no slot, no link and no released slot either
   (`simplifyAll_eq`).

   That one pass suffices is not obvious, as a law may make a node to which another one applies. The
   pass looks twice at a product that was fused to a quotient, and this is the only case in which it
   has to; the argument is in `Fluxion.Proofs.Simplification.NormalForm`. -/
namespace Fluxion
namespace Arena

open Simplification

variable {a : Arena} {parent : Option Handle} {L : Layout}

/-- No rule applies to the topmost node of a normal tree. -/
theorem Stores.rewrite?_eq_none (stores : a.Stores parent L) (nodup : L.slots.Nodup)
    (shaped : L.tree.WellShaped) (normal : L.tree.IsNormal) {h : Handle} (root : L.root? = some h) :
    rewrite? a h = none := by
  cases L with
  | absent => cases root
  | node slot kind span left right =>
    cases root
    have agrees := stores.agrees nodup shaped
    rw [Tree.rewrite?_eq_none normal] at agrees
    generalize rewrite? a h = found at agrees
    cases agrees
    rfl

theorem simplifyNode_eq {h : Handle} (none : rewrite? a h = none) : a.simplifyNode h = ([], a) := by
  -- No node is a product and a quotient at once.
  have same : ¬a.becameQuotient a h = true := by
    rw [becameQuotient, Bool.and_eq_true, beq_iff_eq, beq_iff_eq]
    rintro ⟨product, quotient⟩
    rw [product] at quotient
    cases quotient
  simp only [simplifyNode, rewriteBy, none, if_neg same]

/-- No rule applies to any node of a normal tree. -/
theorem Stores.forall_rewrite?_eq_none (stores : a.Stores parent L) (nodup : L.slots.Nodup)
    (shaped : L.tree = .absent ∨ L.tree.WellShaped) (normal : L.tree.IsNormal) :
    ∀ h ∈ L.slots, rewrite? a h = none := by
  induction L generalizing parent with
  | absent => simp
  | node slot kind span left right ihLeft ihRight =>
    intro h mem
    have shaped := shaped.resolve_left Tree.noConfusion
    obtain ⟨nodupLeft, nodupRight, -, -, -⟩ := Layout.apart_of_nodup nodup
    simp only [Layout.slots_node, List.mem_append, List.mem_singleton] at mem
    obtain (inLeft | inRight) | here := mem
    · exact ihLeft stores.2.1 nodupLeft shaped.operands.1 normal.1 h inLeft
    · exact ihRight stores.2.2 nodupRight shaped.operands.2 normal.2.1 h inRight
    · subst here
      exact stores.rewrite?_eq_none nodup shaped normal rfl

theorem simplifyAll_eq {slots : List Handle} (none : ∀ h ∈ slots, rewrite? a h = none) :
    a.simplifyAll slots = ([], a) := by
  induction slots with
  | nil => rfl
  | cons h rest ih =>
    have here := simplifyNode_eq (none h List.mem_cons_self)
    have there := ih fun x mem => none x (List.mem_cons_of_mem h mem)
    simp only [simplifyAll, here, there, List.append_nil]

end Arena

namespace Function

open Simplification

/-- After simplification the body is in normal form: no rule applies to any node, and
    simplifying once more applies no law and leaves every slot as it is. -/
theorem simplify_normal_and_idempotent (f : Function) (formed : f.body.WellFormed) :
    f.simplify.body.WellFormed ∧ f.simplify.body.tree.IsNormal ∧
      (∀ h ∈ f.simplify.body.postOrder, rewrite? f.simplify.body h = none) ∧
      f.simplify.simplifyWithSteps = ([], f.simplify) := by
  have normal : f.simplify.body.tree.IsNormal := by
    have tree : f.simplify.body.tree = f.body.tree.simplify.2 := formed.simplify_eq.2
    rw [tree]
    exact Tree.isNormal_simplify f.body.tree
  have formed : f.simplify.body.WellFormed := formed.simplify
  obtain ⟨L, holds, shaped⟩ := formed
  rw [holds.tree_eq] at normal
  have none := holds.stores.forall_rewrite?_eq_none holds.nodup_slots (.inr shaped) normal
  have idle : f.simplify.body.simplify = ([], f.simplify.body) := by
    rw [Arena.simplify, holds.postOrder_eq, Arena.simplifyAll_eq none]
  refine ⟨⟨L, holds, shaped⟩, ?_, ?_, ?_⟩
  · rwa [holds.tree_eq]
  · rwa [holds.postOrder_eq]
  · rw [simplifyWithSteps, idle]

/-- The definition `f(x) = 1/x*2`, whose product is fused to a quotient. -/
def reciprocalTimesTwo : Definition :=
  ⟨"f", "x", .binary .mul (.binary .div (.integer 1 ⟨5, 6⟩) (.name "x" ⟨7, 8⟩) ⟨5, 8⟩)
    (.integer 2 ⟨9, 10⟩) ⟨5, 10⟩⟩

theorem simplify_normal_and_idempotent_reciprocal :
    (ofDefinition reciprocalTimesTwo).body.WellFormed ∧
      (ofDefinition reciprocalTimesTwo).simplify.body.tree.IsNormal ∧
      (ofDefinition reciprocalTimesTwo).simplify.simplifyWithSteps =
        ([], (ofDefinition reciprocalTimesTwo).simplify) := by
  have formed := wellFormed_body_ofDefinition reciprocalTimesTwo
  obtain ⟨-, normal, -, idle⟩ := simplify_normal_and_idempotent _ formed
  exact ⟨formed, normal, idle⟩

end Function
end Fluxion
