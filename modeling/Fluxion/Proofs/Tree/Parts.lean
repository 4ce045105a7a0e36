import Fluxion.Proofs.Tree.Shape
import Fluxion.Proofs.Tree.Value
/- The trees that a tree is made of, in post-order: the parts of the left operand, those of the
   right one, and then the tree itself (`parts`). The order is that in which the check looks at
   nodes and in which faults are reported, and the places of the parts (`span`) are those of a
   source. A missing operand is no part (`ne_absent_of_mem_parts`).

   Evaluation is strict, so where a well-shaped tree has a value, all of its parts have values
   (`exists_value?_of_mem_parts`); shape is asked for since an operand that is not looked at need
   not have one. That one part has no value is therefore reason enough for the whole tree to have
   none, which is how the check is seen to be right. -/
namespace Fluxion
namespace Tree

/-- The place of the topmost node. -/
def span : Tree → Span
  | absent => .nowhere
  | node _ span .. => span

/-- The tree and all trees below it, operands before their operators. -/
def parts : Tree → List Tree
  | absent => []
  | node kind span left right => left.parts ++ right.parts ++ [node kind span left right]

variable {kind : Kind} {place : Span} {left right t part : Tree}

theorem mem_parts_node : part ∈ (node kind place left right).parts ↔
    part ∈ left.parts ∨ part ∈ right.parts ∨ part = node kind place left right := by
  simp [parts]

theorem ne_absent_of_mem_parts (mem : part ∈ t.parts) : t ≠ .absent := by
  rintro rfl
  cases mem

theorem mem_parts_self (there : t ≠ absent) : t ∈ t.parts := by
  cases t with
  | absent => exact absurd rfl there
  | node => simp [parts]

/-- Where a tree has a value, all its parts have values. -/
theorem exists_value?_of_mem_parts {K : Type*} [Field K] [DecidableEq K] {ι : Interpretation K}
    {v : K} (shaped : t.WellShaped) (value : t.value? ι = some v) (mem : part ∈ t.parts) :
    ∃ w, part.value? ι = some w := by
  induction shaped generalizing v with
  | leaf noOperator =>
    obtain onLeft | onRight | rfl := mem_parts_node.mp mem
    · cases onLeft
    · cases onRight
    · exact ⟨v, value⟩
  | negation onOperand ih =>
    obtain onLeft | onRight | rfl := mem_parts_node.mp mem
    · cases onLeft
    · obtain ⟨w, operand, -⟩ := value?_negation.mp value
      exact ih operand onRight
    · exact ⟨v, value⟩
  | binary onLeft onRight ihLeft ihRight =>
    obtain ⟨u, w, first, second, -⟩ := (value?_binary onLeft.ne_absent).mp value
    obtain inLeft | inRight | rfl := mem_parts_node.mp mem
    · exact ihLeft first inLeft
    · exact ihRight second inRight
    · exact ⟨v, value⟩
  | call onArgument ih =>
    obtain onLeft | onRight | rfl := mem_parts_node.mp mem
    · cases onLeft
    · obtain ⟨w, argument, -⟩ := value?_call.mp value
      exact ih argument onRight
    · exact ⟨v, value⟩

end Tree
end Fluxion
