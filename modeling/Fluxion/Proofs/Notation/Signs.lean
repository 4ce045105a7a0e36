import Fluxion.Proofs.Notation.Regrouping
import Fluxion.Proofs.Tree.Every
/- What can be read back from print. A sign is read only in front of a sum, and an exponent only if
   it is a single primary, while a printed operand can begin with a minus or be a power without
   parentheses. The conditions here are on trees: no operator stands in front of a minus and no
   power has a negative base (`HasReadableSigns`), and every exponent is a leaf or a call
   (`HasSimpleExponents`). Whether a print begins with a minus is said without printing
   (`BeginsWithMinus`).

   Regrouping keeps both conditions (`Regroups.hasReadableSigns`, `Regroups.hasSimpleExponents`). In
   trees without negative literals, as parsed ones are, a change of sign can only come to stand
   behind a plus; behind other operators it is enclosed. So there the condition comes down to the
   right operands of sums (`hasReadableSigns_of_plusIsUnsigned`). -/
namespace Fluxion

/-- The literal is not negative. -/
def Kind.IsNonneg (kind : Kind) : Prop := ∀ n, kind = .integer n → 0 ≤ n

theorem Kind.isNonneg_of_integer?_eq_none {kind : Kind} (other : kind.integer? = none) :
    kind.IsNonneg := by
  rintro n rfl
  cases other

namespace Tree

/-- The print of the tree begins with a minus: a negative literal or a change of sign stands
    in front, behind no parenthesis. -/
def BeginsWithMinus : Tree → Prop
  | node (.integer n) .. => n < 0
  | node (.operator (.binary op)) _ left _ =>
    (op = .sub ∧ left = absent) ∨ (op.encloses false left.priority = false ∧ left.BeginsWithMinus)
  | _ => False

/-- No operator stands in front of a minus, and the literal has an opposite. -/
def SignIsReadable (kind : Kind) (_ right : Tree) : Prop :=
  match kind with
  | .integer n => n ≠ .minValue
  | .operator (.binary op) => op.encloses true right.priority = true ∨ ¬right.BeginsWithMinus
  | _ => True

/-- No power has a negative literal for its base, whose sign would be that of the power. -/
def BaseIsUnsigned (kind : Kind) (left _ : Tree) : Prop :=
  kind = .operator (.binary .pow) → ∀ n, left.integer? = some n → 0 ≤ n

/-- Signs at a node are read as they are meant. -/
def SignsAreReadable (kind : Kind) (left right : Tree) : Prop :=
  SignIsReadable kind left right ∧ BaseIsUnsigned kind left right

/-- An exponent is a leaf or a call. -/
def ExponentIsSimple (kind : Kind) (_ right : Tree) : Prop :=
  kind = .operator (.binary .pow) → ∀ op, right.operator? = some op → op.isFunction = true

def HasReadableSigns (t : Tree) : Prop := t.Every SignsAreReadable

def HasSimpleExponents (t : Tree) : Prop := t.Every ExponentIsSimple

variable {t t' : Tree} {kind : Kind} {span : Span} {l r : Tree}

/-- A change of sign, or a sum or a difference that begins with one. -/
def LeadsToNegation : Tree → Prop
  | node (.operator (.binary .sub)) _ absent _ => True
  | node (.operator (.binary .sub)) _ left _ | node (.operator (.binary .add)) _ left _ =>
    left.LeadsToNegation
  | _ => False

/-- No change of sign comes right behind the plus of a sum. -/
def PlusIsUnsigned (kind : Kind) (_ right : Tree) : Prop :=
  kind = .operator (.binary .add) → ¬right.LeadsToNegation

/-! ## Regrouping -/

theorem Regroups.every {p : Kind → Tree → Tree → Prop} (step : t.Regroups t') (every : t.Every p)
    (here : ∀ {outer inner : BinaryOp} {a b c : Tree} {s s' : Span}, outer.Associates inner →
      p (.operator (.binary outer)) a (node (.operator (.binary inner)) s b c) →
      p (.operator (.binary inner)) b c →
      p (.operator (.binary outer)) a b ∧
        p (.operator (.binary inner)) (node (.operator (.binary outer)) s' a b) c)
    (left : ∀ {kind : Kind} {l l' r : Tree}, l.Regroups l' → p kind l r → p kind l' r)
    (right : ∀ {kind : Kind} {l r r' : Tree}, r.Regroups r' → p kind l r → p kind l r') :
    t'.Every p := by
  induction step with
  | here associates =>
    obtain ⟨onOuter, onLeft, onInner, onMiddle, onRight⟩ := every
    obtain ⟨onOuter', onInner'⟩ := here associates onOuter onInner
    exact ⟨onInner', ⟨onOuter', onLeft, onMiddle⟩, onRight⟩
  | left step ih => exact ⟨left step every.1, ih every.2.1, every.2.2⟩
  | right step ih => exact ⟨right step every.1, every.2.1, ih every.2.2⟩

theorem Regroups.beginsWithMinus_iff (step : t.Regroups t') :
    t'.BeginsWithMinus ↔ t.BeginsWithMinus := by
  induction step with
  | @here outer inner a b c s₁ s₂ s₃ s₄ associates =>
    have open_ : inner.encloses false outer.priority = false := by cases associates <;> rfl
    simp [BeginsWithMinus, priority_binary, open_]
  | @left kind span l l' r step ih =>
    obtain _ | _ | _ | _ | (op | g) := kind
    case operator.binary =>
      simp only [BeginsWithMinus, step.ne_absent.1, step.ne_absent.2, step.priority_eq, ih]
    all_goals exact Iff.rfl
  | @right kind =>
    obtain _ | _ | _ | _ | (op | g) := kind
    all_goals exact Iff.rfl

theorem Regroups.integer?_eq (step : t.Regroups t') {n : Int64} (integer : t'.integer? = some n) :
    t.integer? = some n := by
  cases step with
  | here => cases integer
  | left | right => exact integer

theorem Regroups.hasReadableSigns (step : t.Regroups t') (readable : t.HasReadableSigns) :
    t'.HasReadableSigns := by
  refine step.every readable ?_ ?_ ?_
  · intro outer inner a b c s s' associates onOuter onInner
    have middle : inner.encloses false b.priority = outer.encloses true b.priority := by
      cases associates <;> rfl
    have above : outer.encloses true inner.priority = false := by cases associates <;> rfl
    have noPower : ∀ {l r : Tree}, BaseIsUnsigned (.operator (.binary outer)) l r ∧
        BaseIsUnsigned (.operator (.binary inner)) l r := by cases associates <;> exact ⟨nofun, nofun⟩
    refine ⟨⟨?_, noPower.1⟩, onInner.1, noPower.2⟩
    -- What the inner operation begins with is its left operand, unless that is enclosed.
    rw [SignIsReadable, ← middle]
    cases enclosed : inner.encloses false b.priority with
    | true => exact .inl rfl
    | false =>
      refine .inr fun minus => ?_
      obtain enclosed' | noMinus := onOuter.1
      · rw [priority_binary, above] at enclosed'
        cases enclosed'
      · exact noMinus (.inr ⟨enclosed, minus⟩)
  · exact fun step onNode =>
      ⟨onNode.1, fun power n integer => onNode.2 power n (step.integer?_eq integer)⟩
  · intro kind l r r' step onNode
    refine ⟨?_, onNode.2⟩
    obtain _ | _ | _ | _ | (op | g) := kind
    case operator.binary =>
      rw [SignIsReadable, step.priority_eq, step.beginsWithMinus_iff]
      exact onNode.1
    all_goals exact onNode.1

theorem Regroups.hasSimpleExponents (step : t.Regroups t') (simple : t.HasSimpleExponents) :
    t'.HasSimpleExponents := by
  refine step.every simple ?_ ?_ ?_
  · intro outer inner a b c s s' associates _ _
    constructor <;> intro power <;> cases associates <;> cases power
  · exact fun _ onNode => onNode
  · intro kind l r r' step onNode power op operator
    cases step with
    | here associates => cases onNode power _ rfl
    | left | right => exact onNode power op operator

/-! ## Trees without negative literals -/

theorem LeadsToNegation.priority_eq (leads : t.LeadsToNegation) : t.priority = 5 := by
  unfold LeadsToNegation at leads
  split at leads
  · rfl
  · rfl
  · rfl
  · cases leads

theorem leadsToNegation_of_left {op : BinaryOp} (leads : l.LeadsToNegation)
    (bare : op.encloses false l.priority = false) :
    (node (.operator (.binary op)) span l r).LeadsToNegation := by
  rw [leads.priority_eq] at bare
  cases op with
  | add => exact leads
  | sub =>
    cases l with
    | absent => cases leads
    | node => exact leads
  | mul | div | pow => cases bare

theorem BeginsWithMinus.leadsToNegation (minus : t.BeginsWithMinus)
    (nonneg : t.EveryKind Kind.IsNonneg) : t.LeadsToNegation := by
  induction t with
  | absent => exact minus
  | node kind span left right ihLeft ihRight =>
    obtain n | _ | _ | _ | (op | g) := kind
    case integer => exact absurd (nonneg.1 n rfl) (Int64.not_le.mpr minus)
    case operator.binary =>
      obtain ⟨rfl, rfl⟩ | ⟨bare, minus⟩ := minus
      · trivial
      · exact leadsToNegation_of_left (ihLeft minus nonneg.2.1) bare
    all_goals exact minus

theorem nonneg_of_integer? (nonneg : t.EveryKind Kind.IsNonneg) {n : Int64}
    (integer : t.integer? = some n) : 0 ≤ n := by
  cases t with
  | absent => cases integer
  | node kind span left right =>
    cases kind with
    | integer m =>
      cases integer
      exact nonneg.1 n rfl
    | fraction | var | param | operator => cases integer

/-- Behind a plus no operand begins with a minus, and other operators enclose such operands. -/
theorem hasReadableSigns_of_plusIsUnsigned (nonneg : t.EveryKind Kind.IsNonneg)
    (exponents : t.HasSimpleExponents) (unsigned : t.Every PlusIsUnsigned) : t.HasReadableSigns := by
  induction t with
  | absent => trivial
  | node kind span left right ihLeft ihRight =>
    refine ⟨⟨?_, fun _ n integer => nonneg_of_integer? nonneg.2.1 integer⟩,
      ihLeft nonneg.2.1 exponents.2.1 unsigned.2.1, ihRight nonneg.2.2 exponents.2.2 unsigned.2.2⟩
    have leads := fun minus : right.BeginsWithMinus => minus.leadsToNegation nonneg.2.2
    obtain n | _ | _ | _ | (op | g) := kind
    case integer =>
      rintro rfl
      exact absurd (nonneg.1 _ rfl) (by decide)
    case operator.binary =>
      rw [SignIsReadable, or_iff_not_imp_right, not_not]
      intro minus
      have five := (leads minus).priority_eq
      cases op with
      | add => exact absurd (leads minus) (unsigned.1 rfl)
      | pow =>
        obtain ⟨op, operator, -⟩ := exists_binary_of_priority (by omega : 4 ≤ right.priority)
        cases exponents.1 rfl _ operator
      | sub | mul | div => rw [five]; rfl
    all_goals trivial

end Tree
end Fluxion
