import Fluxion.Proofs.Notation.Reading
/- Printed trees are read. By induction on a tree that is grouped to the left and readable
   (`IsReadable`), its print is a sum of the grammar; up to which parts of the grammar it belongs
   depends on the binding class of its topmost operator and on whether it begins with a minus
   (`IsRead`).

   At a node, an operand is read as it is, or as a sum in parentheses (`IsRead.operand`). Since the
   tree is grouped to the left, a right operand that is not enclosed binds tighter than its operator
   (`IsLeftGrouped.right_operand`), so it is what the grammar has there: a product behind a sign or
   an operator of sums, a power behind an operator of products. Each form of node has a lemma
   (`isRead_negation`, `isRead_sum`, `isRead_product`, `isRead_power`), and `IsReadable.isRead` puts
   them together. -/
namespace Fluxion

open Grammar

namespace Tree

variable {op : BinaryOp} {span : Span} {l r : Tree}

/-- In a tree that is grouped to the left, a right operand that is not enclosed binds tighter
    than its operator. -/
theorem IsLeftGrouped.right_operand (grouped : (node (.operator (.binary op)) span l r).IsLeftGrouped)
    (shaped : r.WellShaped) (signs : SignIsReadable (.operator (.binary op)) l r)
    (noPower : op ≠ .pow) :
    op.encloses true r.priority = true ∨ (r.priority < op.priority ∧ ¬r.BeginsWithMinus) := by
  obtain enclosed | noMinus := signs
  · exact .inl enclosed
  · rw [or_iff_not_imp_left]
    intro notEnclosed
    refine ⟨?_, noMinus⟩
    have upper := r.priority_le
    -- A sum or a product to the right of its own kind would be regrouped.
    have apart : ∀ {inner : BinaryOp}, op.Associates inner → r.operator? ≠ some (.binary inner) := by
      intro inner associates same
      cases shaped with
      | leaf noOperator => exact absurd (noOperator.symm.trans same) nofun
      | negation =>
        cases same
        exact noMinus (.inl ⟨rfl, rfl⟩)
      | binary onLeft =>
        cases same
        exact grouped (node _ span (node _ span l _) _) (.here associates onLeft.ne_absent)
      | call => cases same
    cases op with
    | add =>
      refine lt_of_le_of_ne upper fun five => ?_
      obtain ⟨inner, operator, same⟩ := exists_binary_of_priority (by rw [five]; decide)
      rw [five] at same
      cases inner with
      | add => exact apart .addAdd operator
      | sub => exact apart .addSub operator
      | mul | div | pow => cases same
    | sub =>
      have notFive : r.priority ≠ 5 := by simpa [BinaryOp.encloses] using notEnclosed
      exact lt_of_le_of_ne upper notFive
    | mul =>
      have notFive : r.priority ≠ 5 := by simpa [BinaryOp.encloses] using notEnclosed
      have notFour : r.priority ≠ 4 := by
        intro four
        obtain ⟨inner, operator, same⟩ := exists_binary_of_priority four.ge
        rw [four] at same
        cases inner with
        | mul => exact apart .mulMul operator
        | div => exact apart .mulDiv operator
        | add | sub | pow => cases same
      simp only [BinaryOp.priority]
      omega
    | div => simpa [BinaryOp.encloses, BinaryOp.priority] using notEnclosed
    | pow => exact absurd rfl noPower

end Tree

namespace Function

variable {f : Function} {t l r : Tree} {span : Span} {op : BinaryOp} {right : Bool}

/-- What the print of a tree is read as. Sums are all of it; the print of what binds tighter
    than sums is a product too, perhaps behind a minus, and so on for powers and primaries. -/
structure IsRead (f : Function) (t : Tree) : Prop where
  sum : f.Reads .sum false (f.text t) t
  product : t.priority ≤ 4 → ∃ opposite u, f.text t = (if opposite then '-' :: u else u) ∧
    (opposite = true ↔ t.BeginsWithMinus) ∧ f.Reads .product opposite u t
  power : t.priority ≤ 3 → ¬t.BeginsWithMinus → f.Reads .power false (f.text t) t
  primary : t.priority ≤ 3 → t.priority ≠ 2 → ¬t.BeginsWithMinus →
    f.Reads .primary false (f.text t) t

/-- A product behind a minus is a sum. -/
theorem Reads.sum_of_product {opposite : Bool} {u : List Char}
    (reads : f.Reads .product opposite u t) :
    f.Reads .sum false (if opposite then '-' :: u else u) t := by
  cases opposite with
  | true => exact reads.minus fun _ _ => .sign
  | false => exact reads.sum

theorem IsRead.unsigned (read : f.IsRead t) (low : t.priority ≤ 4) (noMinus : ¬t.BeginsWithMinus) :
    f.Reads .product false (f.text t) t := by
  obtain ⟨opposite, u, text, minus, reads⟩ := read.product low
  cases opposite with
  | true => exact absurd (minus.mp rfl) noMinus
  | false => rwa [text]

/-! ## Operands -/

/-- An operand is read as it is, or as a sum in parentheses. -/
theorem IsRead.operand {part : Part} (read : f.IsRead t)
    (wider : ∀ {u}, f.Reads .primary false u t → f.Reads part false u t)
    (bare : op.encloses right t.priority = false → f.Reads part false (f.text t) t) :
    f.Reads part false (f.operandText op right t) t := by
  rw [operandText]
  cases enclosed : op.encloses right t.priority with
  | true => exact wider read.sum.enclosed
  | false => exact bare enclosed

/-- What stands to the right of a sign or an operator of sums is a product. -/
theorem IsRead.right_product (read : f.IsRead r)
    (tight : op.encloses true r.priority = true ∨ (r.priority < op.priority ∧ ¬r.BeginsWithMinus)) :
    f.Reads .product false (f.operandText op true r) r := by
  refine read.operand (fun reads => reads.power.product) fun bare => ?_
  obtain enclosed | ⟨low, noMinus⟩ := tight
  · rw [bare] at enclosed
    cases enclosed
  · have top : op.priority ≤ 5 := by cases op <;> decide
    exact read.unsigned (by omega) noMinus

/-- What stands to the right of an operator of products is a power. -/
theorem IsRead.right_power (read : f.IsRead r) (four : op.priority = 4)
    (tight : op.encloses true r.priority = true ∨ (r.priority < op.priority ∧ ¬r.BeginsWithMinus)) :
    f.Reads .power false (f.operandText op true r) r := by
  refine read.operand Reads.power fun bare => ?_
  obtain enclosed | ⟨low, noMinus⟩ := tight
  · rw [bare] at enclosed
    cases enclosed
  · exact read.power (by omega) noMinus

/-! ## Nodes -/

theorem IsRead.ofSum (five : t.priority = 5) (reads : f.Reads .sum false (f.text t) t) :
    f.IsRead t :=
  ⟨reads, fun low => by omega, fun low => by omega, fun low => by omega⟩

/-- A tree of which some part is read, perhaps behind a minus. -/
theorem IsRead.ofProduct (opposite : Bool) {u : List Char}
    (text : f.text t = if opposite then '-' :: u else u)
    (minus : opposite = true ↔ t.BeginsWithMinus) (product : f.Reads .product opposite u t)
    (power : t.priority ≤ 3 → f.Reads .power opposite u t)
    (primary : t.priority ≤ 3 → t.priority ≠ 2 → f.Reads .primary opposite u t) : f.IsRead t := by
  refine ⟨?_, fun _ => ⟨opposite, u, text, minus, product⟩, fun low noMinus => ?_,
    fun low other noMinus => ?_⟩
  · rw [text]
    exact product.sum_of_product
  all_goals
    obtain rfl : opposite = false := by simpa [noMinus] using minus
    rw [text]
  · exact power low
  · exact primary low other

theorem isRead_leaf {kind : Kind} (leaf : kind.operator? = none) (legible : f.IsLegible kind)
    (signs : Tree.SignIsReadable kind .absent .absent) : f.IsRead (.leaf kind span) := by
  have build : ∀ opposite {u}, f.text (.leaf kind span) = (if opposite then '-' :: u else u) →
      (opposite = true ↔ (Tree.leaf kind span).BeginsWithMinus) →
      f.Reads .primary opposite u (.leaf kind span) → f.IsRead (.leaf kind span) :=
    fun _ _ text minus reads =>
      .ofProduct _ text minus reads.power.product (fun _ => reads.power) fun _ _ => reads
  by_cases negative : ∃ n, kind = .integer n ∧ n < 0
  · obtain ⟨n, rfl, negative⟩ := negative
    obtain ⟨u, text, reads⟩ := reads_negative span negative signs
    exact build true text ⟨fun _ => negative, fun _ => rfl⟩ reads
  · have nonneg : ∀ n, kind = .integer n → 0 ≤ n := fun n same =>
      Int64.not_lt.mp fun below => negative ⟨n, same, below⟩
    refine build false rfl ⟨nofun, fun minus => ?_⟩ (reads_leaf legible leaf nonneg)
    cases kind with
    | operator => cases leaf
    | integer n => exact absurd minus (Int64.not_lt.mpr (nonneg n rfl))
    | fraction | var | param => cases minus

/-! ## Trees -/

/-- Every leaf, sign and exponent of a well-shaped tree can be read. -/
structure IsReadable (f : Function) (t : Tree) : Prop where
  shaped : t.WellShaped
  legible : t.EveryKind f.IsLegible
  signs : t.HasReadableSigns
  exponents : t.HasSimpleExponents

theorem isRead_negation {operand : Tree} (read : f.IsRead operand)
    (tight : BinaryOp.sub.encloses true operand.priority = true ∨
      (operand.priority < BinaryOp.sub.priority ∧ ¬operand.BeginsWithMinus)) :
    f.IsRead (.node (.operator (.binary .sub)) span .absent operand) := by
  refine .ofSum rfl ?_
  have text : f.text (.node (.operator (.binary .sub)) span .absent operand) =
      '-' :: f.operandText .sub true operand := text_binary _ _ _ _
  rw [text]
  exact (read.right_product tight).minus fun _ _ => .negation

theorem isRead_sum (five : op.priority = 5) (known : Rank.terms.operator? (tokenKind op) = some op)
    (readLeft : f.IsRead l) (readRight : f.IsRead r)
    (tight : op.encloses true r.priority = true ∨ (r.priority < op.priority ∧ ¬r.BeginsWithMinus)) :
    f.IsRead (.node (.operator (.binary op)) span l r) := by
  have bare : f.operandText op false l = f.text l := by
    cases op with
    | add | sub => rfl
    | mul | div | pow => cases five
  have sum : f.Reads .sum false _ (.node (.operator (.binary op)) span l r) :=
    Reads.chain .terms readLeft.sum (readRight.right_product tight) known nofun
  refine .ofSum five ?_
  rwa [text_binary, bare]

theorem isRead_product (four : op.priority = 4) (known : Rank.factors.operator? (tokenKind op) = some op)
    (readLeft : f.IsRead l) (readRight : f.IsRead r)
    (tight : op.encloses true r.priority = true ∨ (r.priority < op.priority ∧ ¬r.BeginsWithMinus)) :
    f.IsRead (.node (.operator (.binary op)) span l r) := by
  have factors : op = .mul ∨ op = .div := by
    cases op with
    | mul => exact .inl rfl
    | div => exact .inr rfl
    | add | sub | pow => cases four
  have five : op.encloses false l.priority = (l.priority == 5) := by
    obtain rfl | rfl := factors <;> rfl
  have noSub : op ≠ .sub := by
    rintro rfl
    cases four
  have onRight := readRight.right_power four tight
  obtain ⟨opposite, u, text, minus, onLeft⟩ : ∃ opposite u,
      f.operandText op false l = (if opposite then '-' :: u else u) ∧
        (opposite = true ↔ op.encloses false l.priority = false ∧ l.BeginsWithMinus) ∧
        f.Reads .product opposite u l := by
    rw [operandText]
    cases enclosed : op.encloses false l.priority with
    | true => exact ⟨false, _, rfl, by simp, readLeft.sum.enclosed.power.product⟩
    | false =>
      have top := l.priority_le
      have other : l.priority ≠ 5 := by simpa [five] using enclosed
      simpa [Phrase.wrapped] using readLeft.product (by omega)
  have product : f.Reads .product opposite (u ++ op.symbol.toList ++ f.operandText op true r)
      (.node (.operator (.binary op)) span l r) :=
    Reads.chain .factors onLeft onRight known fun _ => factors
  refine .ofProduct opposite ?_ ?_ product (fun low => ?_) fun low => ?_
  · rw [text_binary, text]
    cases opposite <;> rfl
  · rw [minus]
    exact ⟨.inr, fun begins => begins.resolve_left fun missing => noSub missing.1⟩
  all_goals
    rw [Tree.priority_binary, four] at low
    omega

theorem isRead_power (readBase : f.IsRead l) (readExponent : f.IsRead r)
    (base : l.priority = 1 → ¬l.BeginsWithMinus) (exponent : r.priority = 1 ∨ r.priority = 3)
    (noMinus : ¬r.BeginsWithMinus) : f.IsRead (.node (.operator (.binary .pow)) span l r) := by
  have onBase : f.Reads .primary false (f.operandText .pow false l) l := by
    refine readBase.operand id fun bare => ?_
    have one : l.priority = 1 := by simpa [BinaryOp.encloses] using bare
    exact readBase.primary (by omega) (by omega) (base one)
  have onExponent : f.Reads .primary false (f.operandText .pow true r) r :=
    readExponent.operand id fun _ => readExponent.primary (by omega) (by omega) noMinus
  have power : f.Reads .power false _ (.node (.operator (.binary .pow)) span l r) :=
    Reads.pow onBase onExponent
  rw [← text_binary] at power
  refine .ofProduct false rfl ⟨Bool.noConfusion, ?_⟩ power.product (fun _ => power)
    fun _ other => absurd rfl other
  rintro (⟨sub, -⟩ | ⟨bare, minus⟩)
  · cases sub
  · have one : l.priority = 1 := by simpa [BinaryOp.encloses] using bare
    exact absurd minus (base one)

/-- A leaf that begins with a minus is a negative literal. -/
theorem exists_integer?_of_beginsWithMinus (shaped : t.WellShaped) (one : t.priority = 1)
    (minus : t.BeginsWithMinus) : ∃ n, t.integer? = some n ∧ n < 0 := by
  cases shaped with
  | @leaf kind span noOperator =>
    cases kind with
    | integer n => exact ⟨n, rfl, minus⟩
    | operator => cases noOperator
    | fraction | var | param => cases minus
  | negation => cases one
  | @binary op => cases op <;> cases one
  | call => cases one

/-- A readable tree that is grouped to the left is read from its print. -/
theorem IsReadable.isRead (readable : f.IsReadable t) (grouped : t.IsLeftGrouped) : f.IsRead t := by
  obtain ⟨shaped, legible, signs, exponents⟩ := readable
  induction shaped with
  | leaf noOperator => exact isRead_leaf noOperator legible.1 signs.1.1
  | negation onOperand ih =>
    exact isRead_negation (ih grouped.right legible.2.2 signs.2.2 exponents.2.2)
      (grouped.right_operand onOperand signs.1.1 (by decide))
  | @binary op span l r onLeft onRight ihLeft ihRight =>
    have readLeft := ihLeft grouped.left legible.2.1 signs.2.1 exponents.2.1
    have readRight := ihRight grouped.right legible.2.2 signs.2.2 exponents.2.2
    have tight := grouped.right_operand onRight signs.1.1
    cases op with
    | add | sub => exact isRead_sum rfl rfl readLeft readRight (tight (by decide))
    | mul | div => exact isRead_product rfl rfl readLeft readRight (tight (by decide))
    | pow =>
      refine isRead_power readLeft readRight (fun one minus => ?_) ?_ ?_
      · obtain ⟨n, integer, negative⟩ := exists_integer?_of_beginsWithMinus onLeft one minus
        exact Int64.not_lt.mpr (signs.1.2 rfl n integer) negative
      · have simple := exponents.1 rfl
        rw [Tree.priority]
        cases operator : r.operator? with
        | none => exact .inl rfl
        | some op =>
          cases op with
          | binary => cases simple _ operator
          | apply => exact .inr rfl
      · exact signs.1.1.resolve_left Bool.false_ne_true
  | @call g span argument onArgument ih =>
    have read := ih grouped.right legible.2.2 signs.2.2 exponents.2.2
    have primary : f.Reads .primary false _ (.node (.operator (.apply g)) span .absent argument) :=
      read.sum.call g
    exact .ofProduct false rfl (iff_of_false Bool.false_ne_true id) primary.power.product
      (fun _ => primary.power) fun _ _ => primary

end Function
end Fluxion
