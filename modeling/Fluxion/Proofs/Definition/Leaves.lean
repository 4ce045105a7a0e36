import Fluxion.Proofs.Binary64.Literal
import Fluxion.Proofs.Definition.Names
import Fluxion.Proofs.Definition.Soundness
import Fluxion.Proofs.Notation.Lexing
/- The leaves of parsed bodies. A source has no signs in its literals, since a sign is an operator
   there, and a name that is not called is an identifier and not the name of a function. Both are
   read off the derivation of a term (`Derives.isWritten`), given that tokens of names hold
   identifiers, as the tokens of any source do (`areNamed_tokenize`).

   The names of a header are identifiers too (`Header.isIdentifier`), but nothing keeps the variable
   or the definition itself from having the name of a function.

   What is so written can be written again as it stands; binding keeps it, and that is used where
   printed definitions are read again (`Fluxion.Proofs.Notation.Parsed`). What simplification makes
   is another matter: it does give rise to literals with a sign, which is where printing and reading
   begin to differ. -/
namespace Fluxion

open Token

namespace Grammar

/-- The literals of the term have no sign, and its names are no functions. -/
def IsWritten : Term → Prop
  | .integer n _ => 0 ≤ n
  | .fraction x _ => x.IsUnsigned
  | .name text _ => IsFreeName text
  | .negate operand _ => IsWritten operand
  | .call _ argument _ => IsWritten argument
  | .binary _ left right _ => IsWritten left ∧ IsWritten right

/-- What a part has read already is written. -/
def Part.IsWritten : Part → Prop
  | .rest _ left => Grammar.IsWritten left
  | _ => True

variable {a b : List Token} {p : Part} {t : Term}

theorem Terminal.suffix {kind : Token.Kind} {token : Token} (terminal : Terminal kind a token b) :
    token :: b <:+ a := by
  obtain ⟨-, blanks, -, rfl⟩ := terminal
  exact List.suffix_append blanks _

theorem Terminal.rest_suffix {kind : Token.Kind} {token : Token}
    (terminal : Terminal kind a token b) : b <:+ a :=
  (List.suffix_cons token b).trans terminal.suffix

theorem Derives.suffix (derives : Derives p a t b) : b <:+ a := by
  induction derives with
  | sum _ _ ihStart ihMore | product _ _ ihStart ihMore => exact ihMore.trans ihStart
  | unsigned _ ih | base _ ih => exact ih
  | plus mark _ ih | minus mark _ ih => exact ih.trans mark.rest_suffix
  | stop => exact List.suffix_rfl
  | more _ next _ _ ihOperand ihOthers => exact (ihOthers.trans ihOperand).trans next.rest_suffix
  | power _ caret _ ihBase ihExponent => exact (ihExponent.trans caret.rest_suffix).trans ihBase
  | enclosed opens _ closes ih => exact (closes.rest_suffix.trans ih).trans opens.rest_suffix
  | integer number => exact number.rest_suffix
  | fraction number =>
    exact ((List.suffix_cons _ _).trans (List.suffix_cons _ _)).trans number.rest_suffix
  | call name _ opens _ closes ih =>
    exact ((closes.rest_suffix.trans ih).trans opens.rest_suffix).trans name.rest_suffix
  | name name => exact name.rest_suffix

/-- Name tokens hold identifiers. -/
def AreNamed (tokens : List Token) : Prop :=
  ∀ token ∈ tokens, token.kind = .name → IsIdentifier token.text.toList

theorem areNamed_tokenize (source : String) : AreNamed (tokenize source) :=
  fun _ mem name => isIdentifier_of_mem mem name

theorem AreNamed.of_suffix (named : AreNamed a) (suffix : b <:+ a) : AreNamed b :=
  fun token mem => named token (suffix.subset mem)

theorem Derives.isWritten (derives : Derives p a t b) (named : AreNamed a) (before : p.IsWritten) :
    IsWritten t := by
  induction derives with
  | sum start _ ihStart ihMore | product start _ ihStart ihMore =>
    exact ihMore (named.of_suffix start.suffix) (ihStart named trivial)
  | unsigned _ ih | base _ ih => exact ih named trivial
  | plus mark _ ih | minus mark _ ih => exact ih (named.of_suffix mark.rest_suffix) trivial
  | stop => exact before
  | @more a b c d rank mark op left right t _ next operand _ ihOperand ihOthers =>
    have behind := named.of_suffix next.rest_suffix
    have onOperand : IsWritten right := ihOperand behind (by cases rank <;> trivial)
    exact ihOthers (behind.of_suffix operand.suffix) ⟨before, onOperand⟩
  | power base caret _ ihBase ihExponent =>
    exact ⟨ihBase named trivial,
      ihExponent (named.of_suffix (caret.rest_suffix.trans base.suffix)) trivial⟩
  | enclosed opens _ _ ih => exact ih (named.of_suffix opens.rest_suffix) trivial
  | @integer a b digits value number exact =>
    have nonneg : 0 ≤ value.toInt := by omega
    exact Int64.le_iff_toInt_le.mpr nonneg
  | fraction => exact Binary64.isUnsigned_ofPlaces _ _
  | call name _ opens _ _ ih =>
    exact ih (named.of_suffix (opens.rest_suffix.trans name.rest_suffix)) trivial
  | name name other =>
    exact ⟨named _ (name.suffix.subset List.mem_cons_self) name.1, other⟩

/-- The names of a header are identifiers, and the body comes behind it. -/
theorem Header.isIdentifier {name variableName : String} (header : Header a name variableName b)
    (named : AreNamed a) :
    IsIdentifier name.toList ∧ IsIdentifier variableName.toList ∧ b <:+ a := by
  obtain ⟨onName, opens, onBound, closes, defines⟩ := header
  have bound := opens.rest_suffix.trans onName.rest_suffix
  refine ⟨named _ (onName.suffix.subset List.mem_cons_self) onName.1,
    named _ ((onBound.suffix.trans bound).subset List.mem_cons_self) onBound.1, ?_⟩
  exact ((defines.rest_suffix.trans closes.rest_suffix).trans onBound.rest_suffix).trans bound

end Grammar
end Fluxion
