import Fluxion.Term
import Fluxion.Token
import Fluxion.Binary64.Reading
/- The grammar of definitions, as relations between places in a list of tokens: a part of a
   definition reaches from the tokens `a` to the tokens `b` that are left behind it, and stands for
   a term (`Derives`). Blanks may stand in front of every token but those inside a number. No part
   looks ahead, and there are no bounds and no cursors, so what the relations derive does not depend
   on how anything is read.

   The rest of a chain is a part that goes on behind a term, which makes chains join to the left.
   Names are bound apart from it: the parameters of a body are the names that are neither functions
   nor the variable, in order of first use (`parameters`), and the tree of a term looks them up
   there (`tree`). A definition is a header, a sum, and nothing but blanks behind it
   (`IsDefinition`). -/
namespace Fluxion
namespace Grammar

/-- Nothing but blanks stands between two places. -/
def Blanks (a b : List Token) : Prop := ∃ blanks, (∀ t ∈ blanks, t.isBlank) ∧ a = blanks ++ b

/-- One token of a kind, with blanks in front of it. -/
def Terminal (kind : Token.Kind) (a : List Token) (token : Token) (b : List Token) : Prop :=
  token.kind = kind ∧ Blanks a (token :: b)

/-- Chains of operands: sums have terms, products have factors. -/
inductive Rank where
  | terms
  | factors

/-- The operators between the operands of a chain. -/
def Rank.operator? : Rank → Token.Kind → Option BinaryOp
  | terms, .plus => some .add
  | terms, .minus => some .sub
  | factors, .star => some .mul
  | factors, .slash => some .div
  | _, _ => none

/-- The parts of a body. The rest of a chain comes after what stands on its left. -/
inductive Part where
  | sum
  | signed
  | product
  | power
  | primary
  | rest (rank : Rank) (left : Term)

/-- What an operator of a chain stands in front of. -/
def Rank.operand : Rank → Part
  | terms => .product
  | factors => .power

/-- Two operands with an operator between them. -/
def join (op : BinaryOp) (left right : Term) : Term :=
  .binary op left right ⟨left.span.start, right.span.stop⟩

/-- The part reaches from `a` to `b` and stands for the term. -/
inductive Derives : Part → List Token → Term → List Token → Prop where
  /-- `sum := ['+' | '-'] product (('+' | '-') product)*` -/
  | sum {a b c : List Token} {first t : Term} (start : Derives .signed a first b)
      (more : Derives (.rest .terms first) b t c) : Derives .sum a t c
  | unsigned {a b : List Token} {t : Term} (product : Derives .product a t b) :
      Derives .signed a t b
  | plus {a b c : List Token} {sign : Token} {t : Term} (mark : Terminal .plus a sign b)
      (product : Derives .product b t c) : Derives .signed a t c
  | minus {a b c : List Token} {sign : Token} {t : Term} (mark : Terminal .minus a sign b)
      (product : Derives .product b t c) :
      Derives .signed a (.negate t ⟨sign.span.start, t.span.stop⟩) c
  /-- `product := power (('*' | '/') power)*` -/
  | product {a b c : List Token} {first t : Term} (start : Derives .power a first b)
      (more : Derives (.rest .factors first) b t c) : Derives .product a t c
  | stop {a : List Token} {rank : Rank} {left : Term} : Derives (.rest rank left) a left a
  | more {a b c d : List Token} {rank : Rank} {mark : Token} {op : BinaryOp} {left right t : Term}
      (operator : rank.operator? mark.kind = some op) (next : Terminal mark.kind a mark b)
      (operand : Derives rank.operand b right c)
      (others : Derives (.rest rank (join op left right)) c t d) :
      Derives (.rest rank left) a t d
  /-- `power := primary ['^' primary]` -/
  | base {a b : List Token} {t : Term} (primary : Derives .primary a t b) : Derives .power a t b
  | power {a b c d : List Token} {mark : Token} {base exponent : Term}
      (onBase : Derives .primary a base b) (caret : Terminal .caret b mark c)
      (onExponent : Derives .primary c exponent d) : Derives .power a (join .pow base exponent) d
  /-- `primary := '(' sum ')' | number | function '(' sum ')' | name` -/
  | enclosed {a b c d : List Token} {opening closing : Token} {t : Term}
      (opens : Terminal .openParen a opening b) (inner : Derives .sum b t c)
      (closes : Terminal .closeParen c closing d) : Derives .primary a t d
  | integer {a b : List Token} {digits : Token} {value : Int64}
      (number : Terminal .digits a digits b)
      (exact : value.toInt = Binary64.ofDigits digits.text.toList) :
      Derives .primary a (.integer value digits.span) b
  | fraction {a b : List Token} {digits separator places : Token}
      (number : Terminal .digits a digits (separator :: places :: b))
      (bounded : (Binary64.ofDigits digits.text.toList : Int) ≤ Int64.maxValue.toInt)
      (separates : separator.kind = .dot ∨ separator.kind = .comma)
      (fractional : places.kind = .digits) :
      Derives .primary a (.fraction (.ofPlaces digits.text.toList places.text.toList)
        ⟨digits.span.start, places.span.stop⟩) b
  | call {a b c d e : List Token} {word opening closing : Token} {f : Elementary} {t : Term}
      (name : Terminal .name a word b) (function : Elementary.ofName? word.text = some f)
      (opens : Terminal .openParen b opening c) (argument : Derives .sum c t d)
      (closes : Terminal .closeParen d closing e) :
      Derives .primary a (.call f t ⟨word.span.start, closing.span.stop⟩) e
  | name {a b : List Token} {word : Token} (name : Terminal .name a word b)
      (other : Elementary.ofName? word.text = none) :
      Derives .primary a (.name word.text word.span) b

/-! ## Names -/

/-- The names that are neither functions nor the variable. -/
def isParameter (variableName : String) (token : Token) : Bool :=
  token.kind == .name && (Elementary.ofName? token.text).isNone && token.text != variableName

/-- Enters a name behind others, unless it is among them. -/
def enter (used : List String) (name : String) : List String :=
  if name ∈ used then used else used ++ [name]

/-- The parameters that tokens name, as often as they do. -/
def named (variableName : String) (tokens : List Token) : List String :=
  (tokens.filter (isParameter variableName)).map (·.text)

/-- The parameters of a body in order of first use. -/
def parameters (variableName : String) (body : List Token) : List String :=
  (named variableName body).foldl enter []

/-- The tree of a term: the variable and the parameters are told apart by their names, a
    change of sign is a difference without its left operand. -/
def tree (variableName : String) (parameters : List String) : Term → Tree
  | .integer n span => .leaf (.integer n) span
  | .fraction x span => .leaf (.fraction x) span
  | .name text span =>
    if text = variableName then .leaf .var span else .leaf (.param (parameters.idxOf text)) span
  | .negate operand span =>
    .node (.operator (.binary .sub)) span .absent (tree variableName parameters operand)
  | .call f argument span =>
    .node (.operator (.apply f)) span .absent (tree variableName parameters argument)
  | .binary op left right span =>
    .node (.operator (.binary op)) span (tree variableName parameters left)
      (tree variableName parameters right)

/-! ## Definitions -/

/-- `name '(' name ')' '='` -/
inductive Header : List Token → String → String → List Token → Prop where
  | mk {a b c d e f : List Token} {name opening bound closing equals : Token}
      (named : Terminal .name a name b) (opens : Terminal .openParen b opening c)
      (binds : Terminal .name c bound d) (closes : Terminal .closeParen d closing e)
      (defines : Terminal .equals e equals f) : Header a name.text bound.text f

/-- The tokens are a definition with the given name, variable, parameters and tree. -/
inductive IsDefinition :
    List Token → String → String → List String → Tree → Prop where
  | mk {tokens body trailing : List Token} {name variableName : String} {t : Term}
      (header : Header tokens name variableName body) (sum : Derives .sum body t trailing)
      (ends : Blanks trailing []) :
      IsDefinition tokens name variableName (parameters variableName body)
        (tree variableName (parameters variableName body) t)

end Grammar
end Fluxion
