import Fluxion.Proofs.Definition.Extent
import Fluxion.Proofs.Notation.Parsed
import Fluxion.Proofs.Tree.Parts
/- The places of a parsed tree in its source. A node stands over a run of tokens (`IsOver`) that
   spells its leaf or its call (`Spells`), and its span encloses those of its operands, which follow
   each other (`Nests`). All of this is said of every node (`ArePlaced`), by induction on the term
   that was derived and the run that it covers (`Covers.arePlaced`).

   Spans that are nested like this are all different (`IsNested.nodup_spans`), so a node is known by
   its span; spans are not empty, and no part reaches beyond the whole. What a span cuts out of the
   source begins and ends between characters (`Span.CutsOut`). Parentheses around an operand are
   outside of its span, those of a call within. The result is `parse_arePlaced`; nothing is said of
   nodes that were built. -/
namespace Fluxion

open Token

/-! ## Nested spans -/

/-- The inner span is a part of the outer one, and not all of it. -/
def Span.Encloses (outer inner : Span) : Prop :=
  outer.start ≤ inner.start ∧ inner.stop ≤ outer.stop ∧ inner ≠ outer

theorem Span.eq_of_ends {s s' : Span} (start : s.start = s'.start) (stop : s.stop = s'.stop) :
    s = s' := by
  cases s
  cases s'
  exact congr (congrArg Span.mk start) stop

namespace Tree

/-- The span of a node is not empty and encloses those of its operands, the left one of which
    ends before the right one starts. -/
structure Nests (span : Span) (left right : Tree) : Prop where
  nonempty : span.start < span.stop
  operands : ∀ operand ∈ [left, right], operand ≠ .absent → span.Encloses operand.span
  order : left ≠ .absent → right ≠ .absent → left.span.stop < right.span.start

/-- All nodes of the tree nest their operands. -/
def IsNested (t : Tree) : Prop :=
  ∀ kind span left right, node kind span left right ∈ t.parts → Nests span left right

variable {kind : Kind} {place : Span} {left right t part : Tree}

theorem IsNested.operands (nested : (node kind place left right).IsNested) :
    Nests place left right ∧ left.IsNested ∧ right.IsNested := by
  refine ⟨nested _ _ _ _ (mem_parts_self nofun), fun k s l r mem => ?_, fun k s l r mem => ?_⟩
  · exact nested k s l r (mem_parts_node.mpr (.inl mem))
  · exact nested k s l r (mem_parts_node.mpr (.inr (.inl mem)))

/-- No part of a nested tree reaches beyond it, and none is empty. -/
theorem IsNested.within (nested : t.IsNested) (mem : part ∈ t.parts) :
    t.span.start ≤ part.span.start ∧ part.span.start < part.span.stop ∧
      part.span.stop ≤ t.span.stop := by
  induction t with
  | absent => cases mem
  | node kind place left right ihLeft ihRight =>
    obtain ⟨here, nestedLeft, nestedRight⟩ := nested.operands
    have nonempty : (node kind place left right).span.start < place.stop := here.nonempty
    obtain onLeft | onRight | rfl := mem_parts_node.mp mem
    · obtain ⟨lower, some, upper⟩ := ihLeft nestedLeft onLeft
      obtain ⟨first, last, -⟩ := here.operands left (by simp) (ne_absent_of_mem_parts onLeft)
      exact ⟨first.trans lower, some, upper.trans last⟩
    · obtain ⟨lower, some, upper⟩ := ihRight nestedRight onRight
      obtain ⟨first, last, -⟩ := here.operands right (by simp) (ne_absent_of_mem_parts onRight)
      exact ⟨first.trans lower, some, upper.trans last⟩
    · exact ⟨Nat.le_refl _, nonempty, Nat.le_refl _⟩

/-- A part of an operand does not fill the span that encloses the operand. -/
theorem IsNested.span_ne {outer : Span} (nested : t.IsNested) (mem : part ∈ t.parts)
    (encloses : outer.Encloses t.span) : part.span ≠ outer := by
  rintro rfl
  obtain ⟨lower, -, upper⟩ := nested.within mem
  obtain ⟨first, last, other⟩ := encloses
  exact other (Span.eq_of_ends (Nat.le_antisymm lower first) (Nat.le_antisymm last upper))

/-- No two nodes of a nested tree have the same span. -/
theorem IsNested.nodup_spans (nested : t.IsNested) : (t.parts.map span).Nodup := by
  induction t with
  | absent => exact List.nodup_nil
  | node kind place left right ihLeft ihRight =>
    obtain ⟨here, nestedLeft, nestedRight⟩ := nested.operands
    rw [parts, List.map_append, List.map_append, List.nodup_append, List.nodup_append]
    refine ⟨⟨ihLeft nestedLeft, ihRight nestedRight, ?_⟩, List.nodup_singleton _, ?_⟩
    · -- What is below the left operand ends before anything below the right one starts.
      intro s inLeft s' inRight same
      obtain ⟨first, memFirst, rfl⟩ := List.mem_map.mp inLeft
      obtain ⟨second, memSecond, rfl⟩ := List.mem_map.mp inRight
      obtain ⟨-, some, upper⟩ := nestedLeft.within memFirst
      obtain ⟨lower, -, -⟩ := nestedRight.within memSecond
      have order := here.order (ne_absent_of_mem_parts memFirst) (ne_absent_of_mem_parts memSecond)
      rw [← same] at lower
      omega
    · intro s inOperands s' inNode same
      obtain rfl := List.mem_singleton.mp inNode
      obtain inLeft | inRight := List.mem_append.mp inOperands
      · obtain ⟨part, mem, rfl⟩ := List.mem_map.mp inLeft
        exact nestedLeft.span_ne mem
          (here.operands left (by simp) (ne_absent_of_mem_parts mem)) same
      · obtain ⟨part, mem, rfl⟩ := List.mem_map.mp inRight
        exact nestedRight.span_ne mem
          (here.operands right (by simp) (ne_absent_of_mem_parts mem)) same

end Tree

/-! ## Runs of a source -/

/-- The run of tokens is a part of the source, and the span holds its text: in front of it and
    behind it stands other text, and the span begins and ends where that does. -/
def IsOver (source : String) (span : Span) (run : List Token) : Prop :=
  ∃ before behind, tokenize source = before ++ run ++ behind ∧
    source = joined before ++ joined run ++ joined behind ∧
    span.start = (joined before).utf8ByteSize ∧
    span.stop = (joined before ++ joined run).utf8ByteSize

/-- The span begins and ends between characters of the source, and the text is what lies
    between. -/
def Span.CutsOut (span : Span) (source text : String) : Prop :=
  ∃ before behind, source = before ++ text ++ behind ∧ span.start = before.utf8ByteSize ∧
    span.stop = (before ++ text).utf8ByteSize

theorem IsOver.cutsOut {source : String} {span : Span} {run : List Token}
    (stands : IsOver source span run) : span.CutsOut source (joined run) := by
  obtain ⟨before, behind, -, parts, start, stop⟩ := stands
  exact ⟨joined before, joined behind, parts, start, stop⟩

namespace Token

variable {source : String} {run : List Token}

/-- The text of a token of a source stands under its span. -/
theorem cutsOut_of_mem {t : Token} (mem : t ∈ tokenize source) : t.span.CutsOut source t.text := by
  obtain ⟨before, behind, tokens⟩ := List.append_of_mem mem
  have cut := isCut_of_tokenize tokens
  exact ⟨joined before, joined behind, cut.source, cut.start, cut.stop⟩

theorem joined_append (xs ys : List Token) : joined (xs ++ ys) = joined xs ++ joined ys := by
  rw [← String.toList_inj, String.toList_append, toList_joined, toList_joined, toList_joined,
    texts_append]

/-- A run of tokens of a source starts behind the tokens in front of it. -/
theorem areContiguous_of_tokenize {before behind : List Token}
    (tokens : before ++ run ++ behind = tokenize source) :
    AreContiguous (bytes (texts before)) run := by
  have contiguous := (isPartition_scan 0 source.toList).contiguous
  rw [← tokenize, ← tokens, List.append_assoc, areContiguous_append, areContiguous_append,
    Nat.zero_add] at contiguous
  exact contiguous.2.1

/-- Every token has a text. -/
theorem bytes_texts_pos (part : run <:+: tokenize source) (some : run ≠ []) :
    0 < bytes (texts run) := by
  obtain ⟨t, rest, rfl⟩ := List.exists_cons_of_ne_nil some
  obtain ⟨c, others, chars, -⟩ := exists_run_of_mem (part.subset List.mem_cons_self)
  rw [texts_cons, chars]
  exact bytes_pos c _

/-- A mark is spelled in one way. -/
theorem text_of_mark? {t : Token} {c : Char} {text : String} (mem : t ∈ tokenize source)
    (mark : t.kind.mark? = some c) (spelled : text.toList = [c]) : t.text = text := by
  have takes := ((isPartition_scan 0 source.toList).lexemes t mem).1
  have chars : t.text.toList = [c] := by
    cases kind : t.kind <;> rw [kind] at mark takes <;> cases mark <;>
      obtain ⟨c', same, chars⟩ := takes <;> cases same <;> exact chars
  rw [← String.toList_inj, chars, spelled]

end Token

/-! ## What stands under a span -/

open Grammar

/-- The run of tokens spells what the node stands for: the digits of an integer, those of a
    fraction on both sides of its separator, the name of the variable or of the parameter, and
    for a call the name of the function, an opening parenthesis with the argument behind it, and
    the parenthesis that closes it. -/
def Spells (f : Function) (argument : Tree) : Kind → List Token → Prop
  | .integer n, run => ∃ digits : Token, run = [digits] ∧ digits.kind = .digits ∧
      n.toInt = Binary64.ofDigits digits.text.toList
  | .fraction x, run => ∃ digits separator places : Token, run = [digits, separator, places] ∧
      digits.kind = .digits ∧ (separator.text = "." ∨ separator.text = ",") ∧
      places.kind = .digits ∧ x = .ofPlaces digits.text.toList places.text.toList
  | .var, run => joined run = f.variableName
  | .param index, run => f.params.get? index = some (joined run)
  | .operator (.apply g), run => ∃ (word opening closing : Token) (gap inner : List Token),
      run = word :: (gap ++ opening :: inner) ++ [closing] ∧
      Elementary.ofName? word.text = some g ∧ (∀ t ∈ gap, t.isBlank) ∧ opening.text = "(" ∧
      closing.text = ")" ∧ IsBalanced inner ∧
      opening.stop ≤ argument.span.start ∧ argument.span.stop ≤ closing.start
  | .operator (.binary _), _ => True

/-- A node of a tree stands where the source says what it says. -/
structure IsPlaced (source : String) (f : Function) (kind : Kind) (span : Span)
    (left right : Tree) : Prop where
  nests : Tree.Nests span left right
  spelled : ∃ run, IsOver source span run ∧ Spells f right kind run

/-- Every node of the tree stands where the source says what it says. -/
def ArePlaced (source : String) (f : Function) (t : Tree) : Prop :=
  ∀ kind span left right, .node kind span left right ∈ t.parts →
    IsPlaced source f kind span left right

theorem arePlaced_absent (source : String) (f : Function) : ArePlaced source f .absent :=
  fun _ _ _ _ mem => absurd rfl (Tree.ne_absent_of_mem_parts mem)

theorem ArePlaced.node {source : String} {f : Function} {kind : Kind} {span : Span}
    {left right : Tree} (here : IsPlaced source f kind span left right)
    (onLeft : ArePlaced source f left) (onRight : ArePlaced source f right) :
    ArePlaced source f (.node kind span left right) := by
  intro k s l r mem
  obtain inLeft | inRight | same := Tree.mem_parts_node.mp mem
  · exact onLeft k s l r inLeft
  · exact onRight k s l r inRight
  · cases same
    exact here

theorem ArePlaced.leaf {source : String} {f : Function} {kind : Kind} {span : Span}
    {run : List Token} (nonempty : span.start < span.stop) (stands : IsOver source span run)
    (spells : Spells f .absent kind run) : ArePlaced source f (.leaf kind span) :=
  .node ⟨⟨nonempty, by simp, fun there => absurd rfl there⟩, run, stands, spells⟩
    (arePlaced_absent source f) (arePlaced_absent source f)

theorem ArePlaced.isNested {source : String} {f : Function} {t : Tree}
    (placed : ArePlaced source f t) : t.IsNested :=
  fun kind span left right mem => (placed kind span left right mem).nests

namespace Grammar

variable {source variableName : String} {names : List String} {t s : Term}
  {whole run xs ys : List Token} {f : Function}

theorem span_tree (t : Term) : (tree variableName names t).span = t.span := by
  cases t with
  | name text span =>
    rw [tree]
    split <;> rfl
  | integer | fraction | negate | call | binary => rfl

/-- A term stands over the run that it covers. -/
theorem Covers.isOver (covers : Covers t run) (part : run <:+: tokenize source) :
    IsOver source t.span run := by
  obtain ⟨before, behind, tokens⟩ := part
  have span := covers.span_eq (areContiguous_of_tokenize tokens)
  refine ⟨before, behind, tokens.symm, ?_, ?_, ?_⟩
  · rw [← joined_append, ← joined_append, tokens]
    exact (joined_tokenize source).symm
  · rw [span, utf8ByteSize_joined]
  · rw [span, String.utf8ByteSize_append, utf8ByteSize_joined, utf8ByteSize_joined]

theorem Covers.nonempty (covers : Covers t run) (part : run <:+: tokenize source) :
    t.span.start < t.span.stop := by
  have positive := bytes_texts_pos part covers.ne_nil
  obtain ⟨before, behind, tokens⟩ := part
  rw [covers.span_eq (areContiguous_of_tokenize tokens)]
  exact Nat.lt_add_of_pos_right positive

/-- A term that covers more than another, and all that the other does, encloses it. -/
theorem Covers.encloses (covers : Covers t whole) (inner : Covers s run)
    (split : whole = xs ++ run ++ ys) (more : xs ≠ [] ∨ ys ≠ []) (part : whole <:+: tokenize source) :
    t.span.Encloses s.span := by
  subst split
  have positive : 0 < bytes (texts xs) + bytes (texts ys) := by
    obtain some | some := more
    · have front : xs <:+: xs ++ run ++ ys := ⟨[], run ++ ys, by simp⟩
      exact Nat.add_pos_left (bytes_texts_pos (front.trans part) some) _
    · have back : ys <:+: xs ++ run ++ ys := ⟨xs ++ run, [], by simp⟩
      exact Nat.add_pos_right _ (bytes_texts_pos (back.trans part) some)
  obtain ⟨before, behind, tokens⟩ := part
  have contiguous := areContiguous_of_tokenize tokens
  have upToRun := (areContiguous_append.mp contiguous).1
  rw [covers.span_eq contiguous, inner.span_eq (areContiguous_append.mp upToRun).2, texts_append,
    texts_append, bytes_append, bytes_append]
  generalize bytes (texts before) = start
  refine ⟨Nat.le_add_right _ _, ?_, ?_⟩
  · show start + bytes (texts xs) + bytes (texts run) ≤
      start + (bytes (texts xs) + bytes (texts run) + bytes (texts ys))
    omega
  · rw [Ne, Span.mk.injEq]
    omega

/-- The argument of a call stands between its parentheses. -/
theorem Covers.between_parentheses {word opening closing : Token} {gap front back : List Token}
    (inner : Covers s run)
    (part : word :: (gap ++ opening :: (front ++ run ++ back)) ++ [closing] <:+: tokenize source) :
    opening.stop ≤ s.span.start ∧ s.span.stop ≤ closing.start := by
  have shape : word :: (gap ++ opening :: (front ++ run ++ back)) ++ [closing] =
      word :: gap ++ [opening] ++ front ++ run ++ back ++ [closing] := by simp
  rw [shape] at part
  obtain ⟨before, behind, tokens⟩ := part
  obtain ⟨upToBack, closes, -⟩ := areContiguous_append.mp (areContiguous_of_tokenize tokens)
  obtain ⟨upToRun, -⟩ := areContiguous_append.mp upToBack
  obtain ⟨upToFront, here⟩ := areContiguous_append.mp upToRun
  obtain ⟨upToOpening, -⟩ := areContiguous_append.mp upToFront
  rw [stop_eq_of_areContiguous upToOpening, closes, inner.span_eq here]
  constructor
  · rw [texts_append _ front, bytes_append]
    exact Nat.add_le_add_left (Nat.le_add_right _ _) _
  · rw [texts_append _ back, texts_append _ run, bytes_append, bytes_append, ← Nat.add_assoc,
      ← Nat.add_assoc]
    exact Nat.le_add_right _ _

/-! ## Nodes over their runs -/

/-- A node with a right operand only encloses it. -/
theorem Covers.nests_right (covers : Covers t whole) (inner : Covers s run)
    (split : whole = xs ++ run ++ ys) (more : xs ≠ [] ∨ ys ≠ []) (part : whole <:+: tokenize source) :
    Tree.Nests t.span .absent (tree variableName names s) := by
  refine ⟨covers.nonempty part, ?_, fun there => absurd rfl there⟩
  intro operand mem there
  obtain rfl | rfl : operand = .absent ∨ operand = tree variableName names s := by simpa using mem
  · exact absurd rfl there
  · rw [span_tree]
    exact covers.encloses inner split more part

/-- An operator encloses its operands, and stands between them. -/
theorem Covers.nests_join {op : BinaryOp} {left right : Term} {between rest : List Token}
    (apart : between ≠ []) (onLeft : Covers left run) (onRight : Covers right rest)
    (part : run ++ between ++ rest <:+: tokenize source) :
    Tree.Nests (join op left right).span (tree variableName names left)
      (tree variableName names right) := by
  have covers : Covers (join op left right) (run ++ between ++ rest) := .binary apart onLeft onRight
  refine ⟨covers.nonempty part, ?_, fun _ _ => ?_⟩
  · intro operand mem _
    obtain rfl | rfl : operand = tree variableName names left ∨
        operand = tree variableName names right := by simpa using mem
    · have split : run ++ between ++ rest = [] ++ run ++ (between ++ rest) := by simp
      rw [span_tree]
      exact covers.encloses onLeft split (.inr (by simp [apart])) part
    · have split : run ++ between ++ rest = run ++ between ++ rest ++ [] := by simp
      rw [span_tree]
      exact covers.encloses onRight split (.inl (by simp [apart])) part
  · have middle : between <:+: run ++ between ++ rest := ⟨run, rest, rfl⟩
    have positive := bytes_texts_pos (middle.trans part) apart
    obtain ⟨before, behind, tokens⟩ := part
    obtain ⟨upToRest, there⟩ := areContiguous_append.mp (areContiguous_of_tokenize tokens)
    rw [span_tree, span_tree, onRight.span_eq there,
      onLeft.span_eq (areContiguous_append.mp upToRest).1, texts_append, bytes_append]
    exact Nat.add_lt_add_left (Nat.lt_add_of_pos_right positive) _

/-- All nodes of a bound term stand where the source says what they say. -/
theorem Covers.arePlaced (covers : Covers t run)
    (known : ∀ name ∈ parameterNames f.variableName t, name ∈ f.params.names)
    (part : run <:+: tokenize source) :
    ArePlaced source f (tree f.variableName f.params.names t) := by
  induction covers with
  | integer isDigits exact =>
    have covers := Covers.integer isDigits exact
    exact .leaf (covers.nonempty part) (covers.isOver part) ⟨_, rfl, isDigits, exact⟩
  | @fraction digits separator places isDigits separates fractional =>
    have covers := Covers.fraction isDigits separates fractional
    have inSource : separator ∈ tokenize source := part.subset (by simp)
    have mark : separator.text = "." ∨ separator.text = "," := by
      obtain dot | comma := separates
      · exact .inl (text_of_mark? inSource (by rw [dot]; rfl) (by decide))
      · exact .inr (text_of_mark? inSource (by rw [comma]; rfl) (by decide))
    exact .leaf (covers.nonempty part) (covers.isOver part)
      ⟨_, _, _, rfl, isDigits, mark, fractional, rfl⟩
  | @name word isName =>
    have covers := Covers.name isName
    have nonempty := covers.nonempty part
    have stands := covers.isOver part
    have text : joined [word] = word.text := by simp [joined]
    rw [tree]
    by_cases bound : word.text = f.variableName
    · rw [if_pos bound]
      exact .leaf nonempty stands (text.trans bound)
    · rw [parameterNames, if_neg bound] at known
      rw [if_neg bound]
      have entry := Function.get?_idxOf (known word.text (List.mem_singleton_self _))
      exact .leaf nonempty stands (entry.trans (congrArg some text.symm))
  | @negate sign operand front run inner ih =>
    have covers : Covers _ (sign :: (front ++ run)) := .negate inner
    have split : sign :: (front ++ run) = sign :: front ++ run ++ [] := by simp
    have within : run <:+: sign :: (front ++ run) := ⟨_, _, split.symm⟩
    have nests : Tree.Nests _ .absent (tree f.variableName f.params.names operand) :=
      covers.nests_right inner split (.inl (List.cons_ne_nil sign front)) part
    exact .node ⟨nests, _, covers.isOver part, trivial⟩ (arePlaced_absent source f)
      (ih known (within.trans part))
  | @call word opening closing g argument gap front run back function blank opens closes balanced
      inner ih =>
    have covers := Covers.call function blank opens closes balanced inner
    have split : word :: (gap ++ opening :: (front ++ run ++ back)) ++ [closing] =
        word :: gap ++ opening :: front ++ run ++ (back ++ [closing]) := by simp
    have within : run <:+: word :: (gap ++ opening :: (front ++ run ++ back)) ++ [closing] :=
      ⟨_, _, split.symm⟩
    have isOpening : opening.text = "(" :=
      text_of_mark? (part.subset (by simp)) (by rw [opens]; rfl) (by decide)
    have isClosing : closing.text = ")" :=
      text_of_mark? (part.subset (by simp)) (by rw [closes]; rfl) (by decide)
    have nests : Tree.Nests _ .absent (tree f.variableName f.params.names argument) :=
      covers.nests_right inner split (.inl (List.cons_ne_nil word _)) part
    have between : opening.stop ≤ (tree f.variableName f.params.names argument).span.start ∧
        (tree f.variableName f.params.names argument).span.stop ≤ closing.start := by
      rw [span_tree]
      exact inner.between_parentheses part
    exact .node ⟨nests, _, covers.isOver part, word, opening, closing, gap, _, rfl, function, blank,
      isOpening, isClosing, balanced, between⟩ (arePlaced_absent source f)
      (ih known (within.trans part))
  | @binary op left right runLeft between runRight apart onLeft onRight ihLeft ihRight =>
    have covers : Covers (join op left right) _ := .binary apart onLeft onRight
    have first : runLeft <:+: runLeft ++ between ++ runRight :=
      ⟨[], between ++ runRight, by simp⟩
    have second : runRight <:+: runLeft ++ between ++ runRight :=
      ⟨runLeft ++ between, [], by simp⟩
    have nests : Tree.Nests (join op left right).span (tree f.variableName f.params.names left)
        (tree f.variableName f.params.names right) := Covers.nests_join apart onLeft onRight part
    exact .node ⟨nests, _, covers.isOver part, trivial⟩
      (ihLeft (fun name mem => known name (List.mem_append_left _ mem)) (first.trans part))
      (ihRight (fun name mem => known name (List.mem_append_right _ mem)) (second.trans part))

end Grammar

namespace Function

/-- Every node of a parsed tree stands where the source says what it says. -/
theorem arePlaced_of_parse {source : String} {f : Function} (parsed : parse source = .ok f) :
    ArePlaced source f f.body.tree := by
  obtain ⟨d, read, rfl⟩ := parse_eq_ok_iff.mp parsed
  obtain ⟨body, trailing, header, derives, -⟩ := sound_read read
  obtain ⟨front, run, behind, covers, tokens⟩ := derives.exists_covers rfl
  have known : ∀ name ∈ Grammar.parameterNames d.variableName d.body,
      name ∈ (ofDefinition d).params.names := by
    intro name mem
    rw [names_params_ofDefinition]
    exact mem_foldl_enter mem []
  have inBody : run <:+: body := ⟨front, behind ++ trailing, by simpa using tokens.symm⟩
  have suffix : body <:+ tokenize source := (header.isIdentifier (areNamed_tokenize source)).2.2
  rw [tree_body_ofDefinition_eq]
  exact covers.arePlaced known (inBody.trans suffix.isInfix)

/-- Every node of a parsed tree has a span of the source that is not empty, holds what the node
    says and encloses the spans of the operands, of which the left one ends before the right one
    starts; and no two nodes have the same span. -/
theorem parse_arePlaced (source : String) (f : Function) (parsed : parse source = .ok f) :
    ArePlaced source f f.body.tree ∧ (f.body.tree.parts.map Tree.span).Nodup := by
  have placed := arePlaced_of_parse parsed
  exact ⟨placed, placed.isNested.nodup_spans⟩

/-- Parentheses around an operand are outside its span, those of a call within. -/
theorem parse_arePlaced_nested : ∃ f, parse "f(x)=-(2,50+a)*ln( x )" = .ok f ∧
    f.body.tree.parts.map Tree.span =
      [⟨7, 11⟩, ⟨12, 13⟩, ⟨7, 13⟩, ⟨19, 20⟩, ⟨15, 22⟩, ⟨7, 22⟩, ⟨5, 22⟩] ∧
    ArePlaced "f(x)=-(2,50+a)*ln( x )" f f.body.tree ∧
    (f.body.tree.parts.map Tree.span).Nodup := by
  have spans : (parse "f(x)=-(2,50+a)*ln( x )").toOption.map
      (fun f => f.body.tree.parts.map Tree.span) =
        some [⟨7, 11⟩, ⟨12, 13⟩, ⟨7, 13⟩, ⟨19, 20⟩, ⟨15, 22⟩, ⟨7, 22⟩, ⟨5, 22⟩] := by
    decide +kernel
  cases parsed : parse "f(x)=-(2,50+a)*ln( x )" with
  | error e =>
    rw [parsed] at spans
    cases spans
  | ok f =>
    rw [parsed] at spans
    exact ⟨f, rfl, Option.some.inj spans, parse_arePlaced _ f parsed⟩

end Function
end Fluxion
