import Fluxion.Proofs.Notation.Partition
/- Scanning by longest match. A lexer that is given the patterns of all kinds takes the longest
   beginning of the text that any pattern takes, the one of highest priority where several take it,
   then goes on behind it, and stops where no pattern takes anything (`Lexes`). Since every
   character begins some token, it never stops before the end, and what it finds is what scanning
   finds (`lexes_iff`).

   For sources this adds up to `tokenize_partition`: the tokens make up the source in their order,
   their spans lie end to end over all its bytes (`Tiles`), each is cut out between characters
   (`IsCut`), and none can be extended nor absorbs the next one (`IsMaximal`). Conversely, lexemes
   that do not absorb each other are the tokens of what they make up. Patterns and lexemes are those
   of `Fluxion.Proofs.Notation.Partition`, which does not mention scanning. -/
namespace Fluxion
namespace Token

/-- The first token of a text: no pattern takes a longer beginning, and none of higher priority
    takes this one. -/
structure IsLongest (kind : Kind) (run rest : List Char) : Prop where
  lexeme : kind.IsLexeme run
  longest : ∀ (other : Kind) (more less : List Char), run ++ rest = more ++ less →
    other.Takes more → more.length ≤ run.length

/-- Longest match, one token after the other, up to where every pattern refuses. -/
inductive Lexes : Nat → List Char → List Token → Prop where
  | stop {start : Nat} {text : List Char}
      (refused : ∀ (kind : Kind) (run rest : List Char), text = run ++ rest → ¬kind.Takes run) :
      Lexes start text []
  | token {start : Nat} {kind : Kind} {run rest : List Char} {tokens : List Token}
      (longest : IsLongest kind run rest) (others : Lexes (start + bytes run) rest tokens) :
      Lexes start (run ++ rest) (⟨kind, String.ofList run, start⟩ :: tokens)

variable {start : Nat} {text run rest : List Char} {kind : Kind} {tokens : List Token}

/-- The longest match is a run up to a character that the kind does not go on with. -/
theorem isLongest_iff :
    IsLongest kind run rest ↔ kind.IsRun run ∧ ∀ c ∈ rest.head?, kind.goesOn c = false := by
  constructor
  · rintro ⟨lexeme, longest⟩
    have isRun := Kind.isLexeme_iff_isRun.mp lexeme
    refine ⟨isRun, ?_⟩
    intro c here
    obtain ⟨less, rfl⟩ := List.head?_eq_some_iff.mp here
    obtain ⟨first, others, rfl, begins, goesOn⟩ := isRun
    by_contra more
    rw [Bool.not_eq_false] at more
    -- One character more would be taken as well.
    have longer : kind.IsRun (first :: others ++ [c]) := by
      refine ⟨first, others ++ [c], rfl, begins, ?_⟩
      intro d mem
      rcases List.mem_append.mp mem with mem | mem
      · exact goesOn d mem
      · rw [List.mem_singleton.mp mem]
        exact more
    have bound := longest kind (first :: others ++ [c]) less (by simp) longer.takes
    rw [List.length_append, List.length_singleton] at bound
    omega
  · rintro ⟨isRun, stops⟩
    refine ⟨Kind.isLexeme_iff_isRun.mpr isRun, ?_⟩
    intro other more less split takes
    obtain ⟨first, others, rfl, begins, -⟩ := isRun
    rcases List.append_eq_append_iff.mp split with ⟨extra, rfl, rfl⟩ | ⟨extra, longer, -⟩
    · cases extra with
      | nil => simp
      | cons c extra =>
        -- A longer match would go on with the character that has stopped the run.
        have goesOn := takes.goesOn c (by simp)
        rw [begins, stops c rfl] at goesOn
        cases goesOn
    · rw [longer, List.length_append]
      exact Nat.le_add_right _ _

theorem isLongest_scan (c : Char) (rest : List Char) :
    let kind := Kind.ofFirst c
    IsLongest kind (c :: rest.takeWhile kind.goesOn) (rest.dropWhile kind.goesOn) := by
  intro kind
  refine isLongest_iff.mpr ⟨⟨c, _, rfl, rfl, List.all_eq_true.mp List.all_takeWhile⟩, ?_⟩
  intro d here
  have stops := List.head?_dropWhile_not kind.goesOn rest
  rw [Option.mem_def.mp here] at stops
  exact stops

theorem lexes_scan (start : Nat) (text : List Char) : Lexes start text (scan start text) := by
  fun_induction scan start text with
  | case1 =>
    refine .stop ?_
    intro kind run rest split takes
    obtain ⟨rfl, -⟩ := List.append_eq_nil_iff.mp split.symm
    have lexeme : ∀ kind : Kind, ¬kind.Takes [] := by
      intro kind
      cases kind <;> simp [Kind.Takes, IsIdentifier]
    exact lexeme kind takes
  | case2 start c rest kind token ih =>
    have split : c :: rest = c :: rest.takeWhile kind.goesOn ++ rest.dropWhile kind.goesOn := by
      rw [List.cons_append, List.takeWhile_append_dropWhile]
    rw [split]
    exact .token (isLongest_scan c rest) ih

/-- Longest match finds the tokens of the text and nothing else. -/
theorem lexes_iff : Lexes start text tokens ↔ tokens = scan start text := by
  constructor
  · intro lexes
    induction lexes with
    | @stop start text refused =>
      cases text with
      | nil => rw [scan]
      | cons c rest =>
        -- The first character is taken, whatever it is.
        have takes : (Kind.ofFirst c).Takes [c] := Kind.IsRun.takes ⟨c, [], rfl, rfl, List.forall_mem_nil _⟩
        exact absurd takes (refused _ [c] rest rfl)
    | @token start kind run rest tokens longest _ ih =>
      obtain ⟨⟨first, others, rfl, rfl, goesOn⟩, stops⟩ := isLongest_iff.mp longest
      rw [ih, scan_run_eq start first others rest goesOn stops]
      rfl
  · rintro rfl
    exact lexes_scan start text

/-! ## Sources -/

/-- The text that tokens make up. -/
def joined (tokens : List Token) : String := String.join (tokens.map (·.text))

theorem toList_joined (tokens : List Token) : (joined tokens).toList = texts tokens := by
  rw [joined, String.toList_join, List.flatMap_map, texts]

theorem utf8ByteSize_joined (tokens : List Token) :
    (joined tokens).utf8ByteSize = bytes (texts tokens) := by
  rw [← toList_joined, bytes, String.ofList_toList]

/-- Lexemes that stay apart are the tokens of the source that they make up. -/
theorem tokenize_joined (lexemes : ∀ t ∈ tokens, t.kind.IsLexeme t.text.toList)
    (apart : AreApart tokens) : tokenize (joined tokens) = place 0 tokens := by
  rw [tokenize, toList_joined]
  exact scan_texts_eq 0 lexemes apart

/-- The spans lie end to end between two offsets, and none is empty. -/
def Tiles : Nat → List Span → Nat → Prop
  | start, [], stop => start = stop
  | start, s :: rest, stop => s.start = start ∧ s.start < s.stop ∧ Tiles s.stop rest stop

/-- The span of the token begins and ends between characters of the source, behind the tokens before
    it and in front of those behind it, and its text is what lies between. -/
structure IsCut (source : String) (before : List Token) (t : Token) (behind : List Token) : Prop where
  source : source = joined before ++ t.text ++ joined behind
  start : t.span.start = (joined before).utf8ByteSize
  stop : t.span.stop = (joined before ++ t.text).utf8ByteSize

/-- The token is a lexeme that cannot be extended: blanks to neither side, digits and names not to
    what comes behind them. -/
structure IsMaximal (front : List Char) (t : Token) (behind : List Char) : Prop where
  lexeme : t.kind.IsLexeme t.text.toList
  blank : t.kind = .blank → (∀ c ∈ front.getLast?, c ∉ [' ', '\t', '\n', '\r']) ∧
    ∀ c ∈ behind.head?, c ∉ [' ', '\t', '\n', '\r']
  digits : t.kind = .digits → ∀ c ∈ behind.head?, c.isDigit = false
  name : t.kind = .name → ∀ c ∈ behind.head?, c.isAlphanum = false

theorem tiles_scan (start : Nat) (text : List Char) :
    Tiles start ((scan start text).map (·.span)) (start + bytes text) := by
  fun_induction scan start text with
  | case1 => rfl
  | case2 start c rest kind token ih =>
    have some := bytes_pos c (rest.takeWhile kind.goesOn)
    have stop : token.stop = start + bytes (c :: rest.takeWhile kind.goesOn) := rfl
    have whole : bytes (c :: rest) = bytes (c :: rest.takeWhile kind.goesOn) +
        bytes (rest.dropWhile kind.goesOn) := by
      rw [← bytes_append, List.cons_append, List.takeWhile_append_dropWhile]
    rw [List.map_cons]
    refine ⟨rfl, ?_, ?_⟩
    · show start < token.stop
      omega
    · rw [whole, ← Nat.add_assoc, ← stop]
      exact ih

/-- Only blanks hold blanks. -/
theorem Kind.IsRun.isBlankChar_eq_false {c : Char} (isRun : kind.IsRun text) (other : kind ≠ .blank)
    (mem : c ∈ text) : isBlankChar c = false := by
  obtain ⟨first, run, rfl, begins, goesOn⟩ := isRun
  rw [← Bool.not_eq_true, ← Kind.ofFirst_eq_blank_iff]
  intro isBlank
  rcases List.mem_cons.mp mem with rfl | mem
  · exact other (begins.symm.trans isBlank)
  · have absorbed := goesOn c mem
    rw [Kind.goesOn_eq_absorbs, isBlank] at absorbed
    cases kind <;> first | exact other rfl | cases absorbed

theorem isCut_of_tokenize {source : String} {before behind : List Token} {t : Token}
    (tokens : tokenize source = before ++ t :: behind) : IsCut source before t behind := by
  obtain ⟨place, tail, scanned, text, offset, -⟩ := scan_split tokens
  rw [Nat.zero_add, ← utf8ByteSize_joined] at offset
  have first : t.start = place := by
    obtain ⟨c, run, rest, -, token, -⟩ := scan_eq_cons scanned.symm
    rw [token]
  have tail_eq : texts (t :: behind) = tail := by
    rw [scanned]
    exact scan_texts place tail
  refine ⟨?_, first.trans offset, ?_⟩
  · rw [← String.toList_inj, String.toList_append, String.toList_append, toList_joined,
      toList_joined, text, ← tail_eq, List.append_assoc]
    exact congrArg _ List.flatMap_cons
  · rw [String.utf8ByteSize_append, ← offset, ← first]
    rfl

theorem isMaximal_of_tokenize {source : String} {before behind : List Token} {t : Token}
    (tokens : tokenize source = before ++ t :: behind) :
    IsMaximal (texts before) t (texts behind) := by
  obtain ⟨-, -, lexemes, apart⟩ := isPartition_scan 0 source.toList
  change tokenize source = _ at tokens
  rw [← tokenize, tokens] at lexemes
  rw [← tokenize, tokens, AreApart, List.map_append, List.map_cons, List.isChain_append] at apart
  obtain ⟨-, onward, back⟩ := apart
  have stops : ∀ c ∈ (texts behind).head?, t.kind.goesOn c = false :=
    AreApart.goesOn_eq_false (fun u mem => lexemes u (by simp [mem])) onward
  refine ⟨lexemes t (by simp), ?_, ?_, ?_⟩
  · intro isBlank
    rw [isBlank] at stops back
    constructor
    · intro c last
      rw [← Kind.isBlankChar_iff, Bool.not_eq_true]
      rcases List.eq_nil_or_concat before with rfl | ⟨others, u, rfl⟩
      · cases last
      · -- The token in front is no blank, so it ends in none.
        have lexeme := Kind.isLexeme_iff_isRun.mp (lexemes u (by simp))
        have other : u.kind ≠ .blank := by
          intro same
          have absorbed := back u.kind (by simp) .blank rfl
          rw [same] at absorbed
          cases absorbed
        refine lexeme.isBlankChar_eq_false other ?_
        obtain ⟨first, run, chars, -⟩ := lexeme
        rw [texts, List.concat_eq_append, List.flatMap_append, List.flatMap_singleton, chars,
          List.getLast?_append] at last
        rw [chars]
        exact List.mem_of_getLast? (by simpa using last)
    · intro c here
      rw [← Kind.isBlankChar_iff, Bool.not_eq_true]
      exact stops c here
  · intro isDigits
    rw [isDigits] at stops
    exact stops
  · intro isName
    rw [isName] at stops
    exact stops

theorem joined_tokenize (source : String) : joined (tokenize source) = source := by
  rw [← String.toList_inj, toList_joined]
  exact scan_texts 0 source.toList

/-- Longest match finds the tokens of a source, and they part all of it: they make up the source
    in their order, their spans lie end to end over all its bytes, each is cut out between
    characters, and none can be extended nor absorbs the next one. Conversely, lexemes
    of their kinds that do not absorb each other are the tokens of what they make up. -/
theorem tokenize_partition (source : String) :
    (∀ tokens, Lexes 0 source.toList tokens ↔ tokens = tokenize source) ∧
      joined (tokenize source) = source ∧
      Tiles 0 ((tokenize source).map (·.span)) source.utf8ByteSize ∧
      (∀ before t behind, tokenize source = before ++ t :: behind →
        IsCut source before t behind ∧ IsMaximal (texts before) t (texts behind)) ∧
      AreApart (tokenize source) ∧
      ∀ tokens, (∀ t ∈ tokens, t.kind.IsLexeme t.text.toList) → AreApart tokens →
        (tokenize (joined tokens)).map (fun t => (t.kind, t.text)) =
            tokens.map (fun t => (t.kind, t.text)) ∧
          (AreContiguous 0 tokens → tokenize (joined tokens) = tokens) := by
  refine ⟨fun tokens => lexes_iff, joined_tokenize source, ?_, ?_, (isPartition_scan 0 _).apart, ?_⟩
  · have tiles := tiles_scan 0 source.toList
    rw [Nat.zero_add, bytes, String.ofList_toList] at tiles
    exact tiles
  · intro before t behind tokens
    exact ⟨isCut_of_tokenize tokens, isMaximal_of_tokenize tokens⟩
  · intro tokens lexemes apart
    rw [tokenize_joined lexemes apart]
    exact ⟨map_place 0 tokens, place_of_areContiguous⟩

example : (tokenize "x2\r\n 2π$").map (fun t => (t.kind, t.text, t.span)) =
    [(.name, "x2", ⟨0, 2⟩), (.blank, "\r\n ", ⟨2, 5⟩), (.digits, "2", ⟨5, 6⟩),
      (.symbol, "π", ⟨6, 8⟩), (.symbol, "$", ⟨8, 9⟩)] := by
  decide +kernel

end Token
end Fluxion
