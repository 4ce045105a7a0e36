import Fluxion.Cursor
import Fluxion.Proofs.Notation.Lexing
/- Where the tokens of a text stand. Each begins where the one before ends, counted in bytes, so the
   tokens in front of a place are those that end there or before it (`scan_split`, `start_lt_stop`),
   the source ends where its last token does (`stop_ofSource`), and only the first token starts
   where the text starts (`mem_head?_of_start`).

   Tokens in front of a place stay what they are when another text follows that the last of them
   does not go on with (`exists_scan_append`). That is how a beginning of a source is gone on with
   in another way: digits may be followed by a parenthesis but not by more digits, which would
   belong to the same token. Texts and tokens are lists here, and a text of tokens is their
   characters one after the other (`texts`). -/
namespace Fluxion
namespace Token

variable {start : Nat} {text more : List Char} {t : Token} {passed rest : List Token}

/-- The number of bytes of a text. -/
def bytes (text : List Char) : Nat := (String.ofList text).utf8ByteSize

theorem bytes_append (text more : List Char) : bytes (text ++ more) = bytes text + bytes more := by
  rw [bytes, String.ofList_append, String.utf8ByteSize_append]
  rfl

theorem bytes_pos (c : Char) (text : List Char) : 0 < bytes (c :: text) := by
  have size : bytes [c] = c.utf8Size := by
    rw [bytes, ← String.singleton_eq_ofList, String.utf8ByteSize_singleton]
  have := c.utf8Size_pos
  rw [← List.singleton_append, bytes_append, size]
  omega

/-- The characters of tokens. -/
def texts (tokens : List Token) : List Char := tokens.flatMap (·.text.toList)

/-- The first token of a text is a run, and the others are those of what follows the run. -/
theorem scan_eq_cons (scanned : scan start text = t :: rest) : ∃ first run tail,
    text = first :: run ++ tail ∧ t = ⟨Kind.ofFirst first, String.ofList (first :: run), start⟩ ∧
      rest = scan t.stop tail ∧ (∀ c ∈ run, (Kind.ofFirst first).goesOn c = true) ∧
        ∀ c ∈ tail.head?, (Kind.ofFirst first).goesOn c = false := by
  cases text with
  | nil =>
    rw [scan] at scanned
    cases scanned
  | cons first others =>
    rw [scan] at scanned
    obtain ⟨rfl, rfl⟩ := List.cons.inj scanned
    refine ⟨first, others.takeWhile (Kind.ofFirst first).goesOn,
      others.dropWhile (Kind.ofFirst first).goesOn, ?_, rfl, rfl, ?_, ?_⟩
    · rw [List.cons_append, List.takeWhile_append_dropWhile]
    · exact List.all_eq_true.mp List.all_takeWhile
    · intro c here
      have stops := List.head?_dropWhile_not (Kind.ofFirst first).goesOn others
      rw [Option.mem_def.mp here] at stops
      exact stops

/-! ## Positions -/

theorem start_lt_stop (mem : t ∈ scan start text) : start ≤ t.start ∧ t.start < t.stop := by
  fun_induction scan start text with
  | case1 => cases mem
  | case2 start c rest kind token ih =>
    have size : token.stop = start + bytes (c :: rest.takeWhile kind.goesOn) := rfl
    have some := bytes_pos c (rest.takeWhile kind.goesOn)
    obtain rfl | later := List.mem_cons.mp mem
    · have here : token.start = start := rfl
      exact ⟨Nat.le_refl _, by omega⟩
    · obtain ⟨lower, upper⟩ := ih later
      exact ⟨by omega, upper⟩

/-- The text of a list of tokens is parted where its tokens are. -/
theorem scan_split (scanned : scan start text = passed ++ rest) : ∃ place tail,
    rest = scan place tail ∧ text = texts passed ++ tail ∧ place = start + bytes (texts passed) ∧
      ∀ t ∈ passed, t.stop ≤ place := by
  induction passed generalizing start text with
  | nil => exact ⟨start, text, scanned.symm, rfl, rfl, nofun⟩
  | cons t others ih =>
    obtain ⟨first, run, tail, rfl, token, behind, -, -⟩ := scan_eq_cons scanned
    obtain ⟨place, tail, rfl, rfl, here, before⟩ := ih behind.symm
    have chars : t.text.toList = first :: run := by
      rw [token, String.toList_ofList]
    have stop : t.stop = start + bytes t.text.toList := by
      rw [chars, token]
      rfl
    have split : texts (t :: others) = t.text.toList ++ texts others := List.flatMap_cons
    refine ⟨place, tail, rfl, ?_, ?_, fun u mem => ?_⟩
    · rw [split, chars, List.append_assoc]
    · rw [split, bytes_append, here, stop, Nat.add_assoc]
    · obtain rfl | later := List.mem_cons.mp mem
      · omega
      · exact before u later

theorem head?_scan (place : Nat) (tail : List Char) :
    ((scan place tail).head?.map (·.start)).getD (place + bytes tail) = place := by
  cases tail with
  | nil =>
    rw [scan]
    rfl
  | cons =>
    rw [scan]
    rfl

/-- A token starts where a text does, if there is any. -/
theorem exists_start (start : Nat) (some : text ≠ []) : ∃ t ∈ scan start text, t.start = start := by
  cases text with
  | nil => exact absurd rfl some
  | cons =>
    rw [scan]
    exact ⟨_, List.mem_cons_self, rfl⟩

/-- Only the first token starts where the text does. -/
theorem mem_head?_of_start (mem : t ∈ scan start text) (first : t.start = start) :
    t ∈ (scan start text).head? := by
  cases scanned : scan start text with
  | nil =>
    rw [scanned] at mem
    cases mem
  | cons u others =>
    rw [scanned] at mem
    obtain rfl | later := List.mem_cons.mp mem
    · rfl
    · obtain ⟨c, run, tail, rfl, token, rfl, -⟩ := scan_eq_cons scanned
      have lower := start_lt_stop later
      have stop : start + bytes (c :: run) = u.stop := by
        rw [token]
        rfl
      have := bytes_pos c run
      omega

/-- A source ends where its last token does. -/
theorem stop_getLast? (start : Nat) (text : List Char) :
    ((scan start text).getLast?.map (·.stop)).getD start = start + bytes text := by
  fun_induction scan start text with
  | case1 => rfl
  | case2 start c rest kind token ih =>
    have last : ∀ l : List Token, ((token :: l).getLast?.map (·.stop)).getD start =
        (l.getLast?.map (·.stop)).getD token.stop := by
      intro l
      cases l with
      | nil => rfl
      | cons => rw [List.getLast?_cons_cons, List.getLast?_cons]; rfl
    have size : token.stop = start + bytes (c :: rest.takeWhile kind.goesOn) := rfl
    rw [last, ih, size, Nat.add_assoc, ← bytes_append, List.cons_append,
      List.takeWhile_append_dropWhile]

theorem stop_ofSource (source : String) : (Cursor.ofSource source).stop = source.utf8ByteSize := by
  have last := stop_getLast? 0 source.toList
  rw [Nat.zero_add, bytes, String.ofList_toList] at last
  exact last

/-! ## Other texts behind tokens -/

/-- Tokens stay the same in front of a text that the last of them does not go on with. -/
theorem exists_scan_append (scanned : scan start text = passed ++ rest)
    (apart : ∀ t ∈ passed.getLast?, ∀ c ∈ more.head?, t.kind.goesOn c = false) :
    ∃ stop, scan start (texts passed ++ more) = passed ++ scan stop more := by
  induction passed generalizing start text with
  | nil => exact ⟨start, rfl⟩
  | cons t others ih =>
    obtain ⟨first, run, tail, rfl, token, behind, goesOn, stops⟩ := scan_eq_cons scanned
    have apart' : ∀ u ∈ others.getLast?, ∀ c ∈ more.head?, u.kind.goesOn c = false := by
      intro u last
      cases others with
      | nil => cases last
      | cons => exact apart u (by rw [List.getLast?_cons_cons]; exact last)
    obtain ⟨stop, onward⟩ := ih behind.symm apart'
    have ends : ∀ c ∈ (texts others ++ more).head?, (Kind.ofFirst first).goesOn c = false := by
      cases others with
      | nil =>
        have kind : t.kind = Kind.ofFirst first := by rw [token]
        rw [← kind]
        exact apart t rfl
      | cons u others =>
        -- The next token begins with the character that the run has stopped at.
        obtain ⟨second, run', tail', rfl, next, -⟩ := scan_eq_cons behind.symm
        rintro c here
        apply stops
        rw [texts, List.flatMap_cons, next, String.toList_ofList] at here
        exact here
    refine ⟨stop, ?_⟩
    have chars : t.text.toList = first :: run := by rw [token, String.toList_ofList]
    have here : scan start (first :: run ++ (texts others ++ more)) =
        t :: scan t.stop (texts others ++ more) := by
      rw [token]
      exact scan_run_eq start first run _ goesOn ends
    rw [onward] at here
    rw [texts, List.flatMap_cons, chars, List.append_assoc]
    exact here

end Token
end Fluxion
