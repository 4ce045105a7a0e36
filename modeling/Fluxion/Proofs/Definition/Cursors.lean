import Fluxion.Proofs.Definition.Resumption
/- What a cursor hands out. A call (`Call`) is anything that may be asked of a cursor, be it a move
   or a look. Blanks are passed in silence, whatever is asked, so between any two places of a cursor
   stand the tokens that were handed out there and blanks, and nothing else (`exists_passes`).

   Over a whole run of calls this adds up, since passing composes (`Passes.trans`): what was handed
   out and what is still ahead make up the tokens of the source that are no blanks
   (`exists_passes_run`). From it `run_hands_out_in_order` has, for every source and all calls, that
   the cursor never goes back, that tokens come in their order and none is left out or repeated,
   that the one handed out last is the one in front of the cursor, and that nothing is handed out at
   the end only. -/
namespace Fluxion

open Grammar

namespace Token

/-- The tokens that are no blanks. -/
def solid (tokens : List Token) : List Token := tokens.filter (!·.isBlank)

variable {a b : List Token}

theorem solid_append (a b : List Token) : solid (a ++ b) = solid a ++ solid b := List.filter_append ..

theorem solid_eq_nil {blanks : List Token} (blank : ∀ t ∈ blanks, t.isBlank) : solid blanks = [] := by
  rw [solid, List.filter_eq_nil_iff]
  intro t mem
  simp [blank t mem]

theorem solid_singleton {t : Token} (there : t.kind ≠ .blank) : solid [t] = [t] := by
  have noBlank : t.isBlank = false := beq_eq_false_iff_ne.mpr there
  simp [solid, noBlank]

end Token

namespace Cursor

open Token

/-- What may be asked of a cursor: a move, or a look that leaves it where it is. -/
inductive Call where
  | move (move : Move)
  | current
  | previous
  | span

/-- The token that a call hands out. Only tokens that are passed count: a peek shows one, but it
    is not passed. -/
def handsOut (c : Cursor) : Call → Option Token
  | .move .next => c.next.1
  | .move (.eat kind) => (c.eat kind).1
  | _ => none

/-- The cursor behind a call. -/
def behind (c : Cursor) : Call → Cursor
  | .move move => c.after move
  | _ => c

/-- The tokens that calls hand out, in their order, and the cursor behind all of them. -/
def run : Cursor → List Call → List Token × Cursor
  | c, [] => ([], c)
  | c, call :: rest =>
    let (given, c') := (c.behind call).run rest
    ((c.handsOut call).toList ++ given, c')

/-- How many tokens have been passed. -/
def position (c : Cursor) : Nat := c.passed.length

/-- The one cursor is the other with some tokens passed. -/
structure Passes (c : Cursor) (part : List Token) (c' : Cursor) : Prop where
  passed : c'.passed = part.reverse ++ c.passed
  ahead : c.ahead = part ++ c'.ahead
  stop : c'.stop = c.stop

variable {c c' c'' : Cursor} {part more : List Token}

namespace Passes

theorem refl (c : Cursor) : c.Passes [] c := ⟨rfl, rfl, rfl⟩

theorem trans (first : c.Passes part c') (second : c'.Passes more c'') :
    c.Passes (part ++ more) c'' where
  passed := by rw [second.passed, first.passed, List.reverse_append, List.append_assoc]
  ahead := by rw [first.ahead, second.ahead, List.append_assoc]
  stop := second.stop.trans first.stop

/-- No token is lost, so what is no longer ahead has been passed. -/
theorem of_tokens (tokens : c'.tokens = c.tokens) (ahead : c.ahead = part ++ c'.ahead)
    (stop : c'.stop = c.stop) : c.Passes part c' where
  passed := by
    rw [Cursor.tokens, Cursor.tokens, ahead, ← List.append_assoc] at tokens
    have passed := List.append_cancel_right tokens
    rw [← List.reverse_inj, passed, List.reverse_append, List.reverse_reverse]
  ahead := ahead
  stop := stop

theorem position_eq (passes : c.Passes part c') : c'.position = c.position + part.length := by
  rw [position, passes.passed, List.length_append, List.length_reverse, Nat.add_comm, position]

end Passes

/-! ## One call -/

/-- The next token that is no blank. -/
theorem next_eq (c : Cursor) : c.next.1 = (solid c.ahead).head? := by
  obtain ⟨t, c', passed, next, -⟩ | ⟨c', passed, next⟩ := next_cases c
  · obtain ⟨-, blanks, blank, ahead⟩ := terminal_of_next passed
    rw [passed, ahead, solid_append, solid_eq_nil blank, List.nil_append, ← List.singleton_append,
      solid_append, solid_singleton (State.ne_blank_of_trim next)]
    rfl
  · have blanks := blanks_skipBlanks c
    obtain ⟨blanks, blank, ahead⟩ := blanks
    rw [ahead_skipBlanks, next, List.append_nil] at ahead
    rw [passed, ahead, solid_eq_nil blank]
    rfl

/-- The last token passed that is no blank. -/
theorem previous?_eq (c : Cursor) : c.previous? = (solid c.passed.reverse).getLast? := by
  rw [previous?, solid, List.filter_reverse, List.getLast?_reverse, List.head?_filter]

/-- Behind a call there are blanks that were passed and the token that was handed out. -/
theorem exists_passes (c : Cursor) (call : Call) :
    ∃ part, c.Passes part (c.behind call) ∧ solid part = (c.handsOut call).toList := by
  -- Blanks are skipped by every move that hands out nothing.
  have skips : ∃ part, c.Passes part c.skipBlanks ∧ solid part = [] := by
    obtain ⟨blanks, blank, ahead⟩ := blanks_skipBlanks c
    exact ⟨blanks, .of_tokens (skipBlanks_tokens c) ahead rfl, solid_eq_nil blank⟩
  have takes : ∀ t d, trim c.ahead = t :: d.ahead → Terminal t.kind c.ahead t d.ahead →
      d.tokens = c.tokens → d.stop = c.stop → ∃ part, c.Passes part d ∧ solid part = [t] := by
    rintro t d next ⟨-, blanks, blank, ahead⟩ tokens stop
    have split : c.ahead = blanks ++ [t] ++ d.ahead := by rw [ahead, List.append_assoc]; rfl
    refine ⟨blanks ++ [t], .of_tokens tokens split stop, ?_⟩
    rw [solid_append, solid_eq_nil blank, solid_singleton (State.ne_blank_of_trim next)]
    rfl
  cases call with
  | current | previous | span => exact ⟨[], .refl c, rfl⟩
  | move move =>
    obtain ⟨tokens, stop⟩ := c.after_keeps move
    cases move with
    | peek | skipBlanks | fail | unclosed => exact skips
    | next =>
      obtain ⟨t, d, passed, next, -⟩ | ⟨d, passed, next⟩ := next_cases c
      · rw [after, passed] at tokens stop
        rw [behind, after, handsOut, passed]
        exact takes t d next (terminal_of_next passed) tokens stop
      · have ends : c.skipBlanks.advance = c.skipBlanks := by
          rw [advance, ahead_skipBlanks, next]
        have same : c.next.2 = c.skipBlanks := ends
        rw [behind, after, handsOut, same, passed]
        exact skips
    | eat kind =>
      obtain ⟨t, d, eaten, rfl, next, -⟩ | ⟨d, eaten, -, ahead, -⟩ := eat_cases c kind
      · rw [after, eaten] at tokens stop
        rw [behind, after, handsOut, eaten]
        exact takes t d next (terminal_of_eat eaten) tokens stop
      · rw [after, eaten] at tokens stop
        obtain ⟨part, passes, blank⟩ := skips
        rw [behind, after, handsOut, eaten]
        refine ⟨part, .of_tokens tokens ?_ stop, blank⟩
        rw [ahead, ← ahead_skipBlanks]
        exact passes.ahead

/-- What is ahead of a call is what it hands out and what is ahead behind it, but for blanks. -/
theorem solid_ahead (c : Cursor) (call : Call) :
    solid c.ahead = (c.handsOut call).toList ++ solid (c.behind call).ahead := by
  obtain ⟨part, passes, solid⟩ := c.exists_passes call
  rw [passes.ahead, solid_append, solid]

/-! ## Many calls -/

/-- Behind calls there are blanks that were passed and the tokens that were handed out. -/
theorem exists_passes_run (calls : List Call) (c : Cursor) :
    ∃ part, c.Passes part (c.run calls).2 ∧ solid part = (c.run calls).1 := by
  induction calls generalizing c with
  | nil => exact ⟨[], .refl c, rfl⟩
  | cons call rest ih =>
    obtain ⟨part, passes, given⟩ := c.exists_passes call
    obtain ⟨more, passes', given'⟩ := ih (c.behind call)
    refine ⟨part ++ more, passes.trans passes', ?_⟩
    rw [solid_append, given, given']
    rfl

/-- Whatever is asked of a cursor on a source, it stands within the tokens and never goes back. The
    tokens that it hands out are the first of those that are no blanks, in their order; the last of them
    is the one in front of the cursor. What hands out nothing leaves the next one as it is, and there
    is no next one when all have been handed out, and only then: then the cursor is at the end. -/
theorem run_hands_out_in_order (source : String) (calls : List Call) :
    let tokens := tokenize source
    let given := ((ofSource source).run calls).1
    let c := ((ofSource source).run calls).2
    (c.position ≤ tokens.length ∧ c.passed.reverse = tokens.take c.position ∧
        c.ahead = tokens.drop c.position) ∧
      given <+: solid tokens ∧ c.previous? = given.getLast? ∧
      (∀ call, c.position ≤ (c.behind call).position ∧
        (c.handsOut call = none → (c.behind call).next.1 = c.next.1)) ∧
      (c.next.1 = none ↔ given = solid tokens) ∧
      (c.next.1 = none → c.next.2.span = .empty source.utf8ByteSize) := by
  intro tokens given c
  obtain ⟨part, passes, solid_part⟩ := exists_passes_run calls (ofSource source)
  have all : tokens = part ++ c.ahead := passes.ahead
  have passed : c.passed.reverse = part := by
    rw [passes.passed, show (ofSource source).passed = [] from rfl, List.append_nil,
      List.reverse_reverse]
  have position : c.position = part.length := by rw [← passed, List.length_reverse, Cursor.position]
  have words : solid tokens = given ++ solid c.ahead := by rw [all, solid_append, solid_part]
  refine ⟨⟨?_, ?_, ?_⟩, ⟨_, words.symm⟩, ?_, fun call => ⟨?_, fun silent => ?_⟩, ?_, fun ends => ?_⟩
  · rw [position, all, List.length_append]
    exact Nat.le_add_right _ _
  · rw [position, all, List.take_left, passed]
  · rw [position, all, List.drop_left]
  · rw [previous?_eq, passed, solid_part]
  · obtain ⟨more, onward, -⟩ := c.exists_passes call
    rw [onward.position_eq]
    exact Nat.le_add_right _ _
  · rw [next_eq, next_eq, c.solid_ahead call, silent]
    rfl
  · rw [next_eq, List.head?_eq_none_iff, words, List.self_eq_append_right]
  · obtain ⟨t, d, next, -⟩ | ⟨d, next, none⟩ := next_cases c
    · rw [next] at ends
      cases ends
    · have stop : c.stop = source.utf8ByteSize := passes.stop.trans (stop_ofSource source)
      rw [← stop]
      have nothing : c.skipBlanks.ahead = [] := by rw [ahead_skipBlanks, none]
      have here : c.next.2 = c.skipBlanks := by
        show c.skipBlanks.advance = c.skipBlanks
        rw [advance, nothing]
      rw [here, Cursor.span, current?, nothing]
      rfl

/-- Blanks at the end of a source are still ahead when its last token has been handed out. -/
example :
    let run := (ofSource "a )\n").run
    let calls := [Call.move (.eat .plus), .move .next, .previous, .move (.eat .closeParen)]
    ((run calls).1.map (·.text), (run calls).2.span) = (["a", ")"], ⟨3, 4⟩) ∧
      (run (calls ++ [.move .next])).2.span = ⟨4, 4⟩ := by
  decide +kernel

end Cursor
end Fluxion
