import Fluxion.Operator
/- Suggestions for a misspelled name of a function: the known names within two edits of it, nearest
   first (`near`). A name of fewer than three bytes is given less: the edits must be fewer than its
   bytes, so that they cannot replace all of what was written. Of names at the same distance, those
   come first that stand first in the table of names.

   The edit distance counts insertions, deletions and substitutions of single characters; two
   neighbours that changed places count twice. It is computed row by row (`editDistance`), one row
   for each character of the first word, from the distances of the suffixes. That it is the least
   length of a script of edits is proved in `Fluxion.Proofs.Suggestion.EditDistance`, with scripts
   that do not mention the table. -/
namespace Fluxion
namespace Suggestion

/-- From the distances of a word `w` to each suffix of a second word, longest
    suffix first, those of `a :: w`. -/
def nextRow (a : Char) : List Char → List Nat → List Nat
  | b :: rest, skipFirst :: below =>
    let row := nextRow a rest below
    let skipSecond := row.headD 0
    let both := below.headD 0
    (if a = b then both else 1 + min both (min skipFirst skipSecond)) :: row
  | _, below => below.map (· + 1)

/-- The distances of a word to each suffix of `second`, longest suffix first. -/
def row (second : List Char) : List Char → List Nat
  | [] => (List.range (second.length + 1)).reverse
  | a :: word => nextRow a second (row second word)

/-- The least number of single-character edits that turn one word into the other. -/
def editDistance (first second : List Char) : Nat := (row second first).headD 0

/-- The largest distance at which a name is still suggested. -/
def reach : Nat := 2

/-- The known function names near `name`, nearest first. A name is never
    suggested when the edits would replace all of what was written, counted in
    bytes. -/
def near (name : String) : List String :=
  let known := Elementary.names.map (·.1)
  (List.range (reach + 1)).flatMap fun distance =>
    if distance < name.utf8ByteSize then
      known.filter fun candidate => editDistance name.toList candidate.toList == distance
    else []

end Suggestion
end Fluxion
