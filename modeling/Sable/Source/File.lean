import Sable.Source.Span
import Sable.Text.Cursor

/-!
# Source files

A named text, with the map from byte offsets to lines and columns. The offsets at which lines start
are a table, in which the line of an offset is looked up.

## Main definitions

* `Text.findSorted`: the search in a table.
* `SourceFile.lineStarts`, `SourceFile.lineCount`: the lines.
* `SourceFile.lineCol`: the line and the column of an offset.
* `SourceFile.lineCols`: those of many offsets, found in one pass over the text.
* `SourceFile.slices`: the texts of spans.
-/
namespace Sable

namespace Text

/-- The characters of a text that starts at `offset`, with their offsets. -/
def indexed (offset : Nat) : List Char → List (Nat × Char)
  | [] => []
  | c :: cs => (offset, c) :: indexed (offset + c.utf8Size) cs

/-- Halves the part of a sorted table in which the last entry up to `n` may stand, as long as it has
more than one entry. -/
def narrow (table : Array Nat) (n base size : Nat) (h : base + size ≤ table.size) : Nat :=
  if hsize : 1 < size then
    let half := size / 2
    if n < table[base + half] then narrow table n base (size - half) (by omega)
    else narrow table n (base + half) (size - half) (by omega)
  else base
termination_by size

/-- The place of a number in a sorted table, or else the place at which it would have to be
inserted. -/
def findSorted (table : Array Nat) (n : Nat) : Except Nat Nat :=
  let place := narrow table n 0 table.size (by omega)
  table[place]?.elim (.error 0) fun entry =>
    if entry = n then .ok place else .error (if entry < n then place + 1 else place)

end Text

structure SourceFile where
  name : String
  text : String
  deriving DecidableEq, Inhabited

namespace SourceFile

/-- Where the lines start: the first one at the start of the text, every other one behind a line
feed. -/
def lineStarts (file : SourceFile) : Array Nat :=
  (0 :: ((Text.indexed 0 file.text.toList).filter (·.2 = '\n')).map (·.1 + 1)).toArray

def lineCount (file : SourceFile) : Nat := file.lineStarts.size

/-- The place in the table of the last line start at or before `offset`. -/
def lineIndex (file : SourceFile) (offset : Nat) : Nat :=
  match Text.findSorted file.lineStarts offset with
  | .ok line => line
  | .error next => next - 1

/-- The column counts the characters from the start of the line to `offset`, or to the end of the
text if that comes first; it is 1 for an offset inside a character. -/
def lineCol (file : SourceFile) (offset : Nat) : Nat × Nat :=
  let line := file.lineIndex offset
  let text := file.text.toList
  let start := file.lineStarts[line]?.getD 0
  let column := (Text.slice? start (min offset (Text.byteLength text)) text).map List.length
  (line + 1, column.getD 0 + 1)

/-- A cursor moves from each offset to the next. -/
def lineCols (file : SourceFile) (offsets : List Nat) : List (Nat × Nat) :=
  List.zipWith Text.Cursor.lineCol (Text.cursorsAt file.text.toList offsets) offsets

/-- The texts of spans. -/
def slices (file : SourceFile) (spans : List Span) : List String :=
  List.zipWith (fun c (span : Span) => .ofList (c.slice span.start span.stop))
    (Text.cursorsAt file.text.toList (spans.map Span.start)) spans

end SourceFile

end Sable
