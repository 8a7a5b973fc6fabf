import Sable.Text.Offset

/-!
# Cursors

A cursor stands between two characters of a text and knows its line and column. Only a line feed
ends a line; lines and columns count from one, columns in characters.

## Main definitions

* `Text.Cursor`: a position with its line, its column and what follows it.
* `Text.Cursor.seek`: moves a cursor forward to an offset.
* `Text.cursorsAt`: the cursors at the offsets of a list.

## Main statements

* `Text.Cursor.seek_seek`: a cursor may stop on its way.
* `Text.cursorsAt_eq_map`: each cursor is that of its offset alone.
-/
namespace Sable.Text

structure Cursor where
  offset : Nat
  line : Nat
  column : Nat
  rest : List Char
  deriving DecidableEq, Inhabited

namespace Cursor

def start (cs : List Char) : Cursor := ⟨0, 1, 1, cs⟩

/-- Moves over whole characters up to `stop`, from a position in front of `cs`. -/
def seekFrom (stop offset line column : Nat) : List Char → Cursor
  | [] => ⟨offset, line, column, []⟩
  | c :: cs =>
    let next := offset + c.utf8Size
    if stop < next then ⟨offset, line, column, c :: cs⟩
    else if c = '\n' then seekFrom stop next (line + 1) 1 cs
    else seekFrom stop next line (column + 1) cs

def seek (c : Cursor) (stop : Nat) : Cursor := seekFrom stop c.offset c.line c.column c.rest

theorem seek_seekFrom {stop stop' : Nat} (h : stop ≤ stop') (offset line column : Nat)
    (cs : List Char) :
    (seekFrom stop offset line column cs).seek stop' = seekFrom stop' offset line column cs := by
  induction cs generalizing offset line column with
  | nil => rfl
  | cons c cs ih =>
    by_cases hn : stop < offset + c.utf8Size
    · simp [seekFrom, hn, seek]
    · have hn' : ¬stop' < offset + c.utf8Size := by omega
      simp only [seekFrom, hn, hn', if_false]
      split <;> exact ih ..

theorem seek_seek (c : Cursor) {stop stop' : Nat} (h : stop ≤ stop') :
    (c.seek stop).seek stop' = c.seek stop' :=
  seek_seekFrom h _ _ _ _

/-- Line and column. Behind the end of a text it is those of the end that count, and inside a
character there is no column but the first. -/
def lineCol (c : Cursor) (offset : Nat) : Nat × Nat :=
  (c.line, if c.offset = offset || c.rest.isEmpty then c.column else 1)

/-- The characters up to `stop`, if the cursor is at `start` and both are positions in order. -/
def slice (c : Cursor) (start stop : Nat) : List Char :=
  if c.offset = start ∧ start ≤ stop then (take? (stop - start) c.rest).getD [] else []

end Cursor

/-- Moves on from `latest`, which is the cursor at `reached`, as long as the offsets ascend, and
from the start of the text where they do not. -/
def cursorsFrom (cs : List Char) (reached : Nat) (latest : Cursor) : List Nat → List Cursor
  | [] => []
  | offset :: offsets =>
    let cursor := (if reached ≤ offset then latest else .start cs).seek offset
    cursor :: cursorsFrom cs offset cursor offsets

def cursorsAt (cs : List Char) (offsets : List Nat) : List Cursor :=
  cursorsFrom cs 0 (.start cs) offsets

theorem cursorsFrom_eq_map (cs : List Char) (reached : Nat) (offsets : List Nat) :
    cursorsFrom cs reached ((Cursor.start cs).seek reached) offsets =
      offsets.map (Cursor.start cs).seek := by
  induction offsets generalizing reached with
  | nil => rfl
  | cons offset offsets ih =>
    have h : (if reached ≤ offset then (Cursor.start cs).seek reached else .start cs).seek offset =
        (Cursor.start cs).seek offset := by
      split
      · exact Cursor.seek_seek _ ‹_›
      · rfl
    simp only [cursorsFrom, h, ih, List.map_cons]

theorem cursorsAt_eq_map (cs : List Char) (offsets : List Nat) :
    cursorsAt cs offsets = offsets.map (Cursor.start cs).seek := by
  have h : (Cursor.start cs).seek 0 = Cursor.start cs := by
    cases cs with
    | nil => rfl
    | cons c cs =>
      have := c.utf8Size_pos
      simp [Cursor.seek, Cursor.seekFrom, Cursor.start, this]
  rw [cursorsAt, ← cursorsFrom_eq_map cs 0 offsets, h]

end Sable.Text
