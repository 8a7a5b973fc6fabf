import Mathlib.Data.List.Induction
import Mathlib.Data.List.Infix
import Mathlib.Data.Prod.Lex
import Mathlib.Order.Monotone.Basic
import Sable.Proofs.Token.Tokenization
import Sable.Source.File

/-!
# Lines and columns count

Every offset has a line and a column, also one inside a character or behind the text. The line
counts the line feeds that have ended by then, and the column counts characters from the last of
these on. From one position to the next both grow together, in lexicographic order, so no two
positions share them.

A line is looked up in a table of line starts. A cursor that counts on its way through the text
finds the same, and so do the cursors that find all places of a listing in one pass.

## Main definitions

* `Text.lineColAfter`: the line and the column behind some text.
* `Text.lineEnds`, `Text.lineEndsBy`: where the line feeds of a text end.
* `Text.lineStartBy`: where the line of an offset starts.

## Main statements

* `Text.findSorted_eq`: the search finds the last entry that is not too large.
* `Text.Cursor.seek_start_eq`: where a cursor stops.
* `SourceFile.lineCol_eq_seek`, `SourceFile.lineCols_eq_map`: the table and the cursors agree.
* `SourceFile.slices_eq_map`: and so do the texts of spans.
* `SourceFile.lineCol_eq`: the line and the column of a position between two characters.
* `SourceFile.lineCol_counts`: what the line and the column of an offset count.
-/
namespace Sable

namespace Text

/-! ## Behind a text -/

/-- The line and the column of what follows the text. -/
def lineColAfter (before : List Char) : Nat × Nat :=
  (before.count '\n' + 1, (before.reverse.takeWhile (· ≠ '\n')).length + 1)

theorem lineColAfter_concat (before : List Char) (c : Char) : lineColAfter (before ++ [c]) =
    if c = '\n' then ((lineColAfter before).1 + 1, 1)
    else ((lineColAfter before).1, (lineColAfter before).2 + 1) := by
  by_cases hc : c = '\n' <;> simp [lineColAfter, hc]

namespace Cursor

theorem seek_offset (c : Cursor) : c.seek c.offset = c := by
  obtain ⟨offset, line, column, rest⟩ := c
  cases rest with
  | nil => rfl
  | cons d rest => simp [seek, seekFrom, d.utf8Size_pos]

/-- Moves over one character. -/
theorem seek_cons (offset line column : Nat) (c : Char) (rest : List Char) :
    seek ⟨offset, line, column, c :: rest⟩ (offset + c.utf8Size) =
      if c = '\n' then ⟨offset + c.utf8Size, line + 1, 1, rest⟩
      else ⟨offset + c.utf8Size, line, column + 1, rest⟩ := by
  simp only [seek, seekFrom, Nat.lt_irrefl, if_false]
  split
  · exact seek_offset ⟨offset + c.utf8Size, line + 1, 1, rest⟩
  · exact seek_offset ⟨offset + c.utf8Size, line, column + 1, rest⟩

/-- A cursor that moves over some text. -/
theorem seek_start (before rest : List Char) :
    (start (before ++ rest)).seek (byteLength before) =
      ⟨byteLength before, (lineColAfter before).1, (lineColAfter before).2, rest⟩ := by
  induction before using List.reverseRecOn generalizing rest with
  | nil => exact seek_offset (start rest)
  | append_singleton before c ih =>
    have hlength : byteLength (before ++ [c]) = byteLength before + c.utf8Size := by simp
    have hle : byteLength before ≤ byteLength (before ++ [c]) := by omega
    rw [← seek_seek _ hle, List.append_assoc, ih, List.singleton_append, hlength, seek_cons,
      lineColAfter_concat]
    split <;> rfl

end Cursor

/-! ## Line feeds -/

/-- The offsets at which line feeds end: each is the length of the text up to and with its line
feed. -/
def lineEnds (cs : List Char) : List Nat :=
  (cs.inits.filter (·.getLast? = some '\n')).map byteLength

/-- Where the line feeds end that end at `stop` or before. -/
def lineEndsBy (stop : Nat) (cs : List Char) : List Nat := (lineEnds cs).filter (· ≤ stop)

/-- Where the last of these line feeds ends, or else the start of the text. -/
def lineStartBy (stop : Nat) (cs : List Char) : Nat := (lineEndsBy stop cs).getLast?.getD 0

theorem lineEnds_concat (cs : List Char) (c : Char) : lineEnds (cs ++ [c]) =
    lineEnds cs ++ if c = '\n' then [byteLength (cs ++ [c])] else [] := by
  by_cases hc : c = '\n' <;> simp [lineEnds, List.inits_append, hc]

theorem length_lineEnds (cs : List Char) : (lineEnds cs).length = cs.count '\n' := by
  induction cs using List.reverseRecOn with
  | nil => rfl
  | append_singleton cs c ih =>
    rw [lineEnds_concat, List.length_append, ih, List.count_append]
    split <;> simp_all

theorem le_byteLength_of_mem_lineEnds {cs : List Char} {e : Nat} (h : e ∈ lineEnds cs) :
    e ≤ byteLength cs := by
  obtain ⟨before, hbefore, rfl⟩ := List.mem_map.1 h
  obtain ⟨rest, rfl⟩ := (List.mem_inits _ _).1 (List.mem_of_mem_filter hbefore)
  simp

/-- What is behind the offset has no line feed that ends before. -/
theorem lineEndsBy_append {stop : Nat} {before rest : List Char} (hle : byteLength before ≤ stop)
    (hrest : ∀ c ∈ rest.head?, stop < byteLength before + c.utf8Size) :
    lineEndsBy stop (before ++ rest) = lineEnds before := by
  induction rest using List.reverseRecOn with
  | nil =>
    rw [List.append_nil, lineEndsBy, List.filter_eq_self]
    exact fun e he => decide_eq_true ((le_byteLength_of_mem_lineEnds he).trans hle)
  | append_singleton rest c ih =>
    have hlt : stop < byteLength (before ++ (rest ++ [c])) := by
      cases rest with
      | nil => simpa using hrest c rfl
      | cons d rest =>
        have := hrest d rfl
        simp
        omega
    have hinner : ∀ d ∈ rest.head?, stop < byteLength before + d.utf8Size := fun d hd =>
      hrest d (by rw [List.head?_append, Option.mem_def.1 hd]; rfl)
    rw [← List.append_assoc] at hlt ⊢
    rw [lineEndsBy, lineEnds_concat, List.filter_append, ← lineEndsBy, ih hinner]
    split
    · simpa using hlt
    · simp

/-! ## The table of line starts -/

section Search

variable {table : Array Nat} {n : Nat} {low high : List Nat} (htable : table.toList = low ++ high)
  (hlow : ∀ entry ∈ low, entry ≤ n) (hhigh : ∀ entry ∈ high, n < entry)

include htable hlow hhigh

theorem getElem_le_iff {i : Nat} (hi : i < table.size) : table[i] ≤ n ↔ i < low.length := by
  have hi' : i < (low ++ high).length := htable ▸ hi
  have hentry : table[i] = (low ++ high)[i] := by simp [← htable]
  rw [hentry, List.getElem_append]
  split
  case isTrue h => exact iff_of_true (hlow _ (List.getElem_mem h)) h
  case isFalse h => exact iff_of_false (Nat.not_le.2 (hhigh _ (List.getElem_mem _))) h

/-- What is left of the table begins in the low part and ends behind it. -/
theorem narrow_eq {base size : Nat} (h : base + size ≤ table.size)
    (hbase : base < low.length ∨ base = 0) (hsize : low.length ≤ base + size) :
    narrow table n base size h = low.length - 1 := by
  fun_induction narrow table n base size h with
  | case1 base size h hmany half hlt ih =>
    have hhalf := (getElem_le_iff htable hlow hhigh (i := base + half) (by omega)).not.1 (by omega)
    exact ih hbase (by omega)
  | case2 base size h hmany half hle ih =>
    have hhalf := (getElem_le_iff htable hlow hhigh (i := base + half) (by omega)).1 (by omega)
    exact ih (.inl hhalf) (by omega)
  | case3 base size h hone => omega

/-- The number is found if it is the last of the low entries, and otherwise it belongs behind
these. -/
theorem findSorted_eq : findSorted table n =
    if low.getLast? = some n then .ok (low.length - 1) else .error low.length := by
  have hsize : table.size = low.length + high.length := by
    rw [← Array.length_toList, htable, List.length_append]
  have hbound : 0 + table.size ≤ table.size := by omega
  have hplace := narrow_eq htable hlow hhigh hbound (.inr rfl) (by omega)
  have hentry : table[low.length - 1]? = (low ++ high)[low.length - 1]? := by
    rw [← htable, Array.getElem?_toList]
  rw [findSorted, hplace, hentry]
  cases hlast : low.getLast? with
  | none =>
    obtain rfl := List.getLast?_eq_none_iff.1 hlast
    cases high with
    | nil => rfl
    | cons entry high =>
      have hlt := hhigh entry List.mem_cons_self
      simp [Nat.ne_of_gt hlt, Nat.not_lt_of_gt hlt]
  | some entry =>
    have hle := hlow entry (List.mem_of_getLast? hlast)
    have hpos : 0 < low.length := List.length_pos_of_mem (List.mem_of_getLast? hlast)
    rw [List.getElem?_append_left (by omega), ← List.getLast?_eq_getElem?, hlast]
    by_cases heq : entry = n
    · simp [heq]
    · have hlt : entry < n := by omega
      simp [heq, hlt, Nat.sub_add_cancel hpos]

end Search

/-- Where the line feeds of a text end that starts at an offset. -/
def lineFeeds (offset : Nat) (cs : List Char) : List Nat :=
  ((indexed offset cs).filter (·.2 = '\n')).map (·.1 + 1)

theorem lineFeeds_cons (offset : Nat) (c : Char) (cs : List Char) : lineFeeds offset (c :: cs) =
    (if c = '\n' then [offset + 1] else []) ++ lineFeeds (offset + c.utf8Size) cs := by
  by_cases hc : c = '\n' <;> simp [lineFeeds, indexed, hc]

theorem lineFeeds_append (offset : Nat) (before rest : List Char) :
    lineFeeds offset (before ++ rest) =
      lineFeeds offset before ++ lineFeeds (offset + byteLength before) rest := by
  induction before generalizing offset with
  | nil => rfl
  | cons c before ih =>
    rw [List.cons_append, lineFeeds_cons, lineFeeds_cons, ih, byteLength_cons, List.append_assoc,
      Nat.add_assoc]

theorem lineFeeds_eq_lineEnds (cs : List Char) : lineFeeds 0 cs = lineEnds cs := by
  induction cs using List.reverseRecOn with
  | nil => rfl
  | append_singleton cs c ih =>
    rw [lineFeeds_append, lineEnds_concat, ih, lineFeeds_cons, byteLength_append]
    split
    case isTrue h => simp [h, lineFeeds, indexed, show '\n'.utf8Size = 1 from rfl]
    case isFalse => simp [lineFeeds, indexed]

theorem lt_of_mem_lineFeeds {offset e : Nat} {cs : List Char} (h : e ∈ lineFeeds offset cs) :
    offset < e := by
  induction cs generalizing offset with
  | nil => simp [lineFeeds, indexed] at h
  | cons c cs ih =>
    rw [lineFeeds_cons, List.mem_append] at h
    rcases h with h | h
    · split at h <;> simp at h
      omega
    · have := ih h
      omega

/-- The line feeds of what is behind an offset end behind it, too. -/
theorem lt_of_mem_lineFeeds_rest {start offset e : Nat} {rest : List Char}
    (hrest : ∀ c ∈ rest.head?, offset < start + c.utf8Size) (h : e ∈ lineFeeds start rest) :
    offset < e := by
  cases rest with
  | nil => simp [lineFeeds, indexed] at h
  | cons c rest =>
    have hc := hrest c rfl
    rw [lineFeeds_cons, List.mem_append] at h
    rcases h with h | h
    · split at h
      case isTrue heq =>
        have hsize : c.utf8Size = 1 := by rw [heq]; rfl
        obtain rfl := List.mem_singleton.1 h
        omega
      case isFalse => simp at h
    · have := lt_of_mem_lineFeeds h
      omega

/-! ## Inside a character -/

section Inside

variable {before rest : List Char} {offset : Nat} (hlt : byteLength before < offset)
  (hrest : ∀ c ∈ rest.head?, offset < byteLength before + c.utf8Size)

include hlt hrest

/-- No text begins inside a character or behind the end. -/
theorem drop?_of_inside : drop? offset (before ++ rest) = none := by
  induction before generalizing offset with
  | nil =>
    obtain ⟨n, rfl⟩ : ∃ n, offset = n + 1 := ⟨_, (Nat.succ_pred_eq_of_pos hlt).symm⟩
    cases rest with
    | nil => rfl
    | cons c rest =>
      have hc : ¬c.utf8Size ≤ n + 1 := by simpa using hrest c rfl
      simp [drop?, hc]
  | cons d before ih =>
    rw [byteLength_cons] at hlt hrest
    obtain ⟨n, rfl⟩ : ∃ n, offset = n + 1 := ⟨_, (Nat.succ_pred_eq_of_pos (by omega)).symm⟩
    rw [List.cons_append, drop?, if_pos (by omega)]
    refine ih (by omega) fun c hc => ?_
    have := hrest c hc
    omega

/-- No text ends inside a character or behind the end. -/
theorem take?_of_inside : take? offset (before ++ rest) = none := by
  induction before generalizing offset with
  | nil =>
    obtain ⟨n, rfl⟩ : ∃ n, offset = n + 1 := ⟨_, (Nat.succ_pred_eq_of_pos hlt).symm⟩
    cases rest with
    | nil => rfl
    | cons c rest =>
      have hc : ¬c.utf8Size ≤ n + 1 := by simpa using hrest c rfl
      simp [take?, hc]
  | cons d before ih =>
    rw [byteLength_cons] at hlt hrest
    obtain ⟨n, rfl⟩ : ∃ n, offset = n + 1 := ⟨_, (Nat.succ_pred_eq_of_pos (by omega)).symm⟩
    rw [List.cons_append, take?, if_pos (by omega), Option.map_eq_none_iff]
    refine ih (by omega) fun c hc => ?_
    have := hrest c hc
    omega

end Inside

/-! ## The last line -/

/-- A text is what ends at its last line feed and the characters behind it. -/
theorem exists_lastLine (before : List Char) : ∃ front line, before = front ++ line ∧
    byteLength front = (lineEnds before).getLast?.getD 0 ∧
    (lineColAfter before).2 = line.length + 1 := by
  induction before using List.reverseRecOn with
  | nil => exact ⟨[], [], rfl, rfl, rfl⟩
  | append_singleton before c ih =>
    obtain ⟨front, line, rfl, hfront, hcolumn⟩ := ih
    rw [lineEnds_concat, lineColAfter_concat]
    split
    · exact ⟨front ++ line ++ [c], [], by simp, by simp, rfl⟩
    · refine ⟨front, line ++ [c], by simp, by rw [List.append_nil, hfront], ?_⟩
      simp [hcolumn]

/-- Every character moves the line or the column on. -/
theorem lineColAfter_lt {before mid : List Char} (h : mid ≠ []) :
    toLex (lineColAfter before) < toLex (lineColAfter (before ++ mid)) := by
  induction mid using List.reverseRecOn with
  | nil => exact absurd rfl h
  | append_singleton mid c ih =>
    have hstep : toLex (lineColAfter (before ++ mid)) <
        toLex (lineColAfter (before ++ mid ++ [c])) := by
      rw [lineColAfter_concat, Prod.Lex.toLex_lt_toLex]
      split <;> simp
    rw [← List.append_assoc]
    by_cases hmid : mid = []
    · simpa [hmid] using hstep
    · exact (ih hmid).trans hstep

/-! ## Where a cursor stops -/

/-- An offset falls behind a position, and in front of the end of the next character. -/
theorem exists_position (cs : List Char) (offset : Nat) : ∃ before rest, cs = before ++ rest ∧
    byteLength before ≤ offset ∧ ∀ c ∈ rest.head?, offset < byteLength before + c.utf8Size := by
  induction cs generalizing offset with
  | nil => exact ⟨[], [], rfl, Nat.zero_le _, by simp⟩
  | cons c cs ih =>
    by_cases hc : offset < c.utf8Size
    · exact ⟨[], c :: cs, rfl, Nat.zero_le _, by simpa using hc⟩
    · obtain ⟨before, rest, rfl, hle, hrest⟩ := ih (offset - c.utf8Size)
      refine ⟨c :: before, rest, rfl, ?_, fun d hd => ?_⟩
      · rw [byteLength_cons]
        omega
      · have := hrest d hd
        rw [byteLength_cons]
        omega

/-- A cursor stops at the last position that it may reach. -/
theorem Cursor.seek_start_eq {offset : Nat} {before rest : List Char}
    (hle : byteLength before ≤ offset)
    (hrest : ∀ c ∈ rest.head?, offset < byteLength before + c.utf8Size) :
    (start (before ++ rest)).seek offset =
      ⟨byteLength before, (lineColAfter before).1, (lineColAfter before).2, rest⟩ := by
  rw [← seek_seek _ hle, seek_start]
  cases rest with
  | nil => rfl
  | cons c rest => simp [seek, seekFrom, hrest c rfl]

end Text

open Text

namespace SourceFile

variable {file : SourceFile} {offset : Nat} {before rest : List Char}

theorem toList_lineStarts (file : SourceFile) :
    file.lineStarts.toList = 0 :: lineEnds file.text.toList := by
  rw [← lineFeeds_eq_lineEnds]
  rfl

section Position

variable (h : file.text.toList = before ++ rest) (hle : byteLength before ≤ offset)
  (hrest : ∀ c ∈ rest.head?, offset < byteLength before + c.utf8Size)

include h hle hrest

/-- An offset belongs to the last line that has started. -/
theorem lineIndex_of_position : file.lineIndex offset = (lineEnds before).length ∧
    file.lineStarts[(lineEnds before).length]?.getD 0 = (lineEnds before).getLast?.getD 0 := by
  have htable : file.lineStarts.toList =
      (0 :: lineEnds before) ++ lineFeeds (byteLength before) rest := by
    rw [toList_lineStarts, h, ← lineFeeds_eq_lineEnds, lineFeeds_append, lineFeeds_eq_lineEnds,
      Nat.zero_add]
    rfl
  constructor
  · have hfound := findSorted_eq htable (n := offset)
      (List.forall_mem_cons.2
        ⟨Nat.zero_le _, fun e he => (le_byteLength_of_mem_lineEnds he).trans hle⟩)
      fun e he => lt_of_mem_lineFeeds_rest hrest he
    rw [lineIndex, hfound]
    by_cases hlast : (0 :: lineEnds before).getLast? = some offset <;> simp [hlast]
  · have hlast := List.getLast?_eq_getElem? (l := 0 :: lineEnds before)
    rw [List.getLast?_cons, List.length_cons, Nat.add_sub_cancel] at hlast
    rw [← Array.getElem?_toList, htable, List.getElem?_append_left (by simp), ← hlast]
    rfl

/-- From the start of the line on stands the rest of the line, unless the offset is inside a
character. -/
theorem slice?_of_position {front line : List Char} (hbefore : before = front ++ line) :
    slice? (byteLength front) (min offset (byteLength file.text.toList)) file.text.toList =
      if byteLength before = offset || rest.isEmpty then some line else none := by
  subst hbefore
  rw [byteLength_append] at hle hrest
  rw [h, List.append_assoc, slice?, byteLength_append, byteLength_append, drop?_append,
    Option.bind_some, byteLength_append]
  by_cases hend : byteLength front + byteLength line = offset ∨ rest = []
  · have hmin : min offset (byteLength front + (byteLength line + byteLength rest)) =
        byteLength front + byteLength line := by
      rcases hend with hend | rfl
      · omega
      · rw [byteLength_nil]
        omega
    have hcase : (decide (byteLength front + byteLength line = offset) || rest.isEmpty) = true := by
      simpa using hend
    rw [hmin, if_pos (by omega), Nat.add_sub_cancel_left, take?_append, hcase]
    rfl
  · obtain ⟨hne, hsome⟩ := not_or.1 hend
    obtain ⟨c, rest, rfl⟩ := List.exists_cons_of_ne_nil hsome
    have hc := hrest c rfl
    have hmin : min offset (byteLength front + (byteLength line + byteLength (c :: rest))) =
        offset := by
      rw [byteLength_cons]
      omega
    have hinside : take? (offset - byteLength front) (line ++ c :: rest) = none :=
      take?_of_inside (by omega) fun d hd => by
        have := hrest d hd
        omega
    rw [hmin, if_pos (by omega), hinside]
    simp [hne]

theorem lineCol_of_position : file.lineCol offset = ((lineColAfter before).1,
    if byteLength before = offset || rest.isEmpty then (lineColAfter before).2 else 1) := by
  obtain ⟨front, line, hbefore, hfront, hcolumn⟩ := exists_lastLine before
  obtain ⟨hline, hstart⟩ := lineIndex_of_position h hle hrest
  rw [lineCol, hline, hstart, ← hfront, slice?_of_position h hle hrest hbefore, hcolumn,
    length_lineEnds]
  split <;> rfl

end Position

/-- A cursor finds the line and the column, too. -/
theorem lineCol_eq_seek (file : SourceFile) (offset : Nat) :
    file.lineCol offset = ((Cursor.start file.text.toList).seek offset).lineCol offset := by
  obtain ⟨before, rest, htext, hle, hrest⟩ := exists_position file.text.toList offset
  rw [lineCol_of_position htext hle hrest, htext, Cursor.seek_start_eq hle hrest]
  rfl

theorem lineCols_eq_map (file : SourceFile) (offsets : List Nat) :
    file.lineCols offsets = offsets.map file.lineCol := by
  rw [lineCols, cursorsAt_eq_map, List.zipWith_map_left, List.zipWith_self, funext file.lineCol_eq_seek]

/-- The texts of spans are cut out one by one. -/
theorem slices_eq_map (file : SourceFile) (spans : List Span) :
    file.slices spans = spans.map fun s => .ofList (slice s.start s.stop file.text.toList) := by
  rw [slices, cursorsAt_eq_map, List.map_map, List.zipWith_map_left, List.zipWith_self]
  refine List.map_congr_left fun s _ => congrArg String.ofList ?_
  obtain ⟨before, rest, htext, hle, hrest⟩ := exists_position file.text.toList s.start
  rw [Function.comp_apply, htext, Cursor.seek_start_eq hle hrest, Cursor.slice, slice, slice?]
  by_cases hstart : byteLength before = s.start
  · rw [← hstart, drop?_append]
    by_cases hstop : byteLength before ≤ s.stop <;> simp [hstop]
  · rw [drop?_of_inside (by omega) hrest]
    simp [hstart]

theorem lineCol_eq (h : file.text.toList = before ++ rest) :
    file.lineCol (byteLength before) = lineColAfter before := by
  rw [lineCol_of_position h (Nat.le_refl _) fun c _ => Nat.lt_add_of_pos_right c.utf8Size_pos]
  simp

theorem line_eq (file : SourceFile) (offset : Nat) :
    (file.lineCol offset).1 =
      (lineEndsBy (min offset (byteLength file.text.toList)) file.text.toList).length + 1 := by
  obtain ⟨before, rest, htext, hle, hrest⟩ := exists_position file.text.toList offset
  have hstop : byteLength before ≤ min offset (byteLength file.text.toList) := by
    rw [htext, byteLength_append]
    omega
  have hnext : ∀ c ∈ rest.head?,
      min offset (byteLength file.text.toList) < byteLength before + c.utf8Size := fun c hc =>
    Nat.lt_of_le_of_lt (Nat.min_le_left _ _) (hrest c hc)
  rw [lineCol_of_position htext hle hrest]
  generalize min offset (byteLength file.text.toList) = stop at hstop hnext ⊢
  rw [htext, lineEndsBy_append hstop hnext, length_lineEnds]
  rfl

/-- The column of a position: the characters from the start of its line on. -/
theorem column_eq (h : file.text.toList = before ++ rest) (hstop : byteLength before ≤ offset)
    (hend : byteLength before = offset ∨ rest = []) :
    ∃ line, slice? (lineStartBy (byteLength before) file.text.toList) (byteLength before)
        file.text.toList = some line ∧ (file.lineCol offset).2 = line.length + 1 := by
  have hnext : ∀ {stop}, byteLength before = stop ∨ rest = [] →
      ∀ c ∈ rest.head?, stop < byteLength before + c.utf8Size := by
    rintro stop (rfl | rfl) c hc
    · have := c.utf8Size_pos
      omega
    · simp at hc
  have hlast := hnext (.inl rfl)
  obtain ⟨front, line, hbefore, hfront, hcolumn⟩ := exists_lastLine before
  refine ⟨line, ?_, ?_⟩
  · rw [h, lineStartBy, lineEndsBy_append (Nat.le_refl _) hlast, ← hfront, hbefore,
      List.append_assoc, slice?, if_pos (by simp), drop?_append]
    simp [take?_append]
  · have hcase : (byteLength before = offset || rest.isEmpty) = true := by
      rcases hend with rfl | rfl <;> simp
    rw [lineCol_of_position h hstop (hnext hend)]
    simp only [hcase, if_true]
    exact hcolumn

theorem strictMonoOn_lineCol (file : SourceFile) :
    StrictMonoOn (fun offset => toLex (file.lineCol offset))
      {offset | IsBoundary file.text.toList offset} := by
  rintro _ ⟨before, rest, htext, rfl⟩ _ ⟨before', rest', htext', rfl⟩ hlt
  have hfirst : before <+: file.text.toList := ⟨rest, htext.symm⟩
  have hsecond : before' <+: file.text.toList := ⟨rest', htext'.symm⟩
  simp only [lineCol_eq htext, lineCol_eq htext']
  rcases List.prefix_or_prefix_of_prefix hfirst hsecond with ⟨mid, rfl⟩ | ⟨mid, rfl⟩
  · refine lineColAfter_lt ?_
    rintro rfl
    simp at hlt
  · rw [byteLength_append] at hlt
    omega

/-- The line of an offset is one more than the line feeds that end there or before, in a text that
may end before. At a boundary of characters and behind the end, the column is one more than the
characters from the end of the last of these line feeds on. So from one position of the text to a
later one, both grow in lexicographic order, and no two positions have the same line and column. -/
theorem lineCol_counts (file : SourceFile) :
    (∀ offset, (file.lineCol offset).1 =
      1 + (lineEndsBy (min offset (byteLength file.text.toList)) file.text.toList).length) ∧
    (∀ offset, IsBoundary file.text.toList offset ∨ byteLength file.text.toList ≤ offset →
      ∃ line, slice? (lineStartBy (min offset (byteLength file.text.toList)) file.text.toList)
          (min offset (byteLength file.text.toList)) file.text.toList = some line ∧
        (file.lineCol offset).2 = 1 + line.length) ∧
    StrictMonoOn (fun offset => toLex (file.lineCol offset))
      {offset | IsBoundary file.text.toList offset} ∧
    Set.InjOn file.lineCol {offset | IsBoundary file.text.toList offset} := by
  have hmono := file.strictMonoOn_lineCol
  refine ⟨fun offset => ?_, fun offset h => ?_, hmono, fun a ha b hb heq => ?_⟩
  · rw [file.line_eq, Nat.add_comm]
  · simp only [Nat.add_comm 1]
    rcases h with ⟨before, rest, htext, rfl⟩ | hle
    · have hmin : min (byteLength before) (byteLength file.text.toList) = byteLength before := by
        rw [htext, byteLength_append]
        omega
      rw [hmin]
      exact column_eq htext (Nat.le_refl _) (.inl rfl)
    · rw [Nat.min_eq_right hle]
      exact column_eq (List.append_nil _).symm hle (.inr rfl)
  · exact hmono.injOn ha hb (congrArg toLex heq)

end SourceFile

end Sable
