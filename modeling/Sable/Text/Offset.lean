/-!
# Text by byte offset

Positions count the bytes of the UTF-8 form of a text, while the text itself is a list of
characters. An offset that falls inside a character, or past the end, names no position.

## Main definitions

* `Text.byteLength`: the number of bytes of a text.
* `Text.splitAt?`: cuts a text at a byte offset, if that is a character boundary.
* `Text.slice?`: the characters between two byte offsets.
-/
namespace Sable.Text

def byteLength : List Char → Nat
  | [] => 0
  | c :: cs => c.utf8Size + byteLength cs

@[simp] theorem byteLength_nil : byteLength [] = 0 := rfl

@[simp] theorem byteLength_cons (c : Char) (cs : List Char) :
    byteLength (c :: cs) = c.utf8Size + byteLength cs := rfl

@[simp] theorem byteLength_append (a b : List Char) :
    byteLength (a ++ b) = byteLength a + byteLength b := by
  induction a with
  | nil => simp
  | cons c cs ih => simp [ih, Nat.add_assoc]

/-- What stands from byte `offset` on. -/
def drop? : Nat → List Char → Option (List Char)
  | 0, cs => some cs
  | _ + 1, [] => none
  | n + 1, c :: cs => if c.utf8Size ≤ n + 1 then drop? (n + 1 - c.utf8Size) cs else none

/-- The first `length` bytes. -/
def take? : Nat → List Char → Option (List Char)
  | 0, _ => some []
  | _ + 1, [] => none
  | n + 1, c :: cs =>
    if c.utf8Size ≤ n + 1 then (take? (n + 1 - c.utf8Size) cs).map (c :: ·) else none

/-- The first `offset` bytes and what follows them. -/
def splitAt? (offset : Nat) (cs : List Char) : Option (List Char × List Char) :=
  match take? offset cs, drop? offset cs with
  | some before, some rest => some (before, rest)
  | _, _ => none

def slice? (start stop : Nat) (cs : List Char) : Option (List Char) :=
  if start ≤ stop then (drop? start cs).bind (take? (stop - start)) else none

/-- The characters between two offsets; nothing if these are not two positions in order. -/
def slice (start stop : Nat) (cs : List Char) : List Char := (slice? start stop cs).getD []

/-- A cut after a part of the text gives that part. -/
theorem take?_append (a b : List Char) : take? (byteLength a) (a ++ b) = some a := by
  induction a with
  | nil => simp [take?]
  | cons c cs ih =>
    have hc : 0 < c.utf8Size := c.utf8Size_pos
    obtain ⟨n, hn⟩ : ∃ n, c.utf8Size + byteLength cs = n + 1 := ⟨_, (Nat.succ_pred (by omega)).symm⟩
    have hle : c.utf8Size ≤ n + 1 := by omega
    have hsub : n + 1 - c.utf8Size = byteLength cs := by omega
    simp [take?, hn, hle, hsub, ih]

/-- A cut after a part of the text leaves what follows the part. -/
theorem drop?_append (a b : List Char) : drop? (byteLength a) (a ++ b) = some b := by
  induction a with
  | nil => simp [drop?]
  | cons c cs ih =>
    have hc : 0 < c.utf8Size := c.utf8Size_pos
    obtain ⟨n, hn⟩ : ∃ n, c.utf8Size + byteLength cs = n + 1 := ⟨_, (Nat.succ_pred (by omega)).symm⟩
    have hle : c.utf8Size ≤ n + 1 := by omega
    have hsub : n + 1 - c.utf8Size = byteLength cs := by omega
    simp [drop?, hn, hle, hsub, ih]

theorem splitAt?_append (a b : List Char) : splitAt? (byteLength a) (a ++ b) = some (a, b) := by
  simp [splitAt?, take?_append, drop?_append]

end Sable.Text
