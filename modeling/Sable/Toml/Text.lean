import Sable.Toml.Layout

/-!
# Strings of TOML

A string stands between quotes, or between apostrophes, where a backslash means itself. Three
quotes in place of one let it run over lines.

## Main definitions

* `Toml.StringForm`: the four forms of a string.
* `Toml.StringForm.read?`: reads the rest of a string.
* `Toml.string?`: reads a string.
-/
namespace Sable.Toml

def hexValue? (c : Char) : Option Nat :=
  if c.isDigit then some (c.toNat - '0'.toNat)
  else if 'a' ≤ c ∧ c ≤ 'f' then some (c.toNat - 'a'.toNat + 10)
  else if 'A' ≤ c ∧ c ≤ 'F' then some (c.toNat - 'A'.toNat + 10)
  else none

/-- The characters that a letter or a mark behind a backslash stands for. -/
def escapes : List (Char × Char) :=
  [('b', '\x08'), ('t', '\t'), ('n', '\n'), ('f', '\x0c'), ('r', '\r'), ('"', '"'), ('\\', '\\')]

def scalar? (n : Nat) : Option Char := if n.isValidChar then some (.ofNat n) else none

structure StringForm where
  quote : Char
  /-- Whether the string may run over lines. -/
  isLong : Bool
  deriving DecidableEq, Inhabited

namespace StringForm

def hasEscapes (form : StringForm) : Bool := form.quote = '"'

/-- Where a string ends, and the quotes in front of its end that belong to it. Less than three
quotes in a row do not end a long string. -/
def ending? (form : StringForm) (cs : List Char) : Option (List Char × List Char) :=
  let run := (cs.takeWhile (· = form.quote)).length
  if form.isLong then
    if run < 3 then none
    else some (List.replicate (min run 5 - 3) form.quote, cs.drop (min run 5))
  else if run = 0 then none
  else some ([], cs.drop 1)

/-- The place of a reader in a string. -/
inductive Place
  /-- Between characters; `skips` says that a backslash ended the line, which drops blanks and
  line ends up to the next other character. -/
  | text (skips : Bool)
  /-- Behind a carriage return, which a line feed has to follow. -/
  | lineFeed (skips : Bool)
  /-- Behind a backslash. -/
  | escape
  /-- Behind a backslash and blanks, which a line end has to follow. -/
  | lastOnLine
  /-- In front of `missing + 1` more digits of a code point. -/
  | code (missing value : Nat)

/-- The characters up to the end of a string, without their escapes. A line end in a long string
is a line feed. -/
def body? (form : StringForm) : Place → List Char → Option (List Char × List Char)
  | _, [] => none
  | .text skips, c :: rest =>
    if skips && (isBlank c || c = '\n') then body? form (.text true) rest
    else
      match form.ending? (c :: rest) with
      | some (quotes, rest) => some (quotes, rest)
      | none =>
        if form.hasEscapes && c = '\\' then body? form .escape rest
        else if form.isLong && c = '\r' then body? form (.lineFeed skips) rest
        else if isPlain c || (form.isLong && c = '\n') then
          (body? form (.text false) rest).map fun (s, rest) => (c :: s, rest)
        else none
  | .lineFeed skips, c :: rest =>
    if c ≠ '\n' then none
    else if skips then body? form (.text true) rest
    else (body? form (.text false) rest).map fun (s, rest) => ('\n' :: s, rest)
  | .escape, c :: rest =>
    if c = 'u' then body? form (.code 3 0) rest
    else if c = 'U' then body? form (.code 7 0) rest
    else if form.isLong && c = '\n' then body? form (.text true) rest
    else if form.isLong && c = '\r' then body? form (.lineFeed true) rest
    else if form.isLong && isBlank c then body? form .lastOnLine rest
    else do
      let char ← escapes.lookup c
      let (s, rest) ← body? form (.text false) rest
      return (char :: s, rest)
  | .lastOnLine, c :: rest =>
    if isBlank c then body? form .lastOnLine rest
    else if c = '\n' then body? form (.text true) rest
    else if c = '\r' then body? form (.lineFeed true) rest
    else none
  | .code missing value, c :: rest => do
    let value := 16 * value + (← hexValue? c)
    match missing with
    | m + 1 => body? form (.code m value) rest
    | 0 =>
      let char ← scalar? value
      let (s, rest) ← body? form (.text false) rest
      return (char :: s, rest)

/-- Reads what follows the opening quotes. A line end right behind those of a long string is no
part of it. -/
def read? (form : StringForm) (cs : List Char) : Option (String × List Char) :=
  let cs := if form.isLong then (lineEnd? cs).getD cs else cs
  (form.body? (.text false) cs).map fun (s, rest) => (.ofList s, rest)

end StringForm

/-- A string on one line. -/
def shortString? : List Char → Option (String × List Char)
  | '"' :: rest => StringForm.read? ⟨'"', false⟩ rest
  | '\'' :: rest => StringForm.read? ⟨'\'', false⟩ rest
  | _ => none

def string? : List Char → Option (String × List Char)
  | '"' :: '"' :: '"' :: rest => StringForm.read? ⟨'"', true⟩ rest
  | '\'' :: '\'' :: '\'' :: rest => StringForm.read? ⟨'\'', true⟩ rest
  | cs => shortString? cs

end Sable.Toml
