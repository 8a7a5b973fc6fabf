import Sable.Text.Visible

/-!
# Quoted text

Two ways to write a text between double quotes. A reader of the first sees every character, one
that does not show as the hexadecimal number of its code point. The second is the string of JSON;
it escapes only what that format requires.

## Main definitions

* `Text.quoted`: the form for reading.
* `Text.jsonString`: the string of JSON.
-/
namespace Sable.Text

/-- The hexadecimal digits of a number, in lower case. -/
def hexDigits (n : Nat) : List Char := Nat.toDigits 16 n

def padLeft (width : Nat) (fill : Char) (cs : List Char) : List Char :=
  List.replicate (width - cs.length) fill ++ cs

def padRight (width : Nat) (fill : Char) (cs : List Char) : List Char :=
  cs ++ List.replicate (width - cs.length) fill

/-- A text between double quotes, with each character written by `write`. -/
def between (write : Char → List Char) (s : String) : String :=
  .ofList ('"' :: s.toList.flatMap write ++ ['"'])

/-- What a character is written as in quotes. -/
def quotedChar (c : Char) : List Char :=
  match c with
  | '\x00' => ['\\', '0']
  | '\t' => ['\\', 't']
  | '\r' => ['\\', 'r']
  | '\n' => ['\\', 'n']
  | '"' => ['\\', '"']
  | '\\' => ['\\', '\\']
  | c => if isVisible c then [c] else ['\\', 'u', '\x7b'] ++ hexDigits c.toNat ++ ['\x7d']

def quoted (s : String) : String := between quotedChar s

/-- Controls without a short form are written with four digits. -/
def jsonChar (c : Char) : List Char :=
  match c with
  | '"' => ['\\', '"']
  | '\\' => ['\\', '\\']
  | '\x08' => ['\\', 'b']
  | '\t' => ['\\', 't']
  | '\n' => ['\\', 'n']
  | '\x0c' => ['\\', 'f']
  | '\r' => ['\\', 'r']
  | c => if c.toNat < 0x20 then ['\\', 'u'] ++ padLeft 4 '0' (hexDigits c.toNat) else [c]

def jsonString (s : String) : String := between jsonChar s

end Sable.Text
