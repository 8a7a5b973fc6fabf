/-!
# Layout of TOML

Blanks, line ends and comments, which stand between the parts of a document. A reader takes what it
reads from the front of a list of characters and gives what follows it.

## Main definitions

* `Toml.isBlank`, `Toml.isPlain`: classes of characters.
* `Toml.lineEnd?`: reads a line end, which a carriage return may open.
* `Toml.skipLayout`: drops blanks, line ends and comments.
-/
namespace Sable.Toml

def isBlank (c : Char) : Bool := c = ' ' || c = '\t'

/-- Controls other than the tab stand nowhere in a text but at the ends of lines. -/
def isPlain (c : Char) : Bool := c = '\t' || (' ' ≤ c && c ≠ '\x7f')

/-- What follows a given character. -/
def expect? (c : Char) : List Char → Option (List Char)
  | d :: rest => if c = d then some rest else none
  | [] => none

def lineEnd? : List Char → Option (List Char)
  | '\n' :: rest | '\r' :: '\n' :: rest => some rest
  | _ => none

def skipBlanks (cs : List Char) : List Char := cs.dropWhile isBlank

/-- Drops blanks, and a comment behind them. -/
def skipComment (cs : List Char) : List Char :=
  match skipBlanks cs with
  | '#' :: rest => rest.dropWhile isPlain
  | rest => rest

/-- What follows the end of a line, if nothing but a comment comes before that. -/
def endOfLine? (cs : List Char) : Option (List Char) :=
  match skipComment cs with
  | [] => some []
  | rest => lineEnd? rest

/-- Drops blanks, line ends and comments; `comment` tells whether the text begins in one. -/
def skipLayout (comment : Bool) : List Char → List Char
  | [] => []
  | '\n' :: rest | '\r' :: '\n' :: rest => skipLayout false rest
  | c :: rest =>
    if comment then if isPlain c then skipLayout true rest else c :: rest
    else if isBlank c then skipLayout false rest
    else if c = '#' then skipLayout true rest
    else c :: rest

end Sable.Toml
