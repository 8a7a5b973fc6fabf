import Sable.Toml.Basic
import Sable.Toml.Number

/-!
# Reading TOML

A text is read statement by statement, each on a line of its own. Neither a value nor a key may be
nested too deeply.

## Main definitions

* `Toml.key?`: reads a key, whose parts are joined by points.
* `Toml.valueWith?`: reads a value.
* `Toml.statements?`: reads a text, statement by statement.
* `Toml.Table.parse?`: the table that a text describes.

A reader takes what it reads from the front of a list of characters and gives it with the rest.
-/
namespace Sable.Toml

/-! ## Keys -/

/-- Arrays and inline tables lie within each other at most this deep, and a key has at most this
many parts. -/
def maxDepth : Nat := 79

def isBareKey (c : Char) : Bool := c.isAlphanum || c = '_' || c = '-'

/-- A part of a key. -/
def keyPart? (cs : List Char) : Option (String × List Char) :=
  match cs.span isBareKey with
  | ([], rest) => shortString? rest
  | (name, rest) => some (.ofList name, rest)

/-- The parts of a key, at most `bound` of them, and the blanks around them. -/
def keyParts? : (bound : Nat) → List Char → Option (List String × List Char)
  | 0, _ => none
  | bound + 1, cs => do
    let (name, rest) ← keyPart? (skipBlanks cs)
    match skipBlanks rest with
    | '.' :: rest =>
      let (names, rest) ← keyParts? bound rest
      return (name :: names, rest)
    | rest => return ([name], rest)

def key? (cs : List Char) : Option (Key × List Char) := do
  let (names, rest) ← keyParts? maxDepth cs
  return (⟨names.dropLast, ← names.getLast?⟩, rest)

/-! ## Values -/

/-- A word that stands for a boolean. -/
def boolean? : List Char → Option (Bool × List Char)
  | 't' :: 'r' :: 'u' :: 'e' :: rest => some (true, rest)
  | 'f' :: 'a' :: 'l' :: 's' :: 'e' :: rest => some (false, rest)
  | _ => none

/-- A value without values inside. A date begins like an integer, and so does a number with a
fraction or an exponent. -/
def scalarValue? (cs : List Char) : Option (Value × List Char) :=
  (string? cs).map (fun (s, rest) => (.string s, rest)) <|>
    (boolean? cs).map (fun (b, rest) => (.boolean b, rest)) <|>
    (dateTime? cs).map (fun (d, rest) => (.dateTime d, rest)) <|>
    (float? cs).map (fun (x, rest) => (.float x, rest)) <|>
    (integer? cs).map (fun (n, rest) => (.integer n, rest))

mutual

/-- Reads a value in which others may be nested `depth` deep; `fuel` bounds the number of readers
that are at work at a time. -/
def valueWith? : (fuel depth : Nat) → List Char → Option (Value × List Char)
  | 0, _, _ => none
  | _, 0, '[' :: _ | _, 0, '\x7b' :: _ => none
  | fuel + 1, depth + 1, '[' :: rest =>
    (itemsWith? fuel depth (skipLayout false rest)).map fun (items, rest) => (.array items, rest)
  | fuel + 1, depth + 1, '\x7b' :: rest =>
    match skipBlanks rest with
    | '\x7d' :: rest => some (.table .braces [], rest)
    | rest => do
      let (pairs, rest) ← pairsWith? fuel depth rest
      return (← Value.ofPairs? pairs, rest)
  | _, _, cs => scalarValue? cs

/-- The rest of an array: items between commas, of which the last may have one behind it. -/
def itemsWith? : (fuel depth : Nat) → List Char → Option (List Value × List Char)
  | 0, _, _ => none
  | _, _, ']' :: rest => some ([], rest)
  | fuel + 1, depth, cs => do
    let (value, rest) ← valueWith? fuel depth cs
    match skipLayout false rest with
    | ']' :: rest => return ([value], rest)
    | ',' :: rest =>
      let (values, rest) ← itemsWith? fuel depth (skipLayout false rest)
      return (value :: values, rest)
    | _ => none

/-- The rest of an inline table: pairs between commas, on one line. -/
def pairsWith? : (fuel depth : Nat) → List Char → Option (List (Key × Value) × List Char)
  | 0, _, _ => none
  | fuel + 1, depth, cs => do
    let (pair, rest) ← pairWith? fuel depth cs
    match skipBlanks rest with
    | '\x7d' :: rest => return ([pair], rest)
    | ',' :: rest =>
      let (pairs, rest) ← pairsWith? fuel depth rest
      return (pair :: pairs, rest)
    | _ => none

/-- A key, an equals sign and a value. -/
def pairWith? : (fuel depth : Nat) → List Char → Option ((Key × Value) × List Char)
  | 0, _, _ => none
  | fuel + 1, depth, cs => do
    let (key, rest) ← key? cs
    let rest ← expect? '=' rest
    let (value, rest) ← valueWith? fuel depth (skipBlanks rest)
    return ((key, value), rest)

end

/-! ## Statements -/

/-- A key between brackets, or between two pairs of them. -/
def header? : List Char → Option (Statement × List Char)
  | '[' :: '[' :: rest => do
    let (key, rest) ← key? rest
    return (.arrayHeader key, ← expect? ']' (← expect? ']' rest))
  | '[' :: rest => do
    let (key, rest) ← key? rest
    return (.header key, ← expect? ']' rest)
  | _ => none

def statementWith? (fuel : Nat) (cs : List Char) : Option (Statement × List Char) :=
  header? cs <|>
    (pairWith? fuel maxDepth cs).map fun ((key, value), rest) => (.pair key value, rest)

/-- Reads statements up to the end of the text. -/
def statementsWith? : (fuel : Nat) → List Char → Option (List Statement)
  | 0, _ => none
  | fuel + 1, cs =>
    match skipLayout false cs with
    | [] => some []
    | cs => do
      let (statement, rest) ← statementWith? fuel cs
      let rest ← endOfLine? rest
      return statement :: (← statementsWith? fuel rest)

/-- Every reader takes a character, but for those of items and pairs, which leave the first one to
another; so there are at most three for each character, and one for the end of the text. -/
def statements? (cs : List Char) : Option (List Statement) :=
  statementsWith? (3 * cs.length + 4) cs

/-- A byte order mark in front of the text is no part of it. -/
def withoutMark : List Char → List Char
  | '\ufeff' :: rest => rest
  | cs => cs

def Table.parse? (text : String) : Option Table := do
  ofStatements? (← statements? (withoutMark text.toList))

end Sable.Toml
