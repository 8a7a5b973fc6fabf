import Sable.Number.Decimal
import Sable.Toml.Text

/-!
# Numbers of TOML

Underscores may stand between the digits of a number. A decimal number begins with a zero only if
that is its whole part.

## Main definitions

* `Toml.integer?`: reads an integer in one of four bases.
* `Toml.float?`: reads a number with a fraction or an exponent, or a word for one.
-/
namespace Sable.Toml

/-! ## Digits -/

def digit? (base : Nat) (c : Char) : Option Nat := (hexValue? c).filter (· < base)

/-- The digits behind the first one of a number. -/
def moreDigits (base : Nat) : List Char → List Nat × List Char
  | '_' :: c :: rest =>
    match digit? base c with
    | some d =>
      let (ds, rest) := moreDigits base rest
      (d :: ds, rest)
    | none => ([], '_' :: c :: rest)
  | c :: rest =>
    match digit? base c with
    | some d =>
      let (ds, rest) := moreDigits base rest
      (d :: ds, rest)
    | none => ([], c :: rest)
  | [] => ([], [])

/-- One digit or more. -/
def digits? (base : Nat) : List Char → Option (List Nat × List Char)
  | c :: rest => do
    let d ← digit? base c
    let (ds, rest) := moreDigits base rest
    return (d :: ds, rest)
  | [] => none

/-- The digits of a decimal number up to the point; behind a zero there are none. -/
def wholeDigits? : List Char → Option (List Nat × List Char)
  | '0' :: rest => some ([0], rest)
  | cs => digits? 10 cs

def valueOf (base : Nat) (ds : List Nat) : Nat := ds.foldl (fun n d => base * n + d) 0

/-! ## Integers -/

/-- The digits of an integer without a sign. -/
def unsigned? (base : Nat) (cs : List Char) : Option (Int × List Char) := do
  let (ds, rest) ← digits? base cs
  return (← Number.ofMagnitude? false (valueOf base ds), rest)

/-- Only decimal integers have a sign. All have 64 bits. -/
def integer? : List Char → Option (Int × List Char)
  | '0' :: 'x' :: rest => unsigned? 16 rest
  | '0' :: 'o' :: rest => unsigned? 8 rest
  | '0' :: 'b' :: rest => unsigned? 2 rest
  | cs => do
    let (negative, rest) := Number.splitSign cs
    let (ds, rest) ← wholeDigits? rest
    return (← Number.ofMagnitude? negative (valueOf 10 ds), rest)

/-! ## Floating-point numbers -/

/-- A point and digits. -/
def fraction? (cs : List Char) : Option (List Nat × List Char) := (expect? '.' cs).bind (digits? 10)

/-- The letter `e` in either case, an optional sign and digits. -/
def exponent? : List Char → Option (Int × List Char)
  | c :: rest =>
    if c = 'e' ∨ c = 'E' then do
      let (negative, rest) := Number.splitSign rest
      let (ds, rest) ← digits? 10 rest
      let n : Int := valueOf 10 ds
      return (if negative then -n else n, rest)
    else none
  | [] => none

/-- Digits with a fraction, an exponent or both. -/
def decimal? (cs : List Char) : Option (Decimal × List Char) := do
  let (negative, rest) := Number.splitSign cs
  let (whole, rest) ← wholeDigits? rest
  match fraction? rest with
  | some (places, rest) =>
    let (e, rest) := (exponent? rest).getD (0, rest)
    return (⟨negative, valueOf 10 (whole ++ places), e - places.length⟩, rest)
  | none =>
    let (e, rest) ← exponent? rest
    return (⟨negative, valueOf 10 whole, e⟩, rest)

/-- Decimals, and the words `inf` and `nan` with an optional sign. A decimal that is too great is no
number; one that is too far below zero is an infinity. -/
def float? (cs : List Char) : Option (Binary64 × List Char) :=
  match decimal? cs with
  | some (d, rest) =>
    let x := d.toBinary64
    if x.isInfinite && !x.negative then none else some (x, rest)
  | none =>
    match Number.splitSign cs with
    | (negative, 'i' :: 'n' :: 'f' :: rest) => some (.infinity negative, rest)
    | (negative, 'n' :: 'a' :: 'n' :: rest) => some (.notANumber negative, rest)
    | _ => none

end Sable.Toml
