/-!
# Decimal integers

## Main definitions

* `Number.digits?`: the value of a run of decimal digits.
* `Number.ofMagnitude?`: the range of 64 bits.
* `Number.int64?`: reads a signed integer of 64 bits.
-/
namespace Sable.Number

def digitValue (c : Char) : Nat := c.toNat - '0'.toNat

/-- The value of a text of digits, read behind digits of value `high`. -/
def digitsFrom (high : Nat) (cs : List Char) : Nat :=
  cs.foldl (fun n c => 10 * n + digitValue c) high

/-- The value of a nonempty text of decimal digits. -/
def digits? (cs : List Char) : Option Nat :=
  if cs.isEmpty || !cs.all Char.isDigit then none else some (digitsFrom 0 cs)

/-- A leading sign, if there is one, and the rest. -/
def splitSign : List Char → Bool × List Char
  | '-' :: rest => (true, rest)
  | '+' :: rest => (false, rest)
  | rest => (false, rest)

/-- `2 ^ 63`, the magnitude of the least integer of 64 bits. -/
def int64Bound : Nat := 0x8000000000000000

/-- The integer of 64 bits with a given sign and magnitude. -/
def ofMagnitude? (negative : Bool) (n : Nat) : Option Int :=
  if negative then if n ≤ int64Bound then some (-n) else none
  else if n < int64Bound then some n else none

/-- An optional sign and decimal digits, from `-2 ^ 63` to `2 ^ 63 - 1`. -/
def int64? (cs : List Char) : Option Int :=
  let (negative, rest) := splitSign cs
  (digits? rest).bind (ofMagnitude? negative)

end Sable.Number
