/-!
# Binary floating-point numbers

Numbers with 53 significant bits and a binary exponent of 11 bits. The 63 bits behind the sign are
kept as a natural number, the code: the codes of the finite magnitudes are in the order of the
magnitudes, without gaps, followed by infinity and by what is not a number.

## Main definitions

* `Binary64`: a sign and a code.
* `Binary64.significand`, `Binary64.exponent`: a finite magnitude is `significand * 2 ^ exponent`.
* `Binary64.roundRatio`: the code nearest to a quotient, ties going to the even code.
* `Binary64.bits`: all 64 bits.
-/
namespace Sable

/-- The number of magnitudes, `2 ^ 63`. -/
def Binary64.codeBound : Nat := 0x8000000000000000

structure Binary64 where
  negative : Bool
  code : Nat
  code_lt : code < Binary64.codeBound
  deriving DecidableEq

namespace Binary64

/-- The number of codes that share an exponent, `2 ^ 52`. -/
def binade : Nat := 0x10000000000000

def infinityCode : Nat := 2047 * binade

def infinity (negative : Bool) : Binary64 := ⟨negative, infinityCode, by decide⟩

def notANumber (negative : Bool) : Binary64 := ⟨negative, infinityCode + binade / 2, by decide⟩

def zero (negative : Bool) : Binary64 := ⟨negative, 0, by decide⟩

instance : Inhabited Binary64 := ⟨zero false⟩

def isNaN (x : Binary64) : Bool := infinityCode < x.code

def isInfinite (x : Binary64) : Bool := x.code == infinityCode

def bits (x : Binary64) : Nat := (if x.negative then codeBound else 0) + x.code

/-- The least exponent, that of the numbers next to zero. -/
def minExponent : Int := -1074

/-- The codes from one power of two to the next share an exponent and count the significands up. -/
def significand (code : Nat) : Nat :=
  if code < binade then code else binade + code % binade

def exponent (code : Nat) : Int :=
  if code < binade then minExponent else (code / binade : Nat) - 1 + minExponent

/-! ## Rounding -/

/-- The integer nearest to `num / den`, the even one of two. -/
def roundDiv (num den : Nat) : Nat :=
  let q := num / den
  let r := num % den
  if 2 * r < den ∨ (2 * r = den ∧ q % 2 = 0) then q else q + 1

/-- The exponent of the greatest power of two that is at most `num / den`. -/
def floorLog2 (num den : Nat) : Int :=
  let e : Int := (num.log2 : Int) - den.log2
  if den * Nat.pow 2 e.toNat ≤ num * Nat.pow 2 (-e).toNat then e else e - 1

/-- Rounds to 53 significant bits, or to a multiple of the least magnitude where that is coarser.
A significand that rounds up to the next power of two carries into the exponent of the code. What
is too great rounds to infinity. -/
def roundRatio (num den : Nat) : Nat :=
  if num = 0 then 0
  else
    let q := max minExponent (floorLog2 num den - 52)
    let m := roundDiv (num * Nat.pow 2 (-q).toNat) (den * Nat.pow 2 q.toNat)
    min infinityCode ((q - minExponent).toNat * binade + m)

theorem roundRatio_lt (num den : Nat) : roundRatio num den < codeBound := by
  have h : infinityCode < codeBound := by decide
  unfold roundRatio
  split
  · decide
  · exact Nat.lt_of_le_of_lt (Nat.min_le_left _ _) h

def ofRatio (negative : Bool) (num den : Nat) : Binary64 :=
  ⟨negative, roundRatio num den, roundRatio_lt num den⟩

end Binary64

end Sable
