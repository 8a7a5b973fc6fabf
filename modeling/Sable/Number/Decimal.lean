import Sable.Number.Binary64
import Sable.Number.Integer

/-!
# Decimal text of floating-point numbers

Reading is correctly rounded. Writing takes the fewest digits that read back as the number, and of
those the nearest, the upper of two that are equally near; it never writes an exponent.

## Main definitions

* `Decimal`: a sign, digits and a power of ten.
* `Decimal.read?`: reads an optional sign, digits with a point, and an optional exponent.
* `Binary64.read?`: reads a decimal, an infinity or a text for what is not a number.
* `Binary64.shortest`: the fewest digits.
* `Binary64.render`: the written form.
-/
namespace Sable

/-- `digits * 10 ^ exponent`, negated if `negative`. -/
structure Decimal where
  negative : Bool
  digits : Nat
  exponent : Int
  deriving DecidableEq, Inhabited

namespace Decimal

/-- The letter `e` in either case, an optional sign and digits; nothing is zero. -/
def readExponent? : List Char → Option Int
  | [] => some 0
  | c :: cs =>
    if c = 'e' ∨ c = 'E' then
      let (negative, rest) := Number.splitSign cs
      (Number.digits? rest).map fun n => if negative then -(n : Int) else n
    else none

/-- Digits around an optional point, at least one of them, and an optional exponent. -/
def readUnsigned? (negative : Bool) (cs : List Char) : Option Decimal :=
  let whole := cs.takeWhile Char.isDigit
  let rest := cs.dropWhile Char.isDigit
  let (fraction, rest) := match rest with
    | '.' :: rest => (rest.takeWhile Char.isDigit, rest.dropWhile Char.isDigit)
    | rest => ([], rest)
  if whole.isEmpty && fraction.isEmpty then none
  else
    (readExponent? rest).map fun e =>
      ⟨negative, Number.digitsFrom 0 (whole ++ fraction), e - fraction.length⟩

def read? (cs : List Char) : Option Decimal :=
  let (negative, rest) := Number.splitSign cs
  readUnsigned? negative rest

/-- The number of decimal digits; zero has one. -/
def digitCount (n : Nat) : Nat := (Nat.toDigits 10 n).length

/-- The nearest floating-point number. Magnitudes outside `10 ^ -400` to `10 ^ 400` are beyond the
range on either side, whatever their digits. -/
def toBinary64 (d : Decimal) : Binary64 :=
  let magnitude := digitCount d.digits + d.exponent
  if d.digits = 0 ∨ magnitude < -400 then .zero d.negative
  else if 400 < magnitude then .infinity d.negative
  else .ofRatio d.negative (d.digits * Nat.pow 10 d.exponent.toNat)
    (Nat.pow 10 (-d.exponent).toNat)

end Decimal

namespace Binary64

/-- Decimals, and the words `inf`, `infinity` and `nan` in either case, with an optional sign. -/
def read? (cs : List Char) : Option Binary64 :=
  match Decimal.read? cs with
  | some d => some d.toBinary64
  | none =>
    let (negative, rest) := Number.splitSign cs
    let word := rest.map Char.toLower
    if word = "inf".toList ∨ word = "infinity".toList then some (infinity negative)
    else if word = "nan".toList then some (notANumber negative)
    else none

/-! ## Writing -/

/-- A multiple of a power of ten, in comparisons with a multiple of a power of two. -/
def scaled (digits : Nat) (ten two : Int) : Nat :=
  digits * Nat.pow 10 ten.toNat * Nat.pow 2 two.toNat

/-- Whether `d * 10 ^ s` rounds to the magnitude of `code`: it lies between the midpoints to the
neighbours, which count if the significand is even. All is measured in quarters of `2 ^ q`, and
both sides are multiplied out to integers. -/
def readsBack (code d : Nat) (s : Int) : Bool :=
  let m := significand code
  let q := exponent code - 2
  let low := if m = binade ∧ minExponent < exponent code then 4 * m - 1 else 4 * m - 2
  let high := 4 * m + 2
  let value := scaled d s (-q)
  let low := scaled low (-s) q
  let high := scaled high (-s) q
  if m % 2 = 0 then low ≤ value && value ≤ high else low < value && value < high

/-- Whether `d + 1` is at least as near as `d`, in units of `10 ^ s`, to the magnitude of
`code`. -/
def upperIsNearer (code d : Nat) (s : Int) : Bool :=
  scaled (2 * d + 1) s (-exponent code) ≤ scaled (2 * significand code) (-s) (exponent code)

/-- The multiple of `10 ^ s` below the magnitude of `code`. -/
def floorScaled (code : Nat) (s : Int) : Nat :=
  scaled (significand code) (-s) (exponent code) / scaled 1 s (-exponent code)

/-- The nearest of the multiples of `10 ^ s` next to the magnitude that read back. -/
def onGrid? (code : Nat) (s : Int) : Option Nat :=
  let d := floorScaled code s
  match readsBack code d s, readsBack code (d + 1) s with
  | true, true => some (if upperIsNearer code d s then d + 1 else d)
  | true, false => some d
  | false, true => some (d + 1)
  | false, false => none

/-- The exponent of the greatest power of ten that is at most the magnitude of `code`, searched
downwards from `start` by at most `bound` steps. -/
def searchLog10 (code : Nat) : Nat → Int → Int
  | 0, start => start
  | bound + 1, start =>
    if 0 < floorScaled code start then start else searchLog10 code bound (start - 1)

/-- The search begins at most three above its end: the logarithm of 2 is about 0.30103, and the
exponents of two are at most 1074 away from zero. -/
def floorLog10 (code : Nat) : Int :=
  searchLog10 code 3 (((significand code).log2 + 1 + exponent code) * 30103 / 100000 + 1)

/-- Tries the grids from the coarse to the fine. Seventeen digits always read back. -/
def onGrids (code : Nat) : Nat → Int → Nat × Int
  | 0, s => (floorScaled code s, s)
  | bound + 1, s =>
    match onGrid? code s with
    | some d => (d, s)
    | none => onGrids code bound (s - 1)

/-- The fewest digits that read back as the positive magnitude of `code`, and the power of ten
that they count. Ten units of the coarsest grid are a single digit of the next. -/
def shortest (code : Nat) : Nat × Int :=
  let (d, s) := onGrids code 17 (floorLog10 code)
  if d = 10 then (1, s + 1) else (d, s)

/-- Writes `digits * 10 ^ s` without an exponent. -/
def positional (digits : Nat) (s : Int) : String :=
  let cs := Nat.toDigits 10 digits
  if 0 ≤ s then .ofList (cs ++ List.replicate s.toNat '0')
  else
    let places := (-s).toNat
    let cs := List.replicate (places + 1 - cs.length) '0' ++ cs
    .ofList (cs.take (cs.length - places) ++ '.' :: cs.drop (cs.length - places))

/-- A whole number has no point; zero keeps its sign. -/
def render (x : Binary64) : String :=
  if x.isNaN then "NaN"
  else
    let magnitude :=
      if x.isInfinite then "inf"
      else if x.code = 0 then "0"
      else
        let (digits, s) := shortest x.code
        positional digits s
    if x.negative then "-" ++ magnitude else magnitude

end Binary64

end Sable
