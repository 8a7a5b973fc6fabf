import Sable.Number.Integer
import Sable.Toml.Layout

/-!
# Dates and times of TOML

A date, a time of day, or both, to which then an offset may be added.

## Main definitions

* `Toml.Date`, `Toml.Time`, `Toml.DateTime`: days of the calendar, times of day, and points in time.
* `Toml.daysIn`: the number of days of a month.
* `Toml.dateTime?`: reads a point in time.
-/
namespace Sable.Toml

structure Date where
  year : Nat
  month : Nat
  day : Nat
  deriving DecidableEq, Inhabited

structure Time where
  hour : Nat
  minute : Nat
  second : Nat
  nanosecond : Nat := 0
  deriving DecidableEq, Inhabited

structure DateTime where
  date : Option Date := none
  time : Option Time := none
  /-- The minutes by which the clock is ahead. -/
  offset : Option Int := none
  deriving DecidableEq, Inhabited

def isLeapYear (year : Nat) : Bool := year % 4 = 0 && (year % 100 ≠ 0 || year % 400 = 0)

def daysIn (year month : Nat) : Nat :=
  if month = 2 then if isLeapYear year then 29 else 28
  else if month ∈ [4, 6, 9, 11] then 30
  else 31

/-! ## Reading -/

/-- A number of `count` digits from `low` to `high`. -/
def field? (count low high : Nat) (cs : List Char) : Option (Nat × List Char) := do
  let n ← Number.digits? (cs.take count)
  if (cs.take count).length = count ∧ low ≤ n ∧ n ≤ high then some (n, cs.drop count) else none

def date? (cs : List Char) : Option (Date × List Char) := do
  let (year, rest) ← field? 4 0 9999 cs
  let (month, rest) ← field? 2 1 12 (← expect? '-' rest)
  let (day, rest) ← field? 2 1 (daysIn year month) (← expect? '-' rest)
  return (⟨year, month, day⟩, rest)

/-- A point and digits, of which the first nine count. -/
def nanosecond? (cs : List Char) : Option (Nat × List Char) := do
  let rest ← expect? '.' cs
  let ds := rest.takeWhile Char.isDigit
  let n ← Number.digits? ((ds ++ List.replicate 9 '0').take 9)
  if ds.isEmpty then none else some (n, rest.dropWhile Char.isDigit)

/-- A minute may have a leap second. -/
def time? (cs : List Char) : Option (Time × List Char) := do
  let (hour, rest) ← field? 2 0 23 cs
  let (minute, rest) ← field? 2 0 59 (← expect? ':' rest)
  let (second, rest) ← field? 2 0 60 (← expect? ':' rest)
  let (nanosecond, rest) := (nanosecond? rest).getD (0, rest)
  return (⟨hour, minute, second, nanosecond⟩, rest)

/-- The letter `Z` in either case, or a sign, hours and minutes. -/
def offset? : List Char → Option (Int × List Char)
  | c :: rest =>
    if c = 'Z' ∨ c = 'z' then some (0, rest)
    else if c = '+' ∨ c = '-' then do
      let (hours, rest) ← field? 2 0 23 rest
      let (minutes, rest) ← field? 2 0 59 (← expect? ':' rest)
      let ahead : Int := (60 * hours + minutes : Nat)
      return (if c = '-' then -ahead else ahead, rest)
    else none
  | [] => none

/-- A space or the letter `T` in either case, and a time. -/
def timeBehind? : List Char → Option (Time × List Char)
  | c :: rest => if c = 'T' ∨ c = 't' ∨ c = ' ' then time? rest else none
  | [] => none

def dateTime? (cs : List Char) : Option (DateTime × List Char) :=
  match date? cs with
  | some (date, rest) =>
    match timeBehind? rest with
    | some (time, rest) =>
      match offset? rest with
      | some (offset, rest) => some (⟨some date, some time, some offset⟩, rest)
      | none => some (⟨some date, some time, none⟩, rest)
    | none => some (⟨some date, none, none⟩, rest)
  | none => (time? cs).map fun (time, rest) => (⟨none, some time, none⟩, rest)

end Sable.Toml
