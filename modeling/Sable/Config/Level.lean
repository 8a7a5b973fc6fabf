import Sable.Number.Integer

/-!
# Log levels

## Main definitions

* `LogLevel`: how much a program logs.
* `LogLevel.parse?`: reads a level, which is written as a name or as a number.
-/
namespace Sable

inductive LogLevel
  | error
  | warn
  | info
  | debug
  | trace
  deriving DecidableEq, Inhabited

namespace LogLevel

/-- The levels from the one that logs least to the one that logs most. -/
def all : List LogLevel := [.error, .warn, .info, .debug, .trace]

def name : LogLevel → String
  | .error => "error"
  | .warn => "warn"
  | .info => "info"
  | .debug => "debug"
  | .trace => "trace"

/-- The level of a number, counted from one; a plus sign may stand in front of it. -/
def ofNumber? (cs : List Char) : Option LogLevel := do
  match ← Number.digits? (if cs.head? = some '+' then cs.tail else cs) with
  | 0 => none
  | n + 1 => all[n]?

/-- A number, or a name in letters of either case. -/
def parse? (text : String) : Option LogLevel :=
  ofNumber? text.toList <|> all.find? fun level => level.name = text.toLower

end LogLevel

end Sable
