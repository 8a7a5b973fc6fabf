import Sable.Token.Kind

/-!
# Operators

## Main definitions

* `BinaryOp`, `UnaryOp`, `AccessKind`: the operators of expressions.
* `BinaryOp.precedence`: how tightly a binary operator binds, from 0 to 5.
* `BinaryOp.ofToken?`, `UnaryOp.ofToken?`: the operator that a token stands for.
-/
namespace Sable

inductive BinaryOp
  | assign | addAssign | subAssign | mulAssign | divAssign | modAssign
  | or | and
  | less | greater | lessEqual | greaterEqual | equal | notEqual
  | add | sub | mul | div | mod
  deriving DecidableEq, Inhabited

namespace BinaryOp

def all : List BinaryOp :=
  [.assign, .addAssign, .subAssign, .mulAssign, .divAssign, .modAssign, .or, .and,
    .less, .greater, .lessEqual, .greaterEqual, .equal, .notEqual, .add, .sub, .mul, .div, .mod]

/-- The precedence of the tightest binary operators. -/
def maxPrecedence : Nat := 5

def precedence : BinaryOp → Nat
  | .assign | .addAssign | .subAssign | .mulAssign | .divAssign | .modAssign => 0
  | .or => 1
  | .and => 2
  | .less | .greater | .lessEqual | .greaterEqual | .equal | .notEqual => 3
  | .add | .sub => 4
  | .mul | .div | .mod => 5

def punctuator : BinaryOp → Punctuator
  | .assign => .assign
  | .addAssign => .plusAssign
  | .subAssign => .minusAssign
  | .mulAssign => .starAssign
  | .divAssign => .slashAssign
  | .modAssign => .percentAssign
  | .or => .orOr
  | .and => .andAnd
  | .less => .less
  | .greater => .greater
  | .lessEqual => .lessEqual
  | .greaterEqual => .greaterEqual
  | .equal => .equal
  | .notEqual => .notEqual
  | .add => .plus
  | .sub => .minus
  | .mul => .star
  | .div => .slash
  | .mod => .percent

def spelling (op : BinaryOp) : String := op.punctuator.spelling

def ofToken? : TokenKind → Option BinaryOp
  | .punctuator p => all.find? (·.punctuator == p)
  | _ => none

def isAssignment (op : BinaryOp) : Bool := op.precedence == 0

def isComparison (op : BinaryOp) : Bool := op.precedence == 3

def isLogical : BinaryOp → Bool
  | .or | .and => true
  | _ => false

/-- The arithmetic operator that a compound assignment applies. -/
def compound? : BinaryOp → Option BinaryOp
  | .addAssign => some .add
  | .subAssign => some .sub
  | .mulAssign => some .mul
  | .divAssign => some .div
  | .modAssign => some .mod
  | _ => none

theorem ofToken?_punctuator (op : BinaryOp) : ofToken? (.punctuator op.punctuator) = some op := by
  cases op <;> rfl

end BinaryOp

inductive UnaryOp
  | deref | plus | negate | increment | decrement | not | addressOf
  deriving DecidableEq, Inhabited

namespace UnaryOp

def all : List UnaryOp := [.deref, .plus, .negate, .increment, .decrement, .not, .addressOf]

def punctuator : UnaryOp → Punctuator
  | .deref => .star
  | .plus => .plus
  | .negate => .minus
  | .increment => .increment
  | .decrement => .decrement
  | .not => .not
  | .addressOf => .ampersand

def spelling (op : UnaryOp) : String := op.punctuator.spelling

def ofToken? : TokenKind → Option UnaryOp
  | .punctuator p => all.find? (·.punctuator == p)
  | _ => none

theorem ofToken?_punctuator (op : UnaryOp) : ofToken? (.punctuator op.punctuator) = some op := by
  cases op <;> rfl

end UnaryOp

/-- Members of a value are accessed by a dot, members behind a pointer by an arrow. -/
inductive AccessKind
  | dot | arrow
  deriving DecidableEq, Inhabited

def AccessKind.punctuator : AccessKind → Punctuator
  | .dot => .dot
  | .arrow => .arrow

def AccessKind.spelling (k : AccessKind) : String := k.punctuator.spelling

end Sable
