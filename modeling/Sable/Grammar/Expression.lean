import Sable.Grammar.Rule
import Sable.Number.Decimal

/-!
# The grammar of types and expressions

Assignments bind least and group to the right. The other binary operators stand on five levels and
group to the left; prefix operators bind tighter, and what follows an operand binds tightest.
Parentheses make no node.

A rule takes the rule for nested expressions as an argument. The nested ones begin behind at least
one token, so the tokens ahead bound the depth of nesting.

## Main definitions

* `Grammar.writtenType`: a name and stars.
* `Grammar.expression`: the rule of expressions.
-/
namespace Sable.Grammar

open Rule

def writtenType : Rule WrittenType := located do
  let name ← identifier
  let stars ← many (punctuator .star)
  return fun place => ⟨place, name, stars.length⟩

/-- A colon and a type. -/
def typeAnnotation : Rule WrittenType := do
  let _ ← punctuator .colon
  writtenType.required .type

/-! ## Values -/

/-- The value of a number, out of the source text; one `f` behind a float does not count. -/
def numberValue? (kind : TokenKind) (text : List Char) : Option Value :=
  match kind with
  | .integerLiteral => (Number.int64? text).map .integer
  | .floatLiteral =>
    let digits := if text.getLast? = some 'f' then text.dropLast else text
    (Binary64.read? digits).map .float
  | _ => none

/-- The value of a literal token; no number, character or string has none unless it is broken. -/
def literalValue? (s : TokenStream) (t : Token) : Option Value :=
  match t.kind with
  | .integerLiteral | .floatLiteral => numberValue? t.kind (s.textOf t.span)
  | .characterLiteral => t.text.map .character
  | .stringLiteral => t.text.map .string
  | _ => none

/-- A token with a value of its own. -/
def constant (v : Value) : Rule Expr := located fun s =>
  .accept (fun place => .value place v) s.tail

def literal (t : Token) : Rule Expr := fun s =>
  match literalValue? s t with
  | some v => constant v s
  | none => .reject s .literal

def variableName : Rule Expr := located do
  let name ← identifier
  return fun place => .value place (.identifier name)

def grouped (nested : Rule Expr) : Rule Expr := do
  let _ ← punctuator .openParen
  let inner ← nested.required .expression
  let _ ← expect .closeParen
  return inner

def value (nested : Rule Expr) : Rule Expr := fun s =>
  match s.first? with
  | none => .decline s .expression
  | some t =>
    match t.kind with
    | .integerLiteral | .floatLiteral | .characterLiteral | .stringLiteral => literal t s
    | .keyword .trueWord => constant (.boolean true) s
    | .keyword .falseWord => constant (.boolean false) s
    | .keyword .nullWord => constant .null s
    | .identifier => variableName s
    | .punctuator .openParen => grouped nested s
    | _ => .decline s .expression

/-! ## What follows an operand -/

def access (kind : AccessKind) (object : Expr) : Rule Expr := do
  let _ ← punctuator kind.punctuator
  let member ← identifier.required .identifier
  let place ← numbered (object.span.merge member.span)
  return .access place kind object member

def call (nested : Rule Expr) (callee : Expr) : Rule Expr := do
  let _ ← punctuator .openParen
  let arguments ← commaList nested .expression
  let close ← expect .closeParen
  let place ← numbered (callee.span.merge close.span)
  return .call place callee arguments

def cast (operand : Expr) : Rule Expr := do
  let _ ← keyword .asWord
  let target ← writtenType.required .type
  let place ← numbered (operand.span.merge target.place.span)
  return .cast place operand target

def index (nested : Rule Expr) (target : Expr) : Rule Expr := do
  let _ ← punctuator .openBracket
  let subscript ← nested.required .expression
  let close ← expect .closeBracket
  let place ← numbered (target.span.merge close.span)
  return .index place target subscript

/-- One operator behind an operand. -/
def suffix (nested : Rule Expr) (operand : Expr) : Rule Expr :=
  access .dot operand <|> access .arrow operand <|> call nested operand <|> cast operand <|>
    index nested operand

def postfixed (nested : Rule Expr) : Rule Expr := do
  let operand ← value nested
  iterate (suffix nested) operand

/-! ## Operators -/

/-- Prefix operators, no more than the bound is long, and an operand. -/
def unaryWithin (nested : Rule Expr) : (bound : List Token) → Rule Expr
  | [] => postfixed nested
  | _ :: bound =>
    located (do
      let op ← operator UnaryOp.ofToken?
      let operand ← (unaryWithin nested bound).required .expression
      return fun place => .unary place op operand) <|>
    postfixed nested

def unary (nested : Rule Expr) : Rule Expr := fun s => unaryWithin nested s.tokens s

/-- A binary operator that satisfies `p`. -/
def binaryOperator (p : BinaryOp → Bool) : Rule BinaryOp :=
  operator fun kind => (BinaryOp.ofToken? kind).filter p

/-- An operator and its right operand, behind the left one. -/
def binaryRest (p : BinaryOp → Bool) (operand : Rule Expr) (left : Expr) : Rule Expr := do
  let op ← binaryOperator p
  let right ← operand.required .expression
  let place ← numbered (left.span.merge right.span)
  return .binary place op left right

/-- The operators of the `levels` tightest levels. -/
def binaryWithin (nested : Rule Expr) : (levels : Nat) → Rule Expr
  | 0 => unary nested
  | levels + 1 => do
    let operand := binaryWithin nested levels
    let left ← operand
    iterate (binaryRest (·.precedence == BinaryOp.maxPrecedence - levels) operand) left

def binary (nested : Rule Expr) : Rule Expr := binaryWithin nested BinaryOp.maxPrecedence

def assignment (nested : Rule Expr) : Rule Expr := do
  let left ← binary nested
  binaryRest BinaryOp.isAssignment nested left <|> pure left

/-- Expressions inside one another, no more than the bound is long. -/
def expressionWithin : (bound : List Token) → Rule Expr
  | [] => declines .expression
  | _ :: bound => fun s => assignment (expressionWithin bound) s

def expression : Rule Expr := fun s => expressionWithin s.tokens s

end Sable.Grammar
