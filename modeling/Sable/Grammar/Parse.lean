import Sable.Grammar.Declaration

/-!
# Parsing

Parsing leaves trivia out and numbers the nodes from 0. It stops at the first error.

## Main definitions

* `ParseError`: why a list of tokens is not a unit or an expression.
* `Block.parse`, `Expr.parse`: the unit or the expression that tokens spell.
-/
namespace Sable

inductive ParseError
  | unexpectedToken (expected : Expected) (found : TokenKind) (span : Span)
  | prematureEnd (expected : Expected) (span : Span)
  | invalidLiteral (span : Span)
  deriving DecidableEq, Inhabited

namespace ParseError

def span : ParseError → Span
  | .unexpectedToken _ _ span | .prematureEnd _ span | .invalidLiteral span => span

def message : ParseError → String
  | .unexpectedToken expected found _ => s!"expected {expected.describe}, found {found.describe}"
  | .prematureEnd expected _ => s!"expected {expected.describe}, found end of input"
  | .invalidLiteral _ => "invalid literal"

/-- The error of a rule that stopped at a position. -/
def ofPosition (s : TokenStream) (expected : Expected) : ParseError :=
  if expected = .literal then .invalidLiteral s.currentSpan
  else
    match s.firstKind? with
    | none | some .eof => .prematureEnd expected s.currentSpan
    | some found => .unexpectedToken expected found s.currentSpan

end ParseError

/-- What a rule read, and where it stopped. -/
def Reply.result {α : Type} : Reply α → Except ParseError (α × TokenStream)
  | .accept x rest => .ok (x, rest)
  | .decline s e | .reject s e => .error (.ofPosition s e)

def Block.parse (tokens : List Token) (source : String) : Except ParseError Block :=
  ((Grammar.block (.ofTokens (Token.significant tokens) source)).result).map (·.1)

/-- Nothing but the end of the input may follow the expression. -/
def Expr.parse (tokens : List Token) (source : String) : Except ParseError Expr := do
  let stream := .ofTokens (Token.significant tokens) source
  let (e, rest) ← ((Grammar.expression.required .expression) stream).result
  if rest.atEnd then return e
  else throw (.ofPosition rest (.token .eof))

end Sable
