import Sable.Source.Span
import Sable.Syntax.Operator

/-!
# Semantic errors

What can be wrong with a unit that parses. Types are given by their names.

## Main definitions

* `SemanticError`: the causes, each with the span that it concerns.
* `SemanticError.message`: the wording.
-/
namespace Sable

inductive SemanticError
  | sameName (name : String) (span : Span)
  | symbolNotFound (name : String) (span : Span)
  | invalidIndexer (target index : String) (span : Span)
  | invalidMemberAccess (access : AccessKind) (type : String) (span : Span)
  | invalidBinaryOperator (op : BinaryOp) (left right : String) (span : Span)
  | invalidUnaryOperator (op : UnaryOp) (operand : String) (span : Span)
  | nonCallableType (type : String) (span : Span)
  | invalidCall (callee : String) (arguments : List String) (span : Span)
  | invalidCast (source target : String) (span : Span)
  | conditionExpectedBooleanOrPointer (found : String) (span : Span)
  | breakContinueOutsideLoop (span : Span)
  | typeMismatch (expected : String) (found : Option String) (span : Span)
  deriving DecidableEq, Inhabited

namespace SemanticError

def span : SemanticError → Span
  | .sameName _ s | .symbolNotFound _ s | .invalidIndexer _ _ s | .invalidMemberAccess _ _ s
  | .invalidBinaryOperator _ _ _ s | .invalidUnaryOperator _ _ s | .nonCallableType _ s
  | .invalidCall _ _ s | .invalidCast _ _ s | .conditionExpectedBooleanOrPointer _ s
  | .breakContinueOutsideLoop s | .typeMismatch _ _ s => s

/-- Argument types as a call lists them. -/
def argumentText (arguments : List String) : String := ", ".intercalate arguments

def message : SemanticError → String
  | .sameName name _ => s!"'{name}' is already defined in this scope"
  | .symbolNotFound name _ => s!"symbol '{name}' not found"
  | .invalidIndexer target index _ => s!"cannot index '{target}' with '{index}'"
  | .invalidMemberAccess access type _ => s!"invalid member access '{access.spelling}' on '{type}'"
  | .invalidBinaryOperator op left right _ =>
    s!"invalid binary operator: cannot apply {op.spelling} to '{left}' and '{right}'"
  | .invalidUnaryOperator op operand _ =>
    s!"invalid unary operator: cannot apply {op.spelling} to '{operand}'"
  | .nonCallableType type _ => s!"type '{type}' is not callable"
  | .invalidCall callee arguments _ =>
    s!"invalid call to '{callee}' with arguments ({argumentText arguments})"
  | .invalidCast source target _ => s!"cannot cast '{source}' to '{target}'"
  | .conditionExpectedBooleanOrPointer found _ =>
    s!"condition must be Boolean or a pointer, found '{found}'"
  | .breakContinueOutsideLoop _ => "break and continue must be inside a loop"
  | .typeMismatch expected (some found) _ => s!"type mismatch: expected {expected}, found {found}"
  | .typeMismatch expected none _ => s!"type mismatch: expected {expected}, found None"

end SemanticError

end Sable
