import Sable.Grammar.Parse
import Sable.Symbol.Error

/-!
# Diagnostics

How an error is shown beside its source: the message with line and column, a label for the marked
range, and for some errors a hint.

## Main definitions

* `Diagnostic.ofParseError`, `Diagnostic.ofSemanticError`: the diagnostic of an error.
-/
namespace Sable

structure Diagnostic where
  message : String
  label : String
  offset : Nat
  length : Nat
  help : Option String
  deriving DecidableEq, Inhabited

def ParseError.label : ParseError → String
  | .unexpectedToken expected _ _ | .prematureEnd expected _ => "expected " ++ expected.describe
  | .invalidLiteral _ => "literal out of range"

namespace SemanticError

def label : SemanticError → String
  | .sameName .. => "already defined"
  | .symbolNotFound .. => "not found in this scope"
  | .invalidIndexer .. => "not indexable"
  | .invalidMemberAccess access _ _ => s!"invalid '{access.spelling}'"
  | .invalidBinaryOperator op _ _ _ => s!"invalid operands for {op.spelling}"
  | .invalidUnaryOperator op _ _ => s!"invalid operand for {op.spelling}"
  | .nonCallableType .. => "not a function"
  | .invalidCall callee _ _ => s!"arguments do not match {callee}"
  | .invalidCast .. => "invalid cast"
  | .conditionExpectedBooleanOrPointer .. => "not a Boolean or pointer"
  | .breakContinueOutsideLoop _ => "not inside a loop"
  | .typeMismatch expected _ _ => s!"expected {expected}"

def help? : SemanticError → Option String
  | .sameName .. => some "rename or remove one of the definitions"
  | .symbolNotFound .. => some "check spelling or declare it first"
  | .invalidIndexer .. => some "index a pointer with an Integer"
  | .invalidMemberAccess .. => some "use '.' on a class value and '->' on a pointer to a class"
  | .conditionExpectedBooleanOrPointer .. => some "compare the value explicitly"
  | .breakContinueOutsideLoop _ =>
    some "break and continue can only be used inside while and for"
  | .invalidBinaryOperator .. | .invalidUnaryOperator .. | .nonCallableType .. | .invalidCall ..
  | .invalidCast .. | .typeMismatch .. => none

end SemanticError

namespace Diagnostic

/-- The position in the message is that of the start of the span. -/
def inFile (file : SourceFile) (span : Span) (message label : String) (help : Option String) :
    Diagnostic :=
  let (line, column) := file.lineCol span.start
  ⟨s!"{message} at {line}:{column}", label, span.start, span.length, help⟩

def ofParseError (file : SourceFile) (e : ParseError) : Diagnostic :=
  .inFile file e.span e.message e.label none

def ofSemanticError (file : SourceFile) (e : SemanticError) : Diagnostic :=
  .inFile file e.span e.message e.label e.help?

end Diagnostic

end Sable
