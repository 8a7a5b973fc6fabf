import Sable.Syntax.Basic
import Sable.Token.Basic

/-!
# Token streams

A stream is a position in a list of tokens, together with the source text, out of which the values
of numbers are read, and with the number that the next finished node gets.

## Main definitions

* `TokenStream`: the tokens ahead, how many lie behind, and the next number.
* `TokenStream.tail`, `TokenStream.take`: what follows the first token, and what comes first.
* `TokenStream.backTo`: going back to an earlier position.
* `TokenStream.spanSince`: the span of the tokens from one position to another.
-/
namespace Sable

structure TokenStream where
  tokens : List Token
  source : List Char
  start : Nat := 0
  nextId : NodeId := 0
  deriving DecidableEq, Inhabited

namespace TokenStream

def ofTokens (tokens : List Token) (source : String) : TokenStream :=
  { tokens, source := source.toList }

def first? (s : TokenStream) : Option Token := s.tokens.head?

def firstKind? (s : TokenStream) : Option TokenKind := s.first?.map Token.kind

def isEmpty (s : TokenStream) : Bool := s.tokens.isEmpty

/-- Whether nothing is left to read. -/
def atEnd (s : TokenStream) : Bool :=
  match s.firstKind? with
  | none | some .eof => true
  | some _ => false

def currentSpan (s : TokenStream) : Span := (s.first?.map Token.span).getD .dummy

/-- Reads over the first token; an empty stream stays as it is. -/
def tail (s : TokenStream) : TokenStream :=
  match s.tokens with
  | [] => s
  | _ :: rest => { s with tokens := rest, start := s.start + 1 }

/-- Reads over up to `n` tokens. -/
def advance (s : TokenStream) (n : Nat) : TokenStream :=
  { s with
    tokens := s.tokens.drop n
    start := s.start + min n s.tokens.length }

/-- Cuts the stream off behind `n` tokens. -/
def take (s : TokenStream) (n : Nat) : TokenStream := { s with tokens := s.tokens.take n }

def drawId (s : TokenStream) : TokenStream := { s with nextId := s.nextId + 1 }

/-- The earlier position `s` again. The numbers that were drawn since stay drawn. -/
def backTo (later s : TokenStream) : TokenStream := { s with nextId := later.nextId }

/-- The source text of a span. -/
def textOf (s : TokenStream) (span : Span) : List Char :=
  Text.slice span.start span.stop s.source

/-- Covers the tokens that were read since `earlier`. If there are none, the span is empty and
stands in front of the first token. -/
def spanSince (s earlier : TokenStream) : Span :=
  match earlier.first? with
  | none => .dummy
  | some first =>
    match s.start - earlier.start with
    | 0 => .empty first.span.start first.span.file
    | n + 1 =>
      match earlier.tokens[n]? with
      | some last => first.span.merge last.span
      | none => .empty first.span.start first.span.file

end TokenStream

end Sable
