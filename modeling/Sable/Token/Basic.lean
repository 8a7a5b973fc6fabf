import Sable.Source.File
import Sable.Token.Kind

/-!
# Tokens

A token is a kind and a span. Identifiers and literals also carry their text, so that two of them
are told apart without the source.
-/
namespace Sable

structure Token where
  kind : TokenKind
  span : Span
  text : Option String := none
  deriving DecidableEq, Inhabited

namespace Token

def isTrivia (t : Token) : Bool := t.kind.isTrivia

def isEof (t : Token) : Bool := t.kind == .eof

/-- The end of input at `offset`. -/
def eof (offset file : Nat) : Token := ⟨.eof, .empty offset file, none⟩

/-- The texts that tokens carry, each once. -/
def distinctTexts (tokens : List Token) : List String := (tokens.filterMap Token.text).eraseDups

/-- The tokens that mean something to the grammar. -/
def significant (tokens : List Token) : List Token := tokens.filter fun t => !t.isTrivia

end Token

end Sable
