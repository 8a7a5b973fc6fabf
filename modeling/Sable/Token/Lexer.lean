import Sable.Automaton.Language
import Sable.Token.Basic

/-!
# Lexers

A lexer cuts a text into tokens by the automaton of its vocabulary. An identifier whose text
spells a keyword becomes that keyword. The tokens cover the text without gaps and end in an empty
end of input.

## Main definitions

* `Lexer`: a vocabulary with its automaton.
* `Lexer.readToken`: the first token of a text.
* `Lexer.tokenize`: all tokens of a text.
-/
namespace Sable

structure Lexer where
  vocabulary : Vocabulary
  automaton : Automaton
  automaton_eq : automaton = .ofVocabulary vocabulary
  file : Nat := 0

namespace Lexer

def ofVocabulary (v : Vocabulary) : Lexer := ⟨v, .ofVocabulary v, rfl, 0⟩

instance : Inhabited Lexer := ⟨ofVocabulary .standard⟩

def withFile (lexer : Lexer) (file : Nat) : Lexer := { lexer with file }

def reclassify (lexer : Lexer) (kind : TokenKind) (text : String) : TokenKind :=
  match kind with
  | .identifier => ((lexer.vocabulary.keyword? text).map .keyword).getD .identifier
  | kind => kind

def readToken (lexer : Lexer) (cs : List Char) : Option Munch :=
  (lexer.automaton.readToken cs).map fun m =>
    ⟨lexer.reclassify m.kind (.ofList (Text.slice 0 m.length cs)), m.length⟩

/-- The token of a given kind and text at `offset`. -/
def tokenAt (lexer : Lexer) (offset : Nat) (m : Munch) (text : List Char) : Token where
  kind := m.kind
  span := ⟨offset, offset + m.length, lexer.file⟩
  text := if m.kind.hasText then some (.ofList text) else none

/-- The tokens of what stands at `offset`. Each takes at least one character, so the number of
characters bounds the number of tokens before the end. -/
def tokensFrom (lexer : Lexer) : Nat → Nat → List Char → List Token
  | 0, offset, _ => [.eof offset lexer.file]
  | bound + 1, offset, cs =>
    match lexer.readToken cs with
    | none => [.eof offset lexer.file]
    | some m =>
      match Text.splitAt? m.length cs with
      | none => [.eof offset lexer.file]
      | some (text, rest) =>
        lexer.tokenAt offset m text :: lexer.tokensFrom bound (offset + m.length) rest

def tokenize (lexer : Lexer) (source : String) : List Token :=
  lexer.tokensFrom source.toList.length 0 source.toList

end Lexer

end Sable
