/-!
# Kinds of tokens

Keywords and punctuators are the words and signs of the language that have no content of their
own. How they are spelled is a matter of the vocabulary (`Sable.Token.Vocabulary`); the spellings
here are the standard ones, which messages use whatever the vocabulary.

## Main definitions

* `Keyword`, `Punctuator`: the fixed words and signs, in table order.
* `TokenKind`: what a token is.
* `TokenKind.describe`: how messages name a kind.
-/
namespace Sable

inductive Keyword
  | asWord | breakWord | classWord | continueWord | elseWord | falseWord | fnWord | forWord
  | gotoWord | ifWord | labelWord | nullWord | returnWord | trueWord | varWord | whileWord
  deriving DecidableEq, Inhabited

namespace Keyword

/-- Every keyword, in table order. -/
def all : List Keyword :=
  [.asWord, .breakWord, .classWord, .continueWord, .elseWord, .falseWord, .fnWord, .forWord,
    .gotoWord, .ifWord, .labelWord, .nullWord, .returnWord, .trueWord, .varWord, .whileWord]

/-- The place in the table. -/
def index (k : Keyword) : Nat := k.ctorIdx

def ofIndex? (i : Nat) : Option Keyword := all[i]?

def spelling : Keyword → String
  | .asWord => "as"
  | .breakWord => "break"
  | .classWord => "class"
  | .continueWord => "continue"
  | .elseWord => "else"
  | .falseWord => "false"
  | .fnWord => "fn"
  | .forWord => "for"
  | .gotoWord => "goto"
  | .ifWord => "if"
  | .labelWord => "label"
  | .nullWord => "null"
  | .returnWord => "return"
  | .trueWord => "true"
  | .varWord => "var"
  | .whileWord => "while"

theorem ofIndex?_index (k : Keyword) : ofIndex? k.index = some k := by cases k <;> rfl

theorem mem_all (k : Keyword) : k ∈ all := by cases k <;> decide

end Keyword

inductive Punctuator
  | openParen | closeParen | openBrace | closeBrace | openBracket | closeBracket
  | dot | arrow | comma | colon | semicolon
  | assign | plusAssign | minusAssign | starAssign | slashAssign | percentAssign
  | plus | minus | star | slash | percent | increment | decrement
  | not | andAnd | orOr | less | greater | lessEqual | greaterEqual | equal | notEqual
  | ampersand
  deriving DecidableEq, Inhabited

namespace Punctuator

/-- Every punctuator, in table order. -/
def all : List Punctuator :=
  [.openParen, .closeParen, .openBrace, .closeBrace, .openBracket, .closeBracket,
    .dot, .arrow, .comma, .colon, .semicolon,
    .assign, .plusAssign, .minusAssign, .starAssign, .slashAssign, .percentAssign,
    .plus, .minus, .star, .slash, .percent, .increment, .decrement,
    .not, .andAnd, .orOr, .less, .greater, .lessEqual, .greaterEqual, .equal, .notEqual,
    .ampersand]

/-- The place in the table. -/
def index (p : Punctuator) : Nat := p.ctorIdx

def ofIndex? (i : Nat) : Option Punctuator := all[i]?

def spelling : Punctuator → String
  | .openParen => "("
  | .closeParen => ")"
  | .openBrace => "\x7b"
  | .closeBrace => "\x7d"
  | .openBracket => "["
  | .closeBracket => "]"
  | .dot => "."
  | .arrow => "->"
  | .comma => ","
  | .colon => ":"
  | .semicolon => ";"
  | .assign => "="
  | .plusAssign => "+="
  | .minusAssign => "-="
  | .starAssign => "*="
  | .slashAssign => "/="
  | .percentAssign => "%="
  | .plus => "+"
  | .minus => "-"
  | .star => "*"
  | .slash => "/"
  | .percent => "%"
  | .increment => "++"
  | .decrement => "--"
  | .not => "!"
  | .andAnd => "&&"
  | .orOr => "||"
  | .less => "<"
  | .greater => ">"
  | .lessEqual => "<="
  | .greaterEqual => ">="
  | .equal => "=="
  | .notEqual => "!="
  | .ampersand => "&"

theorem ofIndex?_index (p : Punctuator) : ofIndex? p.index = some p := by cases p <;> rfl

theorem mem_all (p : Punctuator) : p ∈ all := by cases p <;> decide

end Punctuator

inductive TokenKind
  | whitespace
  | singleLineComment
  | multiLineComment
  | identifier
  | integerLiteral
  | floatLiteral
  | characterLiteral
  | stringLiteral
  | keyword (k : Keyword)
  | punctuator (p : Punctuator)
  | unrecognized
  | eof
  deriving DecidableEq, Inhabited

namespace TokenKind

/-- Keywords and punctuators are numbered behind the other kinds, one number being left out in
front of each of the two. -/
def code : TokenKind → Nat
  | .whitespace => 0
  | .singleLineComment => 1
  | .multiLineComment => 2
  | .identifier => 3
  | .integerLiteral => 4
  | .floatLiteral => 5
  | .characterLiteral => 6
  | .stringLiteral => 7
  | .unrecognized => 8
  | .eof => 9
  | .keyword k => 11 + k.index
  | .punctuator p => 12 + Keyword.all.length + p.index

def isLiteral : TokenKind → Bool
  | .integerLiteral | .floatLiteral | .characterLiteral | .stringLiteral => true
  | _ => false

/-- Trivia separates tokens and means nothing to the grammar. -/
def isTrivia : TokenKind → Bool
  | .whitespace | .singleLineComment | .multiLineComment => true
  | _ => false

/-- The kinds whose tokens differ by their text. -/
def hasText : TokenKind → Bool
  | .identifier => true
  | kind => kind.isLiteral

def describe : TokenKind → String
  | .whitespace => "whitespace"
  | .singleLineComment | .multiLineComment => "comment"
  | .identifier => "identifier"
  | .integerLiteral => "integer literal"
  | .floatLiteral => "float literal"
  | .characterLiteral => "character literal"
  | .stringLiteral => "string literal"
  | .keyword k => "'" ++ k.spelling ++ "'"
  | .punctuator p => "'" ++ p.spelling ++ "'"
  | .unrecognized => "unrecognized input"
  | .eof => "end of input"

end TokenKind

end Sable
