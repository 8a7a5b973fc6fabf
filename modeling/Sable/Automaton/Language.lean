import Sable.Automaton.Basic
import Sable.Token.Vocabulary

/-!
# The automaton of a vocabulary

Only the punctuators depend on the vocabulary. The parts are laid over one another in a fixed
order, and a later edge replaces an earlier one: punctuators come before comments, which hang on
the state of `/`, and the edge for all other characters, which starts an identifier, comes before
the edges of digits and quotes.

## Main definitions

* `Automaton.ofVocabulary`: recognizes whitespace, comments, punctuators, identifiers, numbers and
  quoted literals.
-/
namespace Sable.Automaton

/-- A step of a construction. -/
abbrev Builder := StateM Automaton

namespace Builder

def newState (accepting : Option TokenKind) : Builder StateId :=
  modifyGet fun a => (a.size, a.addState accepting)

def edges (source : StateId) (cs : List Char) (target : StateId) : Builder Unit :=
  modify fun a => a.addEdges source cs target

def otherwise (source target : StateId) : Builder Unit :=
  modify fun a => a.setOtherwise source target

/-- Follows the edge for `c`, or adds one to a new state that accepts nothing. -/
def follow (source : StateId) (c : Char) : Builder StateId := do
  match ((← get).state? source).bind (·.edge? c) with
  | some next => return next
  | none =>
    let next ← newState none
    edges source [c] next
    return next

def blanks : List Char := [' ', '\t', '\r', '\n']

/-- The characters from one to another. -/
def between (first last : Char) : List Char :=
  (List.range' first.toNat (last.toNat + 1 - first.toNat)).map Char.ofNat

def digits : List Char := between '0' '9'

def letters : List Char := between 'a' 'z' ++ between 'A' 'Z'

/-- The characters that may follow a backslash. -/
def escapes : List Char := ['n', 'r', 't', '\'', '"']

def whitespace : Builder Unit := do
  let run ← newState (some .whitespace)
  edges root blanks run
  modify fun a => a.shareEdges root run

/-- Spells out one punctuator from the root. -/
def punctuator (spelling : List Char) (p : Punctuator) : Builder Unit := do
  let last ← spelling.foldlM follow root
  modify fun a => a.setAccepting last (.punctuator p)

def punctuators (v : Vocabulary) : Builder Unit :=
  Punctuator.all.forM fun p => punctuator (v.punctuatorSpelling p).toList p

/-- A line comment stops in front of the end of the line. A block comment needs its end. -/
def comments : Builder Unit := do
  let slash ← follow root '/'
  let line ← newState (some .singleLineComment)
  edges slash ['/'] line
  otherwise line line
  let lineEnd ← newState none
  edges line ['\r', '\n'] lineEnd
  let block ← newState none
  edges slash ['*'] block
  otherwise block block
  let star ← newState none
  edges block ['*'] star
  edges star ['*'] star
  otherwise star block
  let close ← newState (some .multiLineComment)
  edges star ['/'] close

/-- Any character without an edge of its own may begin an identifier. -/
def identifiers : Builder Unit := do
  let word ← newState (some .identifier)
  otherwise root word
  edges word letters word
  edges word (digits ++ ['_']) word

def numbers : Builder Unit := do
  let integer ← newState (some .integerLiteral)
  edges root digits integer
  edges integer digits integer
  let point ← newState none
  edges integer ['.'] point
  let fraction ← newState (some .floatLiteral)
  edges point digits fraction
  edges fraction digits fraction
  let mark ← newState none
  edges fraction ['e', 'E'] mark
  let sign ← newState none
  edges mark ['+', '-'] sign
  let exponent ← newState (some .floatLiteral)
  edges mark digits exponent
  edges sign digits exponent
  edges exponent digits exponent
  let suffix ← newState (some .floatLiteral)
  edges fraction ['f'] suffix
  edges exponent ['f'] suffix

def quoted (quote : Char) (kind : TokenKind) : Builder Unit := do
  let body ← newState none
  edges root [quote] body
  otherwise body body
  let close ← newState (some kind)
  edges body [quote] close
  let escape ← newState none
  edges body ['\\'] escape
  edges escape escapes body

def language (v : Vocabulary) : Builder Unit := do
  whitespace
  punctuators v
  comments
  identifiers
  numbers
  quoted '\'' .characterLiteral
  quoted '"' .stringLiteral

end Builder

def ofVocabulary (v : Vocabulary) : Automaton := ((Builder.language v).run initial).2

end Sable.Automaton
