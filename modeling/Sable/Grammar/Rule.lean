import Sable.Grammar.Stream

/-!
# Grammar rules

A rule reads a prefix of a token stream. It accepts, or it declines, so that another rule may be
tried, or it rejects, which ends all reading. A node gets its number when its rule has read all of
it. Numbers are not given back: what is tried where a rule has declined goes on with the number that
the declining rule has come to.

## Main definitions

* `Expected`: what a rule looked for in vain.
* `Reply`, `Rule`: the three answers, and the functions that give them.
* `Rule.required`: turns declining into rejection.
* `Rule.many`, `Rule.iterate`, `Rule.commaList`: repetition.
* `Rule.located`: finishes a node.
-/
namespace Sable

inductive Expected
  | token (kind : TokenKind)
  | identifier
  | expression
  | type
  | scope
  | declaration
  | literal
  /-- A repeated rule accepted without reading anything. -/
  | progress
  deriving DecidableEq, Inhabited

def Expected.describe : Expected → String
  | .token kind => kind.describe
  | .identifier => "identifier"
  | .expression => "expression"
  | .type => "type"
  | .scope => (TokenKind.punctuator .openBrace).describe
  | .declaration => "class, function or variable declaration"
  | .literal => "valid literal"
  | .progress => "progress"

inductive Reply (α : Type)
  | accept (value : α) (rest : TokenStream)
  | decline (position : TokenStream) (expected : Expected)
  | reject (position : TokenStream) (expected : Expected)
  deriving Inhabited

def Reply.map {α β : Type} (f : α → β) : Reply α → Reply β
  | .accept x rest => .accept (f x) rest
  | .decline s e => .decline s e
  | .reject s e => .reject s e

def Rule (α : Type) := TokenStream → Reply α

namespace Rule

variable {α β : Type}

instance : Inhabited (Rule α) := ⟨fun s => .decline s .progress⟩

instance : Monad Rule where
  pure x := fun s => .accept x s
  bind r f := fun s =>
    match r s with
    | .accept x rest => f x rest
    | .decline s e => .decline s e
    | .reject s e => .reject s e

def declines (e : Expected) : Rule α := fun s => .decline s e

def rejects (e : Expected) : Rule α := fun s => .reject s e

/-- Tries the second rule where the first declines. -/
def orElse (r : Rule α) (other : Unit → Rule α) : Rule α := fun s =>
  match r s with
  | .decline p _ => other () (p.backTo s)
  | reply => reply

instance : OrElse (Rule α) := ⟨orElse⟩

/-- Accepts nothing where the rule declines. -/
def optional (r : Rule α) : Rule (Option α) := fun s =>
  match r s with
  | .accept x rest => .accept (some x) rest
  | .decline p _ => .accept none (p.backTo s)
  | .reject s e => .reject s e

/-- Rejects where the rule declines, at the position in front of the rule. -/
def required (r : Rule α) (e : Expected) : Rule α := fun s =>
  match r s with
  | .decline .. => .reject s e
  | reply => reply

/-! ## Tokens -/

def token (kind : TokenKind) : Rule Token := fun s =>
  match s.first? with
  | some t => if t.kind = kind then .accept t s.tail else .decline s (.token kind)
  | none => .decline s (.token kind)

def keyword (k : Keyword) : Rule Token := token (.keyword k)

def punctuator (p : Punctuator) : Rule Token := token (.punctuator p)

/-- A punctuator that must stand here. -/
def expect (p : Punctuator) : Rule Token :=
  (punctuator p).required (.token (.punctuator p))

/-- An identifier counts only with its text. -/
def identifier : Rule Ident := fun s =>
  match s.first? with
  | some ⟨.identifier, span, some name⟩ => .accept ⟨name, span⟩ s.tail
  | _ => .decline s .identifier

/-- The operator that the next token stands for. -/
def operator {Op : Type} (ofToken? : TokenKind → Option Op) : Rule Op := fun s =>
  match s.firstKind?.bind ofToken? with
  | some op => .accept op s.tail
  | none => .decline s .expression

/-! ## Nodes -/

/-- Draws the number of a node whose span is known. -/
def numbered (span : Span) : Rule Place := fun s => .accept ⟨s.nextId, span⟩ s.drawId

/-- Finishes a node that covers all the tokens of its rule. -/
def located (r : Rule (Place → α)) : Rule α := fun s =>
  match r s with
  | .accept build rest => .accept (build ⟨rest.nextId, rest.spanSince s⟩) rest.drawId
  | .decline s e => .decline s e
  | .reject s e => .reject s e

/-! ## Repetition

A repeated rule reads a token each time, so the tokens ahead bound the repetition: each time one of
them is taken off the bound. -/

/-- Stops with `progress` if the rule accepts without reading a token. -/
def manyWithin (r : Rule α) : (bound : List Token) → Rule (List α)
  | [] => fun s =>
    match r s with
    | .accept _ rest => .decline (rest.backTo s) .progress
    | .decline p _ => .accept [] (p.backTo s)
    | .reject s e => .reject s e
  | _ :: bound => fun s =>
    match r s with
    | .accept x rest =>
      if rest.start = s.start then .decline (rest.backTo s) .progress
      else (manyWithin r bound rest).map (x :: ·)
    | .decline p _ => .accept [] (p.backTo s)
    | .reject s e => .reject s e

/-- The rule as often as it accepts. -/
def many (r : Rule α) : Rule (List α) := fun s => manyWithin r s.tokens s

def iterateWithin (step : α → Rule α) : (bound : List Token) → α → Rule α
  | [], x => pure x
  | _ :: bound, x => fun s =>
    match step x s with
    | .accept y rest => iterateWithin step bound y rest
    | .decline p _ => .accept x (p.backTo s)
    | .reject s e => .reject s e

/-- Extends `x` by the step as often as the step accepts. -/
def iterate (step : α → Rule α) (x : α) : Rule α := fun s => iterateWithin step s.tokens x s

/-- Elements between commas, or nothing. A comma requires an element behind it. -/
def commaList (element : Rule α) (e : Expected) : Rule (List α) := fun s =>
  match element s with
  | .accept x rest =>
    (many (do let _ ← punctuator .comma; element.required e) rest).map (x :: ·)
  | .decline p _ => .accept [] (p.backTo s)
  | .reject s e => .reject s e

end Rule

end Sable
