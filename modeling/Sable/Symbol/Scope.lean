import Sable.OrderedMap
import Sable.Syntax.Basic

/-!
# Scope stacks

The scopes that are open at a point of a unit, the innermost on top. Functions and classes are
boundaries: look-up ends at the nearest one, and it is there that declarations register.

## Main definitions

* `ScopeEntry`: an open scope with the names declared in it so far.
* `ScopeStack`: the open scopes.
* `ScopeStack.lookup?`: what a name denotes.
-/
namespace Sable

inductive ScopeKind
  | block | classBody | function | loop
  deriving DecidableEq, Inhabited

/-- A scope of the node `owner`; functions and classes come with their symbol. -/
structure ScopeEntry (σ : Type) where
  kind : ScopeKind
  owner : NodeId
  symbol : Option σ
  locals : OrderedMap String σ := .empty
  deriving Inhabited

def ScopeEntry.isBoundary {σ : Type} (e : ScopeEntry σ) : Bool :=
  e.kind == .function || e.kind == .classBody

/-- The top comes first. -/
structure ScopeStack (σ : Type) where
  entries : List (ScopeEntry σ) := []
  deriving Inhabited

namespace ScopeStack

variable {σ : Type}

def push (s : ScopeStack σ) (kind : ScopeKind) (owner : NodeId) (symbol : Option σ) :
    ScopeStack σ :=
  ⟨{ kind, owner, symbol } :: s.entries⟩

def pop (s : ScopeStack σ) : ScopeStack σ := ⟨s.entries.tail⟩

def top? (s : ScopeStack σ) : Option (ScopeEntry σ) := s.entries.head?

def isEmpty (s : ScopeStack σ) : Bool := s.entries.isEmpty

def depth (s : ScopeStack σ) : Nat := s.entries.length

/-- Outside of all scopes nothing is declared. -/
def declare (s : ScopeStack σ) (name : String) (symbol : σ) : ScopeStack σ :=
  match s.entries with
  | [] => s
  | e :: es => ⟨{ e with locals := e.locals.insert name symbol } :: es⟩

/-- Whether a loop is open inside the nearest function. -/
def inLoop (s : ScopeStack σ) : Bool :=
  (s.entries.takeWhile (·.kind != .function)).any (·.kind == .loop)

def nearestFunction? (s : ScopeStack σ) : Option σ :=
  (s.entries.find? (·.kind == .function)).bind (·.symbol)

/-- The scope whose owner a declaration belongs to. -/
def registrationTarget? (s : ScopeStack σ) : Option (ScopeEntry σ) :=
  s.entries.find? (·.isBoundary)

/-- The innermost declaration up to the nearest boundary. -/
def lookupIn (name : String) : List (ScopeEntry σ) → Option σ
  | [] => none
  | e :: es =>
    match e.locals.get? name with
    | some symbol => some symbol
    | none => if e.isBoundary then none else lookupIn name es

def lookup? (s : ScopeStack σ) (name : String) : Option σ := lookupIn name s.entries

end ScopeStack

end Sable
