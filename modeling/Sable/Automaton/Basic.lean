import Sable.Token.Kind

/-!
# Token automata

A deterministic automaton over characters. A state has edges for single characters, an optional
edge for every other character, and optionally a token kind that it accepts. States are numbered
in the order of their creation; the root is state 0.

Reading takes the longest prefix of the input that leads from the root to an accepting state.

## Main definitions

* `Automaton`: a nonempty array of states.
* `Automaton.addState`, `addEdge`, `setOtherwise`, `setAccepting`, `shareEdges`: construction.
* `Automaton.transition`, `Automaton.walk`: one step, and a walk along a text.
* `Automaton.readToken`: the longest accepted prefix.
-/
namespace Sable

/-- The number of a state. -/
abbrev StateId := Nat

structure AutomatonState where
  /-- The latest edge for a character comes first, and counts. -/
  edges : List (Char × StateId) := []
  otherwise : Option StateId := none
  accepting : Option TokenKind := none
  deriving Inhabited

def AutomatonState.edge? (s : AutomatonState) (c : Char) : Option StateId := s.edges.lookup c

structure Automaton where
  states : Array AutomatonState
  size_pos : 0 < states.size

/-- What a reading cuts off: the kind of a token and its length in bytes. -/
structure Munch where
  kind : TokenKind
  length : Nat
  deriving DecidableEq, Inhabited

namespace Automaton

def root : StateId := 0

/-- The automaton with a root and nothing else. -/
def initial : Automaton := ⟨#[{}], by decide⟩

instance : Inhabited Automaton := ⟨initial⟩

def size (a : Automaton) : Nat := a.states.size

def state? (a : Automaton) (s : StateId) : Option AutomatonState := a.states[s]?

/-! ## Construction -/

/-- The new state has the number `a.size`. -/
def addState (a : Automaton) (accepting : Option TokenKind) : Automaton where
  states := a.states.push { accepting }
  size_pos := by simp

/-- Changes one state; a number without a state changes nothing. -/
def update (a : Automaton) (s : StateId) (f : AutomatonState → AutomatonState) : Automaton where
  states := a.states.modify s f
  size_pos := by simpa using a.size_pos

def addEdge (a : Automaton) (source : StateId) (c : Char) (target : StateId) : Automaton :=
  a.update source fun s => { s with edges := (c, target) :: s.edges }

/-- Adds an edge for each of the characters, one after the other. -/
def addEdges (a : Automaton) (source : StateId) (cs : List Char) (target : StateId) : Automaton :=
  a.update source fun s =>
    { s with edges := cs.foldl (fun edges c => (c, target) :: edges) s.edges }

def setOtherwise (a : Automaton) (source target : StateId) : Automaton :=
  a.update source fun s => { s with otherwise := some target }

def setAccepting (a : Automaton) (s : StateId) (kind : TokenKind) : Automaton :=
  a.update s fun s => { s with accepting := some kind }

/-- Gives `target` the edges that `source` has now in place of its own. -/
def shareEdges (a : Automaton) (source target : StateId) : Automaton :=
  match a.state? source with
  | some s => a.update target fun t => { t with edges := s.edges }
  | none => a

/-! ## Walking -/

/-- An edge for the character counts before the edge for all others. -/
def transition (a : Automaton) (s : StateId) (c : Char) : Option StateId :=
  (a.state? s).bind fun state => state.edge? c <|> state.otherwise

def accepting? (a : Automaton) (s : StateId) : Option TokenKind :=
  (a.state? s).bind AutomatonState.accepting

/-- The state to which a text leads from the root. -/
def walk (a : Automaton) (cs : List Char) : Option StateId := cs.foldlM a.transition root

/-- The states that a text passes after `s`, up to the first missing edge. -/
def trace (a : Automaton) (s : StateId) : List Char → List StateId
  | [] => []
  | c :: cs =>
    match a.transition s c with
    | some next => next :: a.trace next cs
    | none => []

/-! ## Reading -/

/-- Goes on from `s`, `consumed` bytes into the input. Gives the last accepting state passed,
`best` if there is none, and how far the walk went. -/
def munch (a : Automaton) (s : StateId) (consumed : Nat) (best : Option Munch) :
    List Char → Option Munch × Nat
  | [] => (best, consumed)
  | c :: cs =>
    match a.transition s c with
    | none => (best, consumed)
    | some next =>
      let passed := consumed + c.utf8Size
      let best := match a.accepting? next with
        | some kind => some ⟨kind, passed⟩
        | none => best
      a.munch next passed best cs

/-- Where no prefix is accepted, all that was walked over is unrecognized, at least one
character. -/
def readToken (a : Automaton) : List Char → Option Munch
  | [] => none
  | c :: cs =>
    match a.munch root 0 none (c :: cs) with
    | (some best, _) => some best
    | (none, consumed) => some ⟨.unrecognized, max consumed c.utf8Size⟩

end Automaton

end Sable
