import Sable.Syntax.Tree

/-!
# Parents

A table of all nodes of a tree with their parents, by number.

## Main definitions

* `ParentMap.build`: the table of a tree, filled from a stack of trees that are still to be done.
* `ParentMap.parent?`: the parent of a node.
* `ParentMap.ancestors`: the path from the parent of a node to the root.
* `ParentMap.enclosingFunction?`: the nearest function on that path.
-/
namespace Sable

structure ParentMap where
  rows : List (Node × Option NodeId) := []
  deriving Inhabited

namespace ParentMap

/-- Takes the trees off the stack one by one and puts their children on it. A tree of the stack
stands with the number of its parent; `bound` is the number of nodes to come. -/
def link : (bound : Nat) → List (Tree × Option NodeId) → List (Node × Option NodeId)
  | 0, _ | _, [] => []
  | bound + 1, (.node n cs, parent) :: stack =>
    (n, parent) :: link bound (cs.map (·, some n.id) ++ stack)

def build (t : Tree) : ParentMap := ⟨link t.size [(t, none)]⟩

def size (m : ParentMap) : Nat := m.rows.length

def isEmpty (m : ParentMap) : Bool := m.rows.isEmpty

def row? (m : ParentMap) (id : NodeId) : Option (Node × Option NodeId) :=
  m.rows.find? (·.1.id == id)

def node? (m : ParentMap) (id : NodeId) : Option Node := (m.row? id).map (·.1)

def parent? (m : ParentMap) (id : NodeId) : Option Node :=
  ((m.row? id).bind (·.2)).bind m.node?

/-- The first `bound` nodes on the way up. -/
def ancestorsWithin (m : ParentMap) : (bound : Nat) → NodeId → List Node
  | 0, _ => []
  | bound + 1, id =>
    match m.parent? id with
    | some p => p :: m.ancestorsWithin bound p.id
    | none => []

/-- No way up is longer than the table. -/
def ancestors (m : ParentMap) (id : NodeId) : List Node := m.ancestorsWithin m.size id

def enclosingFunction? (m : ParentMap) (id : NodeId) : Option Node :=
  (m.ancestors id).find? (·.kind == .function)

end ParentMap

end Sable
