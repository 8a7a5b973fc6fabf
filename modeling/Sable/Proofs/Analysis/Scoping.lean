import Sable.Analysis.Context
import Sable.Proofs.Syntax.Parents

/-!
# Scopes by the nodes around a node

The scopes that are open where a phase begins with a node, read off the tree: each of the classes,
functions and scopes around the node opens one, and in the last phase each loop does, but `while`
only around its body. A recursion that goes down the tree with the open scopes finds the same.

## Main definitions

* `Phase.enters`, `Phase.opens?`: the children that a phase goes on with, and the scopes that it
  opens around them.
* `Phase.reaches`, `Phase.scopesAt`: what this makes of the way up from a node.
* `Phase.visits`: the nodes that a phase begins with, in their order, with their scopes.
* `Tree.visits`: the same from the root downwards.

## Main statements

* `Tree.visits_eq`: both are the same.
* `Tree.visitsBelow_eq_flatMap`: where a phase opens the same scope around all children.
-/
namespace Sable

/-! ## Scopes without names -/

/-- A scope without the names that were declared in it so far. -/
def ScopeEntry.bare {σ : Type} (e : ScopeEntry σ) : ScopeEntry σ := { e with locals := .empty }

def Visit.bare (v : Visit) : Visit := { v with scopes := v.scopes.map ScopeEntry.bare }

/-- The scope of a node; the symbol of a class and of a function is the one of its node. -/
def ScopeEntry.ofNode (row : NodeId → Option SymbolId) (owner : NodeId) (kind : ScopeKind) :
    ScopeEntry SymbolId where
  kind
  owner
  symbol := match kind with
    | .function | .classBody => row owner
    | .block | .loop => none

/-! ## The way up from a node -/

namespace Phase

variable (phase : Phase) (row : NodeId → Option SymbolId)

/-- Whether a phase goes on with a child of a node. Written types are no part of the last phase, but
for those of results. Nothing inside a variable or a parameter declares a name, and neither does the
type of a result. -/
def enters (n child : Node) : Bool :=
  match phase with
  | .binding => n.kind != .variable && n.kind != .parameter &&
      (n.kind != .function || child.kind != .type)
  | .typing => child.kind != .type || n.kind == .function

/-- The scope that a phase opens in a node around a child of it. A condition of `while` is outside
of the loop. -/
def opens? (n child : Node) : Option ScopeKind :=
  match n.kind, phase with
  | .classDecl, _ => some .classBody
  | .function, _ => some .function
  | .scope, _ => some .block
  | .whileLoop, .typing => if child.kind.isExpression then none else some .loop
  | .forLoop, .typing => some .loop
  | _, _ => none

def scope? (n child : Node) : Option (ScopeEntry SymbolId) :=
  (phase.opens? n child).map (ScopeEntry.ofNode row n.id)

/-- The nodes on the way up, the nearest first, each with the child that the way comes from. -/
def steps (n : Node) (above : List Node) : List (Node × Node) := above.zip (n :: above)

theorem steps_cons (n a : Node) (above : List Node) :
    steps n (a :: above) = (a, n) :: steps a above := rfl

/-- Whether a phase gets to a node: it goes on with each child on the way. -/
def reaches (n : Node) (above : List Node) : Bool :=
  (steps n above).all fun p => phase.enters p.1 p.2

/-- The scopes on the way up, the innermost first. -/
def scopesAt (n : Node) (above : List Node) : List (ScopeEntry SymbolId) :=
  (steps n above).filterMap fun p => phase.scope? row p.1 p.2

/-- The nodes of a tree that a phase begins with, in preorder, with the scopes around them. -/
def visits (t : Tree) : List Visit :=
  ((t.paths []).filter fun p => phase.reaches p.1 p.2).map fun p =>
    ⟨phase, p.1.id, phase.scopesAt row p.1 p.2⟩

variable {phase row} {n a : Node} {above : List Node}

theorem reaches_cons :
    phase.reaches n (a :: above) = (phase.enters a n && phase.reaches a above) := rfl

theorem scopesAt_cons : phase.scopesAt row n (a :: above) =
    (phase.scope? row a n).toList ++ phase.scopesAt row a above := by
  rw [scopesAt, steps_cons, List.filterMap_cons]
  cases phase.scope? row a n <;> rfl

end Phase

/-! ## From the root downwards -/

namespace Tree

section

variable (phase : Phase) (row : NodeId → Option SymbolId)

mutual

/-- The visits of a phase to a tree, around which these scopes are open. -/
def visits (scopes : List (ScopeEntry SymbolId)) : Tree → List Visit
  | .node n cs => ⟨phase, n.id, scopes⟩ :: visitsBelow n scopes cs

/-- The visits to some children of a node. -/
def visitsBelow (n : Node) (scopes : List (ScopeEntry SymbolId)) : List Tree → List Visit
  | [] => []
  | t :: ts =>
    (if phase.enters n t.root then t.visits ((phase.scope? row n t.root).toList ++ scopes)
      else []) ++ visitsBelow n scopes ts

end

end

variable {phase : Phase} {row : NodeId → Option SymbolId}

mutual

/-- What is below a node that a phase does not get to, it does not get to either. -/
theorem reaches_of_mem_paths {n : Node} {as above : List Node} : (t : Tree) →
    (n, as) ∈ t.paths above → phase.reaches n as = true → phase.reaches t.root above = true
  | .node m cs, hmem, h => by
    rw [paths, List.mem_cons] at hmem
    rcases hmem with hmem | hmem
    · obtain ⟨rfl, rfl⟩ := Prod.mk.inj hmem
      exact h
    · exact reaches_of_mem_allPaths cs hmem h

theorem reaches_of_mem_allPaths {n m : Node} {as above : List Node} : (ts : List Tree) →
    (n, as) ∈ allPaths (m :: above) ts → phase.reaches n as = true → phase.reaches m above = true
  | [], hmem, _ => by simp [allPaths] at hmem
  | t :: ts, hmem, h => by
    rw [allPaths, List.mem_append] at hmem
    rcases hmem with hmem | hmem
    · have hroot := reaches_of_mem_paths t hmem h
      rw [Phase.reaches_cons, Bool.and_eq_true] at hroot
      exact hroot.2
    · exact reaches_of_mem_allPaths ts hmem h

end

mutual

theorem visits_of_reaches {above : List Node} : (t : Tree) →
    phase.reaches t.root above = true → t.visits phase row (phase.scopesAt row t.root above) =
      ((t.paths above).filter fun p => phase.reaches p.1 p.2).map fun p =>
        ⟨phase, p.1.id, phase.scopesAt row p.1 p.2⟩
  | .node n cs, h => by
    have hn : phase.reaches n above = true := h
    rw [paths, List.filter_cons, if_pos hn, List.map_cons, visits, ← visitsBelow_of_reaches cs hn]
    rfl

theorem visitsBelow_of_reaches {n : Node} {above : List Node} : (ts : List Tree) →
    phase.reaches n above = true → visitsBelow phase row n (phase.scopesAt row n above) ts =
      ((allPaths (n :: above) ts).filter fun p => phase.reaches p.1 p.2).map fun p =>
        ⟨phase, p.1.id, phase.scopesAt row p.1 p.2⟩
  | [], _ => rfl
  | t :: ts, h => by
    rw [allPaths, List.filter_append, List.map_append, visitsBelow, visitsBelow_of_reaches ts h]
    congr 1
    split
    · next henters =>
      rw [← Phase.scopesAt_cons]
      exact visits_of_reaches t (by rw [Phase.reaches_cons, henters, h]; rfl)
    · next henters =>
      -- the way up from below the child leads over the step that the phase does not take
      refine (List.map_eq_nil_iff.2 (List.filter_eq_nil_iff.2 fun p hp hreaches => henters ?_)).symm
      have hroot := reaches_of_mem_paths t hp hreaches
      rw [Phase.reaches_cons, Bool.and_eq_true] at hroot
      exact hroot.1

end

theorem visits_eq (phase : Phase) (row : NodeId → Option SymbolId) (t : Tree) :
    t.visits phase row [] = phase.visits row t := by
  have hroot : phase.reaches t.root [] = true := rfl
  exact visits_of_reaches t hroot

/-! ## The children of a node -/

section

variable {n : Node} {s : List (ScopeEntry SymbolId)} {ts : List Tree}

@[simp] theorem visitsBelow_nil : visitsBelow phase row n s [] = [] := rfl

theorem visitsBelow_cons {t : Tree} {o : Option ScopeKind} (henters : phase.enters n t.root = true)
    (hopens : phase.opens? n t.root = o) : visitsBelow phase row n s (t :: ts) =
      t.visits phase row ((o.map (ScopeEntry.ofNode row n.id)).toList ++ s) ++
        visitsBelow phase row n s ts := by
  rw [visitsBelow, if_pos henters, Phase.scope?, hopens]

/-- The children that are visited at all are visited in the same scopes. -/
theorem visitsBelow_eq_flatMap {o : Option ScopeKind}
    (hopens : ∀ t ∈ ts, phase.opens? n t.root = o) : visitsBelow phase row n s ts =
      (ts.filter fun t => phase.enters n t.root).flatMap
        (visits phase row ((o.map (ScopeEntry.ofNode row n.id)).toList ++ s)) := by
  induction ts with
  | nil => rfl
  | cons t ts ih =>
    rw [List.forall_mem_cons] at hopens
    rw [visitsBelow, Phase.scope?, hopens.1, ih hopens.2, List.filter_cons]
    split <;> simp

/-- None of the children is visited. -/
theorem visitsBelow_eq_nil (h : ∀ t ∈ ts, phase.enters n t.root = false) :
    visitsBelow phase row n s ts = [] := by
  induction ts with
  | nil => rfl
  | cons t ts ih =>
    rw [List.forall_mem_cons] at h
    rw [visitsBelow, if_neg (by simp [h.1]), ih h.2, List.append_nil]

mutual

/-- Around the parts of an expression the scopes are those around the whole. -/
theorem visits_binding_expr : (t : Tree) →
    (∀ n ∈ t.preorder, n.kind.isExpression = true ∨ n.kind = .type) →
    t.visits .binding row s = t.preorder.map fun n => ⟨.binding, n.id, s⟩
  | .node n cs, h => by
    rw [preorder, List.forall_mem_cons] at h
    rw [visits, preorder, List.map_cons, visitsBelow_binding_expr h.1 cs h.2]

theorem visitsBelow_binding_expr {n : Node} (hn : n.kind.isExpression = true ∨ n.kind = .type) :
    (ts : List Tree) → (∀ n ∈ preorders ts, n.kind.isExpression = true ∨ n.kind = .type) →
    visitsBelow .binding row n s ts = (preorders ts).map fun n => ⟨.binding, n.id, s⟩
  | [], _ => rfl
  | t :: ts, h => by
    rw [preorders, List.forall_mem_append] at h
    have henters : Phase.binding.enters n t.root = true := by
      cases hk : n.kind <;> simp_all [Phase.enters, NodeKind.isExpression]
    have hopens : Phase.binding.opens? n t.root = none := by
      cases hk : n.kind <;> simp_all [Phase.opens?, NodeKind.isExpression]
    rw [visitsBelow_cons henters hopens, visitsBelow_binding_expr hn ts h.2, preorders,
      List.map_append]
    exact congrArg (· ++ _) (visits_binding_expr t h.1)

end

end

end Tree

end Sable
