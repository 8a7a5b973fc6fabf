import Sable.Proofs.Typing.Nodes

/-!
# Declarations in front of a place

The nodes around a place hold the parameters and variables that they declare themselves. What the
scopes of a check declare is just that: what the scopes, loops, functions and classes around the
place declare in front of it, up to the innermost function or class.

## Main definitions

* `Frame`: what one of the nodes around a place declares in front of it.
* `Tree.placed`: all nodes of a tree, each with the frames at its place.
* `Frame.find?`: the declaration that a name means.

## Main statements

* `Block.map_place_exprs`: the locals of all expressions of a unit are the frames at their places.
-/
namespace Sable

/-- Names and the nodes that declare them, in the order of the text. -/
abbrev Frame := List (String × NodeId)

/-- The latest declaration in the innermost frame that has one. -/
def Frame.find? (frames : List Frame) (name : String) : Option NodeId :=
  frames.findSome? fun frame => frame.reverse.lookup name

namespace Node

/-- The name that a parameter or a variable gets. -/
def entry? (n : Node) : Option (String × NodeId) :=
  match n.head with
  | .parameter name | .variable name => some (name.name, n.id)
  | _ => none

/-- The frames in a child of the node, which stands behind the children `before`. What is declared
around a function or a class is not known inside. -/
def frames (n : Node) (outer : List Frame) (before : List Node) : List Frame :=
  match n.kind with
  | .scope | .forLoop => before.filterMap entry? :: outer
  | .function | .classDecl => [before.filterMap entry?]
  | _ => outer

end Node

namespace Tree

mutual

/-- The nodes in preorder, each with the frames at its place. -/
def placed (outer : List Frame) : Tree → List (Node × List Frame)
  | .node n cs => (n, outer) :: allPlaced n outer [] cs

/-- The same for the children of a node that stand behind the children `before`. -/
def allPlaced (n : Node) (outer : List Frame) (before : List Node) :
    List Tree → List (Node × List Frame)
  | [] => []
  | t :: ts => t.placed (n.frames outer before) ++ allPlaced n outer (before ++ [t.root]) ts

end

mutual

/-- Every node has its place. -/
theorem map_fst_placed (outer : List Frame) : (t : Tree) →
    (t.placed outer).map Prod.fst = t.preorder
  | .node n cs => by rw [placed, preorder, List.map_cons, map_fst_allPlaced]

theorem map_fst_allPlaced (n : Node) (outer : List Frame) (before : List Node) : (ts : List Tree) →
    (allPlaced n outer before ts).map Prod.fst = preorders ts
  | [] => rfl
  | t :: ts => by rw [allPlaced, preorders, List.map_append, map_fst_placed, map_fst_allPlaced]

end

theorem allPlaced_append (n : Node) (outer : List Frame) (before : List Node) (ts us : List Tree) :
    allPlaced n outer before (ts ++ us) =
      allPlaced n outer before ts ++ allPlaced n outer (before ++ ts.map root) us := by
  induction ts generalizing before with
  | nil => simp [allPlaced]
  | cons t ts ih => simp [allPlaced, ih]

/-- The expressions of a tree, each with the frames at its place. -/
def placedExpressions (outer : List Frame) (t : Tree) : List (Node × List Frame) :=
  (t.placed outer).filter (·.1.kind.isExpression)

def allPlacedExpressions (n : Node) (outer : List Frame) (before : List Node) (ts : List Tree) :
    List (Node × List Frame) :=
  (allPlaced n outer before ts).filter (·.1.kind.isExpression)

theorem placedExpressions_node (outer : List Frame) (n : Node) (ts : List Tree) :
    (node n ts).placedExpressions outer = if n.kind.isExpression then
      (n, outer) :: allPlacedExpressions n outer [] ts else allPlacedExpressions n outer [] ts := by
  rw [placedExpressions, placed, List.filter_cons]
  rfl

@[simp] theorem allPlacedExpressions_nil (n : Node) (outer : List Frame) (before : List Node) :
    allPlacedExpressions n outer before [] = [] := rfl

@[simp] theorem allPlacedExpressions_cons (n : Node) (outer : List Frame) (before : List Node)
    (t : Tree) (ts : List Tree) : allPlacedExpressions n outer before (t :: ts) =
      t.placedExpressions (n.frames outer before) ++
        allPlacedExpressions n outer (before ++ [t.root]) ts := by
  rw [allPlacedExpressions, allPlaced, List.filter_append]
  rfl

@[simp] theorem allPlacedExpressions_append (n : Node) (outer : List Frame) (before : List Node)
    (ts us : List Tree) : allPlacedExpressions n outer before (ts ++ us) =
      allPlacedExpressions n outer before ts ++
        allPlacedExpressions n outer (before ++ ts.map root) us := by
  rw [allPlacedExpressions, allPlaced_append, List.filter_append]
  rfl

end Tree

open Sable.Tree

/-! ## Locals as frames -/

def Local.entry (l : Local) : String × NodeId := (l.name, l.node)

def Locals.frames (Γ : Locals) : List Frame := Γ.map fun scope => (scope.map Local.entry).reverse

@[simp] theorem Locals.frames_nil : Locals.frames [] = [] := rfl

@[simp] theorem Locals.frames_cons (scope : List Local) (Γ : Locals) :
    Locals.frames (scope :: Γ) = (scope.map Local.entry).reverse :: Locals.frames Γ := rfl

/-- A name means the same in the scopes and in the frames. -/
theorem Locals.find?_frames (Γ : Locals) (name : String) :
    Frame.find? Γ.frames name = (Γ.lookup? name).map Local.node := by
  have hscope : ∀ scope : List Local,
      (scope.map Local.entry).lookup name = (scope.find? (·.name == name)).map Local.node := by
    intro scope
    induction scope with
    | nil => rfl
    | cons l scope ih =>
      rw [List.map_cons, Local.entry, List.lookup_cons, List.find?_cons, ih, BEq.comm]
      split <;> rfl
  induction Γ with
  | nil => rfl
  | cons scope Γ ih =>
    rw [lookup?, List.findSome?_cons, Frame.find?, frames_cons, List.findSome?_cons,
      List.reverse_reverse, hscope]
    cases scope.find? (·.name == name) with
    | none => exact ih
    | some l => rfl

/-- The expressions of a check, each with the frames at its place. -/
def Check.places (k : Check) : List (Node × List Frame) :=
  k.exprs.flatMap fun (Γ, e) => e.parts.map fun part => (part.tree.root, Γ.frames)

/-! ## Expressions -/

@[simp] theorem WrittenType.placedExpressions_tree (outer : List Frame) (t : WrittenType) :
    t.tree.placedExpressions outer = [] := rfl

mutual

/-- Nothing is declared in an expression. -/
theorem Expr.map_place_parts (outer : List Frame) : (e : Expr) →
    e.parts.map (fun part => (part.tree.root, outer)) = e.tree.placedExpressions outer
  | .value _ _ => rfl
  | .unary _ _ operand => by
    simp [parts, tree, placedExpressions_node, operand.map_place_parts, Node.frames, Node.kind,
      Head.kind, NodeKind.isExpression]
  | .binary _ _ left right => by
    simp [parts, tree, placedExpressions_node, left.map_place_parts, right.map_place_parts,
      Node.frames, Node.kind, Head.kind, NodeKind.isExpression]
  | .access _ _ object _ => by
    simp [parts, tree, placedExpressions_node, object.map_place_parts, Node.frames, Node.kind,
      Head.kind, NodeKind.isExpression]
  | .call place callee arguments => by
    have harguments := Expr.map_place_listParts outer ⟨place, .call⟩ (fun _ => rfl) arguments
      [callee.tree.root]
    simp [parts, tree, placedExpressions_node, callee.map_place_parts, harguments, Node.frames,
      Node.kind, Head.kind, NodeKind.isExpression]
  | .cast _ operand _ => by
    simp [parts, tree, placedExpressions_node, operand.map_place_parts, Node.frames, Node.kind,
      Head.kind, NodeKind.isExpression]
  | .index _ target subscript => by
    simp [parts, tree, placedExpressions_node, target.map_place_parts, subscript.map_place_parts,
      Node.frames, Node.kind, Head.kind, NodeKind.isExpression]

theorem Expr.map_place_listParts (outer : List Frame) (n : Node)
    (hn : ∀ before, n.frames outer before = outer) : (es : List Expr) → (before : List Node) →
    (Expr.listParts es).map (fun part => (part.tree.root, outer)) =
      allPlacedExpressions n outer before (Expr.trees es)
  | [], _ => rfl
  | e :: es, before => by
    simp [listParts, Expr.trees, hn, e.map_place_parts,
      Expr.map_place_listParts outer n hn es (before ++ [e.tree.root])]

end

/-! ## Statements -/

namespace Check

variable (Γ : Locals)

@[simp] theorem places_expr (e : Expr) :
    (Check.expr Γ e).places = e.tree.placedExpressions Γ.frames := by
  simp [places, exprs, e.map_place_parts]

@[simp] theorem places_condition (e : Expr) :
    (Check.condition Γ e).places = e.tree.placedExpressions Γ.frames := by
  simp [places, exprs, e.map_place_parts]

@[simp] theorem places_initializer (τ : Ty) (e : Expr) :
    (Check.initializer Γ τ e).places = e.tree.placedExpressions Γ.frames := by
  simp [places, exprs, e.map_place_parts]

@[simp] theorem places_returns (place : Place) (τ : Ty) (e : Option Expr) :
    (Check.returns place Γ τ e).places = (Expr.optionTrees e).flatMap (placedExpressions Γ.frames) := by
  cases e <;> simp [places, exprs, Expr.optionTrees, Expr.map_place_parts]

@[simp] theorem places_loopControl (place : Place) (inLoop : Bool) :
    (Check.loopControl place inLoop).places = [] := rfl

@[simp] theorem places_goto (place : Place) (labels : List String) (label : Ident) :
    (Check.goto place labels label).places = [] := rfl

end Check

theorem Expr.entry?_root (e : Expr) : e.tree.root.entry? = none := by
  cases e <;> rfl

@[simp] theorem Expr.filterMap_entry?_optionTrees (e : Option Expr) :
    (Expr.optionTrees e).filterMap (fun t => t.root.entry?) = [] := by
  cases e <;> simp [Expr.optionTrees, Expr.entry?_root]

@[simp] theorem Expr.allPlacedExpressions_optionTrees (n : Node) (outer : List Frame)
    (before : List Node) (e : Option Expr) :
    allPlacedExpressions n outer before (Expr.optionTrees e) =
      (Expr.optionTrees e).flatMap (placedExpressions (n.frames outer before)) := by
  cases e <;> simp [Expr.optionTrees]

theorem flatMap_places_option {f : Expr → Check} {frames : List Frame}
    (hf : ∀ e, (f e).places = e.tree.placedExpressions frames) (e : Option Expr) :
    (e.toList.map f).flatMap Check.places =
      (Expr.optionTrees e).flatMap (placedExpressions frames) := by
  cases e <;> simp [Expr.optionTrees, hf]

theorem VariableDecl.flatMap_places_checks (Γ : Locals) (d : VariableDecl) :
    (d.checks Γ).flatMap Check.places = d.tree.placedExpressions Γ.frames := by
  rw [checks, flatMap_places_option (Check.places_initializer Γ _)]
  simp [tree, placedExpressions_node, Node.frames, Node.kind, Head.kind, NodeKind.isExpression]

theorem Locals.frames_declare {Γ : Locals} {frame : Frame} {outer : List Frame}
    (h : Γ.frames = frame :: outer) (l : Local) :
    (Γ.declare l).frames = (frame ++ [l.entry]) :: outer := by
  cases Γ with
  | nil => simp at h
  | cons scope Γ =>
    obtain ⟨rfl, rfl⟩ := List.cons.inj ((frames_cons scope Γ).symm.trans h)
    simp [Locals.declare]

theorem ForInit.frames_after (Γ : Locals) (init : ForInit) : (init.after ([] :: Γ)).frames =
    (init.trees.filterMap fun t => t.root.entry?) :: Γ.frames := by
  match init with
  | .nothing => rfl
  | .variable d => rfl
  | .expr e => simp [after, trees, e.entry?_root]

theorem Stmt.frames_after {Γ : Locals} {frame : Frame} {outer : List Frame}
    (h : Γ.frames = frame :: outer) (s : Stmt) :
    (s.after Γ).frames = (frame ++ [s.tree.root].filterMap Node.entry?) :: outer := by
  match s with
  | .variable d => exact Locals.frames_declare h d.local
  | .expr e => simp [after, tree, e.entry?_root, h]
  | .branch (.mk ..) => simp [after, tree, Branch.tree, Node.entry?, h]
  | .label .. | .goto .. | .returns .. | .breakLoop _ | .continueLoop _ | .whileLoop ..
  | .forLoop .. => simp [after, tree, Node.entry?, h]

theorem ForInit.flatMap_places_checks (Γ : Locals) (n : Node) (outer : List Frame)
    (init : ForInit) (hn : n.frames outer [] = Γ.frames) :
    (init.checks Γ).flatMap Check.places = allPlacedExpressions n outer [] init.trees := by
  match init with
  | .nothing => rfl
  | .variable d => simp [checks, trees, d.flatMap_places_checks, hn]
  | .expr e => simp [checks, trees, hn]

mutual

/-- The expressions of a statement are at their places. -/
theorem Stmt.flatMap_places_checks (S : Surroundings) : (s : Stmt) →
    (s.checks S).flatMap Check.places = s.tree.placedExpressions S.locals.frames
  | .label .. | .goto .. | .breakLoop _ | .continueLoop _ => rfl
  | .returns _ value => by
    simp [Stmt.checks, Stmt.tree, placedExpressions_node, Node.frames, Node.kind, Head.kind,
      NodeKind.isExpression]
  | .variable d => d.flatMap_places_checks S.locals
  | .expr e => by simp [Stmt.checks, Stmt.tree]
  | .branch b => b.flatMap_places_checks S
  | .whileLoop _ condition body => by
    simp [Stmt.checks, Stmt.tree, placedExpressions_node, body.flatMap_places_checks, Node.frames,
      Node.kind, Head.kind, NodeKind.isExpression]
  | .forLoop place init condition step body => by
    have hinit := init.flatMap_places_checks ([] :: S.locals)
      ⟨place, .forLoop init.kind condition.isSome step.isSome⟩ S.locals.frames rfl
    have hframes := init.frames_after S.locals
    simp [Stmt.checks, Stmt.tree, placedExpressions_node, hinit, body.flatMap_places_checks,
      flatMap_places_option (Check.places_condition _), flatMap_places_option (Check.places_expr _),
      hframes, Node.frames, Node.kind, Head.kind, NodeKind.isExpression]

theorem Branch.flatMap_places_checks (S : Surroundings) : (b : Branch) →
    (b.checks S).flatMap Check.places = b.tree.placedExpressions S.locals.frames
  | .mk place condition body otherwise => by
    have hotherwise := otherwise.flatMap_places_checks S ⟨place, .branch otherwise.kind⟩
      (fun _ => rfl) [condition.tree.root, body.tree.root]
    simp [Branch.checks, Branch.tree, placedExpressions_node, body.flatMap_places_checks,
      hotherwise, Node.frames, Node.kind, Head.kind, NodeKind.isExpression]

theorem Otherwise.flatMap_places_checks (S : Surroundings) (n : Node)
    (hn : ∀ before, n.frames S.locals.frames before = S.locals.frames) : (o : Otherwise) →
    (before : List Node) → (o.checks S).flatMap Check.places =
      allPlacedExpressions n S.locals.frames before o.trees
  | .nothing, _ => rfl
  | .branch b, _ => by simp [Otherwise.checks, Otherwise.trees, b.flatMap_places_checks, hn]
  | .scope s, _ => by simp [Otherwise.checks, Otherwise.trees, s.flatMap_places_checks, hn]

theorem Scope.flatMap_places_checks (S : Surroundings) : (s : Scope) →
    (s.checks S).flatMap Check.places = s.tree.placedExpressions S.locals.frames
  | .mk place statements => by
    have hstatements := Stmt.flatMap_places_listChecks ⟨place, .scope⟩ rfl S.locals.frames
      { S with locals := [] :: S.locals } statements [] rfl
    simp [Scope.checks, Scope.tree, placedExpressions_node, hstatements, Node.kind, Head.kind,
      NodeKind.isExpression]

theorem Stmt.flatMap_places_listChecks (n : Node) (hn : n.kind = .scope) (outer : List Frame)
    (S : Surroundings) : (ss : List Stmt) → (before : List Node) →
    S.locals.frames = before.filterMap Node.entry? :: outer →
    (Stmt.listChecks S ss).flatMap Check.places =
      allPlacedExpressions n outer before (Stmt.trees ss)
  | [], _, _ => rfl
  | s :: ss, before, h => by
    have hrest := Stmt.flatMap_places_listChecks n hn outer { S with locals := s.after S.locals } ss
      (before ++ [s.tree.root]) (by rw [List.filterMap_append, s.frames_after h])
    simp [Stmt.listChecks, Stmt.trees, s.flatMap_places_checks, hrest, h, Node.frames, hn]

end

/-! ## Functions and classes -/

@[simp] theorem allPlacedExpressions_parameters (n : Node) (outer : List Frame) (before : List Node)
    (ps : List Parameter) : allPlacedExpressions n outer before (ps.map Parameter.tree) = [] := by
  induction ps generalizing before with
  | nil => rfl
  | cons p ps ih =>
    simp [ih, Parameter.tree, placedExpressions_node, Node.kind, Head.kind, NodeKind.isExpression]

@[simp] theorem allPlacedExpressions_returns (n : Node) (outer : List Frame) (before : List Node)
    (t : Option WrittenType) :
    allPlacedExpressions n outer before (t.toList.map WrittenType.tree) = [] := by
  cases t <;> simp

theorem FunctionDecl.flatMap_places_checks (d : FunctionDecl) (outer : List Frame) :
    d.checks.flatMap Check.places = d.tree.placedExpressions outer := by
  have hreturns : d.returns.toList.filterMap (fun t => t.tree.root.entry?) = [] := by
    cases d.returns <;> rfl
  have hparameters : d.parameters.filterMap (fun p => p.tree.root.entry?) =
      d.parameters.map fun p => p.local.entry := by
    change d.parameters.filterMap (some ∘ fun p => p.local.entry) = _
    rw [List.filterMap_eq_map]
  have hframes : d.surroundings.locals.frames = [d.parameters.map fun p => p.local.entry] := by
    simp [surroundings]
  rw [checks, d.body.flatMap_places_checks, hframes, tree, placedExpressions_node,
    if_neg (by simp [Node.kind, Head.kind, NodeKind.isExpression])]
  simp [Node.frames, Node.kind, Head.kind, hparameters, hreturns]

theorem Member.flatMap_places_listChecks (n : Node) (hn : n.kind = .classDecl) (outer : List Frame)
    (ms : List Member) (Γ : Locals) (before : List Node)
    (h : Γ.frames = [before.filterMap Node.entry?]) :
    (Member.listChecks Γ ms).flatMap Check.places =
      allPlacedExpressions n outer before (ms.map Member.tree) := by
  induction ms generalizing Γ before with
  | nil => rfl
  | cons m ms ih =>
    match m with
    | .variable d =>
      have hrest := ih (Γ.declare d.local) (before ++ [d.tree.root])
        (by rw [Locals.frames_declare h, List.filterMap_append]; rfl)
      simp [listChecks, tree, d.flatMap_places_checks, hrest, h, Node.frames, hn]
    | .function d =>
      have hrest := ih Γ (before ++ [d.tree.root]) (by
        rw [h, List.filterMap_append, FunctionDecl.tree, root_node]
        simp [Node.entry?])
      simp [listChecks, tree, d.flatMap_places_checks [before.filterMap Node.entry?], hrest,
        Node.frames, hn]

theorem Declaration.flatMap_places_checks (d : Declaration) :
    d.checks.flatMap Check.places = d.tree.placedExpressions [] := by
  match d with
  | .classDecl d =>
    have hmembers := Member.flatMap_places_listChecks ⟨d.place, .classDecl d.name⟩ rfl [] d.members
      [[]] [] rfl
    simp [checks, tree, ClassDecl.checks, ClassDecl.tree, hmembers, placedExpressions_node,
      Node.kind, Head.kind, NodeKind.isExpression]
  | .function d => exact d.flatMap_places_checks []
  | .variable d => exact d.flatMap_places_checks []

namespace Block

/-- The expressions of the checks, with their locals, are those of the unit, with the frames at
their places. -/
theorem map_place_exprs (b : Block) :
    b.exprs.map (fun e => (e.2.tree.root, e.1.frames)) = b.tree.placedExpressions [] := by
  have hdeclarations : ∀ before, allPlacedExpressions ⟨b.place, .block⟩ [] before
      (b.declarations.map Declaration.tree) =
        b.declarations.flatMap fun d => d.tree.placedExpressions [] := by
    intro before
    induction b.declarations generalizing before with
    | nil => rfl
    | cons d ds ih => simp [ih, Node.frames, Node.kind, Head.kind]
  have hchecks : b.checks.flatMap Check.places = b.tree.placedExpressions [] := by
    simp [checks, List.flatMap_assoc, Declaration.flatMap_places_checks, tree,
      placedExpressions_node, hdeclarations, Node.kind, Head.kind, NodeKind.isExpression]
  rw [← hchecks, exprs, List.map_flatMap]
  congr 1
  funext k
  simp [Check.places, List.map_flatMap, Function.comp_def]

/-- An expression of the tree is one of the checks, with the locals that its place has. -/
theorem exists_mem_exprs {b : Block} {n : Node} {frames : List Frame}
    (h : (n, frames) ∈ b.tree.placed []) (hn : n.kind.isExpression = true) :
    ∃ e ∈ b.exprs, e.2.tree.root = n ∧ e.1.frames = frames := by
  have hmem : (n, frames) ∈ b.tree.placedExpressions [] := List.mem_filter.2 ⟨h, hn⟩
  rw [← b.map_place_exprs] at hmem
  obtain ⟨e, he, heq⟩ := List.mem_map.1 hmem
  exact ⟨e, he, congrArg Prod.fst heq, congrArg Prod.snd heq⟩

end Block

end Sable
