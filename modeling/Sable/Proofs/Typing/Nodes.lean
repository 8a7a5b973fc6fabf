import Mathlib.Data.List.Nodup
import Sable.Proofs.Symbol.Interning
import Sable.Proofs.Syntax.Tree
import Sable.Proofs.Typing.Unit

/-!
# The nodes of a unit

The checks of a unit are about all its expressions, and what is declared in it is what its nodes
declare, both in the order of the text. If no two nodes share a number, an expression is at one
place only, and a number tells what it is the number of.

## Main definitions

* `Tree.expressions`, `Tree.bindings`: the nodes of two sorts.
* `Block.Regular`: nodes have numbers of their own, and names are plain.

## Main statements

* `Block.map_root_exprs`: the expressions of the checks are those of the tree.
* `Block.exists_goto_mem_checks`: every jump is checked.
* `Block.Regular.exprs_inj`: no two expressions have the same number.
-/
namespace Sable

namespace Tree

def expressions (t : Tree) : List Node := t.preorder.filter (·.kind.isExpression)

/-- Expressions and jumps to labels. -/
def checked (t : Tree) : List Node := t.preorder.filter (·.kind.isChecked)

/-- The nodes that declare a name. -/
def declarations (t : Tree) : List Node := t.preorder.filter (·.kind.isBinding)

/-- The numbers of the nodes that declare a name. -/
def bindings (t : Tree) : List NodeId := (t.preorder.filter (·.kind.isBinding)).map Node.id

theorem bindings_eq (t : Tree) : t.bindings = t.declarations.map Node.id := rfl

theorem checked_node (n : Node) (ts : List Tree) : (node n ts).checked =
    if n.kind.isChecked then n :: ts.flatMap checked else ts.flatMap checked := by
  have hts : (preorders ts).filter (·.kind.isChecked) = ts.flatMap checked := by
    rw [preorders_eq_flatMap, List.filter_flatMap]
    rfl
  rw [checked, preorder, List.filter_cons, hts]

theorem expressions_eq (t : Tree) : t.expressions = t.checked.filter (·.kind.isExpression) := by
  rw [expressions, checked, List.filter_filter]
  refine List.filter_congr fun n _ => ?_
  cases n.kind <;> rfl

theorem declarations_node (n : Node) (ts : List Tree) : (node n ts).declarations =
    if n.kind.isBinding then n :: ts.flatMap declarations else ts.flatMap declarations := by
  have hts : (preorders ts).filter (·.kind.isBinding) = ts.flatMap declarations := by
    rw [preorders_eq_flatMap, List.filter_flatMap]
    rfl
  rw [declarations, preorder, List.filter_cons, hts]

@[simp] theorem root_node (n : Node) (ts : List Tree) : (node n ts).root = n := rfl

theorem forall_mem_preorder_node {p : Node → Prop} {n : Node} {ts : List Tree} :
    (∀ m ∈ (node n ts).preorder, p m) ↔ p n ∧ ∀ t ∈ ts, ∀ m ∈ t.preorder, p m := by
  simp only [preorder, List.mem_cons, mem_preorders, forall_eq_or_imp]
  constructor
  · rintro ⟨hn, h⟩
    exact ⟨hn, fun t ht m hm => h m ⟨t, ht, hm⟩⟩
  · rintro ⟨hn, h⟩
    exact ⟨hn, fun m ⟨t, ht, hm⟩ => h t ht m hm⟩

end Tree

open Sable.Tree

/-! ## Expressions -/

@[simp] theorem WrittenType.checked_tree (t : WrittenType) : t.tree.checked = [] := rfl

@[simp] theorem WrittenType.declarations_tree (t : WrittenType) : t.tree.declarations = [] := rfl

mutual

/-- The parts of an expression are its nodes, except for written types. -/
theorem Expr.map_root_parts : (e : Expr) → e.parts.map (fun e => e.tree.root) = e.tree.checked
  | .value _ _ => rfl
  | .unary _ _ operand => by
    simp [parts, tree, checked_node, operand.map_root_parts, Node.kind, Head.kind,
      NodeKind.isChecked]
  | .binary _ _ left right => by
    simp [parts, tree, checked_node, left.map_root_parts, right.map_root_parts,
      Node.kind, Head.kind, NodeKind.isChecked]
  | .access _ _ object _ => by
    simp [parts, tree, checked_node, object.map_root_parts, Node.kind, Head.kind,
      NodeKind.isChecked]
  | .call _ callee arguments => by
    simp [parts, tree, checked_node, callee.map_root_parts, Expr.map_root_listParts arguments,
      Node.kind, Head.kind, NodeKind.isChecked]
  | .cast _ operand _ => by
    simp [parts, tree, checked_node, operand.map_root_parts, Node.kind, Head.kind,
      NodeKind.isChecked]
  | .index _ target subscript => by
    simp [parts, tree, checked_node, target.map_root_parts, subscript.map_root_parts,
      Node.kind, Head.kind, NodeKind.isChecked]

theorem Expr.map_root_listParts : (es : List Expr) →
    (Expr.listParts es).map (fun e => e.tree.root) = (Expr.trees es).flatMap checked
  | [] => rfl
  | e :: es => by
    simp [listParts, Expr.trees, e.map_root_parts, Expr.map_root_listParts es]

end

mutual

/-- Nothing is declared in an expression. -/
theorem Expr.declarations_tree : (e : Expr) → e.tree.declarations = []
  | .value _ _ => rfl
  | .unary _ _ operand => by
    simp [tree, declarations_node, operand.declarations_tree, Node.kind, Head.kind, NodeKind.isBinding]
  | .binary _ _ left right => by
    simp [tree, declarations_node, left.declarations_tree, right.declarations_tree, Node.kind, Head.kind,
      NodeKind.isBinding]
  | .access _ _ object _ => by
    simp [tree, declarations_node, object.declarations_tree, Node.kind, Head.kind, NodeKind.isBinding]
  | .call _ callee arguments => by
    simp [tree, declarations_node, callee.declarations_tree, Expr.flatMap_declarations_trees arguments,
      Node.kind, Head.kind, NodeKind.isBinding]
  | .cast _ operand _ => by
    simp [tree, declarations_node, operand.declarations_tree, Node.kind, Head.kind, NodeKind.isBinding]
  | .index _ target subscript => by
    simp [tree, declarations_node, target.declarations_tree, subscript.declarations_tree, Node.kind, Head.kind,
      NodeKind.isBinding]

theorem Expr.flatMap_declarations_trees :
    (es : List Expr) → (Expr.trees es).flatMap declarations = []
  | [] => rfl
  | e :: es => by simp [Expr.trees, e.declarations_tree, Expr.flatMap_declarations_trees es]

end

attribute [simp] Expr.declarations_tree

@[simp] theorem Expr.flatMap_declarations_optionTrees (e : Option Expr) :
    (Expr.optionTrees e).flatMap declarations = [] := by
  cases e <;> simp [Expr.optionTrees]

/-! ## Statements -/

def LocalDecl.node : LocalDecl → Node
  | .parameter d => ⟨d.place, .parameter d.name⟩
  | .variable d => ⟨d.place, .variable d.name⟩
  | .label place name => ⟨place, .label name⟩

theorem LocalDecl.id_node (l : LocalDecl) : l.node.id = l.place.id := by
  cases l <;> rfl

def Check.nodes : Check → List Node
  | .goto place _ label => [⟨place, .goto label⟩]
  | k => k.exprs.flatMap fun p => p.2.parts.map fun e => e.tree.root

theorem Check.filter_nodes (k : Check) : k.nodes.filter (·.kind.isExpression) =
    k.exprs.flatMap fun p => p.2.parts.map fun e => e.tree.root := by
  unfold nodes
  split
  · rfl
  · refine List.filter_eq_self.2 fun n hn => ?_
    obtain ⟨p, -, hn⟩ := List.mem_flatMap.1 hn
    obtain ⟨e, -, rfl⟩ := List.mem_map.1 hn
    exact e.isExpression_root

@[simp] theorem Check.nodes_expr (Γ : Locals) (e : Expr) :
    (Check.expr Γ e).nodes = e.tree.checked := by
  simp [Check.nodes, Check.exprs, e.map_root_parts]

@[simp] theorem Check.nodes_condition (Γ : Locals) (e : Expr) :
    (Check.condition Γ e).nodes = e.tree.checked := by
  simp [Check.nodes, Check.exprs, e.map_root_parts]

@[simp] theorem Check.nodes_initializer (Γ : Locals) (τ : Ty) (e : Expr) :
    (Check.initializer Γ τ e).nodes = e.tree.checked := by
  simp [Check.nodes, Check.exprs, e.map_root_parts]

@[simp] theorem Check.nodes_returns (place : Place) (Γ : Locals) (τ : Ty) (e : Option Expr) :
    (Check.returns place Γ τ e).nodes = (Expr.optionTrees e).flatMap checked := by
  cases e <;> simp [Check.nodes, Check.exprs, Expr.optionTrees, Expr.map_root_parts]

@[simp] theorem Check.nodes_loopControl (place : Place) (inLoop : Bool) :
    (Check.loopControl place inLoop).nodes = [] := rfl

@[simp] theorem Check.nodes_goto (place : Place) (labels : List String) (label : Ident) :
    (Check.goto place labels label).nodes = [⟨place, .goto label⟩] := rfl

theorem flatMap_nodes_option (f : Expr → Check) (hf : ∀ e, (f e).nodes = e.tree.checked)
    (e : Option Expr) :
    (e.toList.map f).flatMap Check.nodes = (Expr.optionTrees e).flatMap checked := by
  cases e <;> simp [Expr.optionTrees, hf]

theorem VariableDecl.flatMap_nodes_checks (Γ : Locals) (d : VariableDecl) :
    (d.checks Γ).flatMap Check.nodes = d.tree.checked := by
  rw [checks, flatMap_nodes_option _ (Check.nodes_initializer Γ _)]
  simp [tree, checked_node, Node.kind, Head.kind, NodeKind.isChecked]

@[simp] theorem VariableDecl.declarations_tree (d : VariableDecl) :
    d.tree.declarations = [⟨d.place, .variable d.name⟩] := by
  simp [tree, declarations_node, Node.kind, Head.kind, NodeKind.isBinding]

@[simp] theorem VariableDecl.bindings_tree (d : VariableDecl) : d.tree.bindings = [d.place.id] := by
  rw [bindings_eq, d.declarations_tree]
  rfl

theorem ForInit.flatMap_nodes_checks (Γ : Locals) (init : ForInit) :
    (init.checks Γ).flatMap Check.nodes = init.trees.flatMap checked := by
  match init with
  | .nothing => rfl
  | .variable d => simp [checks, trees, d.flatMap_nodes_checks]
  | .expr e => simp [checks, trees]

theorem ForInit.flatMap_declarations_trees (init : ForInit) :
    init.trees.flatMap declarations = init.locals.map LocalDecl.node := by
  match init with
  | .nothing => rfl
  | .variable d => simp [trees, locals, LocalDecl.node]
  | .expr e => simp [trees, locals]

mutual

/-- The checks of a statement are about all its expressions. -/
theorem Stmt.flatMap_nodes_checks (S : Surroundings) :
    (s : Stmt) → (s.checks S).flatMap Check.nodes = s.tree.checked
  | .label .. | .goto .. | .breakLoop _ | .continueLoop _ => rfl
  | .returns _ value => by
    simp [Stmt.checks, Stmt.tree, checked_node, Node.kind, Head.kind, NodeKind.isChecked]
  | .variable d => d.flatMap_nodes_checks S.locals
  | .expr e => by simp [Stmt.checks, Stmt.tree]
  | .branch b => b.flatMap_nodes_checks S
  | .whileLoop _ condition body => by
    simp [Stmt.checks, Stmt.tree, checked_node, body.flatMap_nodes_checks, Node.kind, Head.kind,
      NodeKind.isChecked]
  | .forLoop _ init condition step body => by
    simp [Stmt.checks, Stmt.tree, checked_node, init.flatMap_nodes_checks, body.flatMap_nodes_checks,
      flatMap_nodes_option _ (Check.nodes_condition _), flatMap_nodes_option _ (Check.nodes_expr _),
      Node.kind, Head.kind, NodeKind.isChecked]

theorem Branch.flatMap_nodes_checks (S : Surroundings) :
    (b : Branch) → (b.checks S).flatMap Check.nodes = b.tree.checked
  | .mk _ condition body otherwise => by
    simp [Branch.checks, Branch.tree, checked_node, body.flatMap_nodes_checks,
      otherwise.flatMap_nodes_checks, Node.kind, Head.kind, NodeKind.isChecked]

theorem Otherwise.flatMap_nodes_checks (S : Surroundings) :
    (o : Otherwise) → (o.checks S).flatMap Check.nodes = o.trees.flatMap checked
  | .nothing => rfl
  | .branch b => by simp [Otherwise.checks, Otherwise.trees, b.flatMap_nodes_checks]
  | .scope s => by simp [Otherwise.checks, Otherwise.trees, s.flatMap_nodes_checks]

theorem Scope.flatMap_nodes_checks (S : Surroundings) :
    (s : Scope) → (s.checks S).flatMap Check.nodes = s.tree.checked
  | .mk _ statements => by
    simp [Scope.checks, Scope.tree, checked_node, Stmt.flatMap_nodes_listChecks, Node.kind, Head.kind,
      NodeKind.isChecked]

theorem Stmt.flatMap_nodes_listChecks (S : Surroundings) : (ss : List Stmt) →
    (Stmt.listChecks S ss).flatMap Check.nodes = (Stmt.trees ss).flatMap checked
  | [] => rfl
  | s :: ss => by
    simp [Stmt.listChecks, Stmt.trees, s.flatMap_nodes_checks, Stmt.flatMap_nodes_listChecks _ ss]

end

mutual

theorem Stmt.declarations_tree : (s : Stmt) → s.tree.declarations = s.locals.map LocalDecl.node
  | .label .. | .goto .. | .breakLoop _ | .continueLoop _ => rfl
  | .returns _ value => by
    simp [Stmt.locals, Stmt.tree, declarations_node, Node.kind, Head.kind, NodeKind.isBinding]
  | .variable d => by simp [Stmt.locals, Stmt.tree, LocalDecl.node]
  | .expr e => by simp [Stmt.locals, Stmt.tree]
  | .branch b => b.declarations_tree
  | .whileLoop _ condition body => by
    simp [Stmt.locals, Stmt.tree, declarations_node, body.declarations_tree, Node.kind, Head.kind,
      NodeKind.isBinding]
  | .forLoop _ init condition step body => by
    simp [Stmt.locals, Stmt.tree, declarations_node, init.flatMap_declarations_trees, body.declarations_tree, Node.kind,
      Head.kind, NodeKind.isBinding]

theorem Branch.declarations_tree : (b : Branch) → b.tree.declarations = b.locals.map LocalDecl.node
  | .mk _ condition body otherwise => by
    simp [Branch.locals, Branch.tree, declarations_node, body.declarations_tree, otherwise.flatMap_declarations_trees,
      Node.kind, Head.kind, NodeKind.isBinding]

theorem Otherwise.flatMap_declarations_trees :
    (o : Otherwise) → o.trees.flatMap declarations = o.locals.map LocalDecl.node
  | .nothing => rfl
  | .branch b => by simp [Otherwise.locals, Otherwise.trees, b.declarations_tree]
  | .scope s => by simp [Otherwise.locals, Otherwise.trees, s.declarations_tree]

theorem Scope.declarations_tree : (s : Scope) → s.tree.declarations = s.locals.map LocalDecl.node
  | .mk _ statements => by
    simp [Scope.locals, Scope.tree, declarations_node, Stmt.flatMap_declarations_trees statements, Node.kind, Head.kind,
      NodeKind.isBinding]

theorem Stmt.flatMap_declarations_trees : (ss : List Stmt) →
    (Stmt.trees ss).flatMap declarations = (Stmt.listLocals ss).map LocalDecl.node
  | [] => rfl
  | s :: ss => by
    simp [Stmt.listLocals, Stmt.trees, s.declarations_tree, Stmt.flatMap_declarations_trees ss]

end

/-! ## Inner nodes -/

/-- Nodes below functions. A written type is at its own place. -/
def Node.IsInner (n : Node) : Prop :=
  n.kind ≠ .function ∧ n.kind ≠ .classDecl ∧ n.kind ≠ .block ∧
    ∀ t, n.head = .type t → n.place = t.place

theorem WrittenType.isInner (t : WrittenType) : ∀ n ∈ t.tree.preorder, n.IsInner := by
  simp [tree, Tree.preorder, Tree.preorders, Node.IsInner, Node.kind, Head.kind]

mutual

theorem Expr.isInner : (e : Expr) → ∀ n ∈ e.tree.preorder, n.IsInner
  | .value _ _ => by
    simp [Expr.tree, forall_mem_preorder_node, Node.IsInner, Node.kind, Head.kind]
  | .unary _ _ operand => by
    simpa [Expr.tree, forall_mem_preorder_node, Node.IsInner, Node.kind, Head.kind]
      using operand.isInner
  | .binary _ _ left right => by
    simpa [Expr.tree, forall_mem_preorder_node, Node.IsInner, Node.kind, Head.kind]
      using ⟨left.isInner, right.isInner⟩
  | .access _ _ object _ => by
    simpa [Expr.tree, forall_mem_preorder_node, Node.IsInner, Node.kind, Head.kind]
      using object.isInner
  | .call _ callee arguments => by
    simpa [Expr.tree, forall_mem_preorder_node, Node.IsInner, Node.kind, Head.kind]
      using ⟨callee.isInner, Expr.isInner_trees arguments⟩
  | .cast _ operand target => by
    simpa [Expr.tree, forall_mem_preorder_node, Node.IsInner, Node.kind, Head.kind]
      using ⟨operand.isInner, target.isInner⟩
  | .index _ target subscript => by
    simpa [Expr.tree, forall_mem_preorder_node, Node.IsInner, Node.kind, Head.kind]
      using ⟨target.isInner, subscript.isInner⟩

theorem Expr.isInner_trees : (es : List Expr) → ∀ t ∈ Expr.trees es, ∀ n ∈ t.preorder, n.IsInner
  | [] => by simp [Expr.trees]
  | e :: es => by
    rw [Expr.trees, List.forall_mem_cons]
    exact ⟨e.isInner, Expr.isInner_trees es⟩

end

theorem Expr.id_root (e : Expr) : e.tree.root.id = e.id := by
  cases e <;> rfl

theorem Expr.isInner_optionTrees (e : Option Expr) :
    ∀ t ∈ Expr.optionTrees e, ∀ n ∈ t.preorder, n.IsInner := by
  cases e with
  | none => simp [Expr.optionTrees]
  | some e => simpa [Expr.optionTrees] using e.isInner

theorem VariableDecl.isInner (d : VariableDecl) : ∀ n ∈ d.tree.preorder, n.IsInner := by
  rw [tree, forall_mem_preorder_node, List.forall_mem_cons]
  exact ⟨by simp [Node.IsInner, Node.kind, Head.kind], d.type.isInner,
    Expr.isInner_optionTrees d.initializer⟩

theorem Parameter.isInner (d : Parameter) : ∀ n ∈ d.tree.preorder, n.IsInner := by
  rw [tree, forall_mem_preorder_node, List.forall_mem_singleton]
  exact ⟨by simp [Node.IsInner, Node.kind, Head.kind], d.type.isInner⟩

theorem ForInit.isInner (init : ForInit) : ∀ t ∈ init.trees, ∀ n ∈ t.preorder, n.IsInner := by
  match init with
  | .nothing => simp [trees]
  | .variable d => simpa [trees] using d.isInner
  | .expr e => simpa [trees] using e.isInner

mutual

theorem Stmt.isInner : (s : Stmt) → ∀ n ∈ s.tree.preorder, n.IsInner
  | .label .. | .goto .. | .breakLoop _ | .continueLoop _ => by
    simp [Stmt.tree, forall_mem_preorder_node, Node.IsInner, Node.kind, Head.kind]
  | .returns _ value => by
    rw [Stmt.tree, forall_mem_preorder_node]
    exact ⟨by simp [Node.IsInner, Node.kind, Head.kind], Expr.isInner_optionTrees value⟩
  | .variable d => d.isInner
  | .expr e => e.isInner
  | .branch b => b.isInner
  | .whileLoop _ condition body => by
    simpa [Stmt.tree, forall_mem_preorder_node, Node.IsInner, Node.kind, Head.kind]
      using ⟨condition.isInner, body.isInner⟩
  | .forLoop _ init condition step body => by
    simp only [Stmt.tree, forall_mem_preorder_node, List.forall_mem_append,
      List.forall_mem_singleton]
    exact ⟨by simp [Node.IsInner, Node.kind, Head.kind], ⟨⟨init.isInner,
      Expr.isInner_optionTrees condition⟩, Expr.isInner_optionTrees step⟩, body.isInner⟩

theorem Branch.isInner : (b : Branch) → ∀ n ∈ b.tree.preorder, n.IsInner
  | .mk _ condition body otherwise => by
    rw [Branch.tree, forall_mem_preorder_node, List.forall_mem_cons, List.forall_mem_cons]
    exact ⟨by simp [Node.IsInner, Node.kind, Head.kind], condition.isInner, body.isInner,
      otherwise.isInner⟩

theorem Otherwise.isInner : (o : Otherwise) → ∀ t ∈ o.trees, ∀ n ∈ t.preorder, n.IsInner
  | .nothing => by simp [Otherwise.trees]
  | .branch b => by simpa [Otherwise.trees] using b.isInner
  | .scope s => by simpa [Otherwise.trees] using s.isInner

theorem Scope.isInner : (s : Scope) → ∀ n ∈ s.tree.preorder, n.IsInner
  | .mk _ statements => by
    rw [Scope.tree, forall_mem_preorder_node]
    exact ⟨by simp [Node.IsInner, Node.kind, Head.kind], Stmt.isInner_trees statements⟩

theorem Stmt.isInner_trees : (ss : List Stmt) → ∀ t ∈ Stmt.trees ss, ∀ n ∈ t.preorder, n.IsInner
  | [] => by simp [Stmt.trees]
  | s :: ss => by
    rw [Stmt.trees, List.forall_mem_cons]
    exact ⟨s.isInner, Stmt.isInner_trees ss⟩

end

/-! ## Types of locals -/

/-- Labels have no type. -/
def LocalDecl.type? : LocalDecl → Option WrittenType
  | .parameter d => some d.type
  | .variable d => some d.type
  | .label .. => none

def WrittenType.node (t : WrittenType) : Node := ⟨t.place, .type t⟩

theorem VariableDecl.type_mem_preorder (d : VariableDecl) : d.type.node ∈ d.tree.preorder := by
  simp [tree, preorder, preorders, WrittenType.tree, WrittenType.node]

theorem Parameter.type_mem_preorder (d : Parameter) : d.type.node ∈ d.tree.preorder := by
  simp [tree, preorder, preorders, WrittenType.tree, WrittenType.node]

theorem ForInit.type_mem_preorders (init : ForInit) :
    ∀ l ∈ init.locals, ∀ t ∈ l.type?, t.node ∈ preorders init.trees := by
  match init with
  | .nothing | .expr _ => simp [locals]
  | .variable d =>
    simpa [locals, trees, LocalDecl.type?, preorders] using d.type_mem_preorder

mutual

theorem Stmt.type_mem_preorder :
    (s : Stmt) → ∀ l ∈ s.locals, ∀ t ∈ l.type?, t.node ∈ s.tree.preorder
  | .label .. => by simp [Stmt.locals, LocalDecl.type?]
  | .goto .. | .returns .. | .breakLoop _ | .continueLoop _ | .expr _ => by simp [Stmt.locals]
  | .variable d => by simpa [Stmt.locals, Stmt.tree, LocalDecl.type?] using d.type_mem_preorder
  | .branch b => b.type_mem_preorder
  | .whileLoop _ _ body => by
    intro l hl t ht
    have hmem := body.type_mem_preorder l hl t ht
    simp [Stmt.tree, preorder, preorders, hmem]
  | .forLoop _ init _ _ body => by
    intro l hl t ht
    rw [Stmt.tree, preorder, preorders_append, List.mem_cons, List.mem_append]
    rcases List.mem_append.1 hl with hl | hl
    · simp [init.type_mem_preorders l hl t ht]
    · simp [preorders, body.type_mem_preorder l hl t ht]

theorem Branch.type_mem_preorder :
    (b : Branch) → ∀ l ∈ b.locals, ∀ t ∈ l.type?, t.node ∈ b.tree.preorder
  | .mk _ _ body otherwise => by
    intro l hl t ht
    rw [Branch.tree, preorder, preorders, preorders]
    rcases List.mem_append.1 hl with hl | hl
    · simp [body.type_mem_preorder l hl t ht]
    · simp [otherwise.type_mem_preorders l hl t ht]

theorem Otherwise.type_mem_preorders :
    (o : Otherwise) → ∀ l ∈ o.locals, ∀ t ∈ l.type?, t.node ∈ preorders o.trees
  | .nothing => by simp [Otherwise.locals]
  | .branch b => by
    simpa [Otherwise.locals, Otherwise.trees, preorders] using b.type_mem_preorder
  | .scope s => by
    simpa [Otherwise.locals, Otherwise.trees, preorders] using s.type_mem_preorder

theorem Scope.type_mem_preorder :
    (s : Scope) → ∀ l ∈ s.locals, ∀ t ∈ l.type?, t.node ∈ s.tree.preorder
  | .mk _ statements => by
    intro l hl t ht
    rw [Scope.tree, preorder]
    exact List.mem_cons_of_mem _ (Stmt.type_mem_preorders statements l hl t ht)

theorem Stmt.type_mem_preorders : (ss : List Stmt) →
    ∀ l ∈ Stmt.listLocals ss, ∀ t ∈ l.type?, t.node ∈ preorders (Stmt.trees ss)
  | [] => by simp [Stmt.listLocals]
  | s :: ss => by
    intro l hl t ht
    rw [Stmt.trees, preorders]
    rcases List.mem_append.1 hl with hl | hl
    · exact List.mem_append_left _ (s.type_mem_preorder l hl t ht)
    · exact List.mem_append_right _ (Stmt.type_mem_preorders ss l hl t ht)

end

theorem FunctionDecl.type_mem_preorder (d : FunctionDecl) :
    ∀ l ∈ d.locals, ∀ t ∈ l.type?, t.node ∈ d.tree.preorder := by
  intro l hl t ht
  rw [tree, preorder, List.mem_cons, mem_preorders]
  rcases List.mem_append.1 hl with hl | hl
  · obtain ⟨p, hp, rfl⟩ := List.mem_map.1 hl
    obtain rfl : p.type = t := Option.some.inj ht
    refine .inr ⟨p.tree, ?_, p.type_mem_preorder⟩
    simp only [List.mem_append, List.mem_map]
    exact .inl (.inl ⟨p, hp, rfl⟩)
  · exact .inr ⟨d.body.tree, by simp, d.body.type_mem_preorder l hl t ht⟩

/-! ## Functions and classes -/

def FunctionDecl.node (d : FunctionDecl) : Node :=
  ⟨d.place, .function d.name d.parameters d.returns⟩

theorem FunctionDecl.eq_node_or_isInner (d : FunctionDecl) :
    ∀ n ∈ d.tree.preorder, n = d.node ∨ n.IsInner := by
  rw [tree, forall_mem_preorder_node]
  refine ⟨.inl rfl, ?_⟩
  simp only [List.forall_mem_append, List.forall_mem_map, List.forall_mem_singleton]
  exact ⟨⟨fun p _ n hn => .inr (p.isInner n hn), fun t _ n hn => .inr (t.isInner n hn)⟩,
    fun n hn => .inr (d.body.isInner n hn)⟩

theorem FunctionDecl.declarations_tree (d : FunctionDecl) :
    d.tree.declarations = d.node :: d.locals.map LocalDecl.node := by
  have hparameters : (d.parameters.map Parameter.tree).flatMap declarations =
      d.parameters.map fun p => (LocalDecl.parameter p).node := by
    rw [List.flatMap_map, List.map_eq_flatMap]
    simp [Parameter.tree, declarations_node, Node.kind, Head.kind, NodeKind.isBinding,
      LocalDecl.node]
  have hreturns : (d.returns.toList.map WrittenType.tree).flatMap declarations = [] := by
    cases d.returns <;> simp
  rw [tree, declarations_node, if_pos (by simp [Node.kind, Head.kind, NodeKind.isBinding]),
    List.flatMap_append, List.flatMap_append, hparameters, hreturns]
  simp [locals, d.body.declarations_tree, node, Function.comp_def]

theorem FunctionDecl.bindings_tree (d : FunctionDecl) :
    d.tree.bindings = d.place.id :: d.locals.map fun l => l.place.id := by
  rw [bindings_eq, d.declarations_tree, List.map_cons, List.map_map]
  congr 1
  exact List.map_congr_left fun l _ => l.id_node

theorem FunctionDecl.flatMap_nodes_checks (d : FunctionDecl) :
    d.checks.flatMap Check.nodes = d.tree.checked := by
  have hparameters : (d.parameters.map Parameter.tree).flatMap checked = [] := by
    simp [Parameter.tree, checked_node, Node.kind, Head.kind, NodeKind.isChecked]
  have hreturns : (d.returns.toList.map WrittenType.tree).flatMap checked = [] := by
    cases d.returns <;> simp
  rw [tree, checked_node, if_neg (by simp [Node.kind, Head.kind, NodeKind.isChecked]),
    List.flatMap_append, List.flatMap_append, hparameters, hreturns, checks,
    d.body.flatMap_nodes_checks]
  simp

theorem Member.flatMap_nodes_listChecks (Γ : Locals) (ms : List Member) :
    (Member.listChecks Γ ms).flatMap Check.nodes = (ms.map Member.tree).flatMap checked := by
  induction ms generalizing Γ with
  | nil => rfl
  | cons m ms ih =>
    match m with
    | .variable d => simp [listChecks, tree, d.flatMap_nodes_checks, ih]
    | .function d => simp [listChecks, tree, d.flatMap_nodes_checks, ih]

theorem ClassDecl.declarations_tree (d : ClassDecl) :
    d.tree.declarations = d.members.flatMap fun m => m.tree.declarations := by
  simp [tree, declarations_node, Node.kind, Head.kind, NodeKind.isBinding, List.flatMap_map]

theorem ClassDecl.bindings_tree (d : ClassDecl) :
    d.tree.bindings = d.members.flatMap fun m => m.tree.bindings := by
  rw [bindings_eq, d.declarations_tree, List.map_flatMap]
  rfl

theorem Declaration.flatMap_nodes_checks (d : Declaration) :
    d.checks.flatMap Check.nodes = d.tree.checked := by
  match d with
  | .classDecl d =>
    simp [checks, tree, ClassDecl.checks, ClassDecl.tree, Member.flatMap_nodes_listChecks,
      checked_node, Node.kind, Head.kind, NodeKind.isChecked]
  | .function d => exact d.flatMap_nodes_checks
  | .variable d => exact d.flatMap_nodes_checks []

/-- A unit stands in no declaration. -/
theorem Declaration.kind_ne_block (d : Declaration) : ∀ n ∈ d.tree.preorder, n.kind ≠ .block := by
  have hfunction : ∀ d : FunctionDecl, ∀ n ∈ d.tree.preorder, n.kind ≠ .block := by
    intro d n hn
    rcases d.eq_node_or_isInner n hn with rfl | h
    · simp [FunctionDecl.node, Node.kind, Head.kind]
    · exact h.2.2.1
  match d with
  | .variable d => exact fun n hn => (d.isInner n hn).2.2.1
  | .function d => exact hfunction d
  | .classDecl d =>
    rw [tree, ClassDecl.tree, forall_mem_preorder_node, List.forall_mem_map]
    refine ⟨by simp [Node.kind, Head.kind], fun m _ => ?_⟩
    match m with
    | .variable d => exact fun n hn => (d.isInner n hn).2.2.1
    | .function d => exact hfunction d

namespace Block

variable (b : Block)

theorem declarations_tree :
    b.tree.declarations = b.declarations.flatMap fun d => d.tree.declarations := by
  simp [tree, declarations_node, Node.kind, Head.kind, NodeKind.isBinding, List.flatMap_map]

theorem bindings_tree : b.tree.bindings = b.declarations.flatMap fun d => d.tree.bindings := by
  rw [bindings_eq, b.declarations_tree, List.map_flatMap]
  rfl

/-- The checks are about the expressions and the jumps of the unit. -/
theorem flatMap_nodes_checks : b.checks.flatMap Check.nodes = b.tree.checked := by
  simp [checks, List.flatMap_assoc, Declaration.flatMap_nodes_checks, tree, checked_node,
    Node.kind, Head.kind, NodeKind.isChecked, List.flatMap_map]

/-- The expressions of the checks are the expressions of the unit. -/
theorem map_root_exprs : b.exprs.map (fun p => p.2.tree.root) = b.tree.expressions := by
  rw [expressions_eq, ← b.flatMap_nodes_checks, List.filter_flatMap, exprs, List.map_flatMap]
  congr 1
  funext k
  rw [k.filter_nodes]
  simp [List.map_flatMap, Function.comp_def]

/-- Every jump is checked. -/
theorem exists_goto_mem_checks {b : Block} {place : Place} {label : Ident}
    (h : ⟨place, .goto label⟩ ∈ b.tree.preorder) : ∃ labels, .goto place labels label ∈ b.checks := by
  have hmem : ⟨place, .goto label⟩ ∈ b.tree.checked := List.mem_filter.2 ⟨h, rfl⟩
  rw [← b.flatMap_nodes_checks] at hmem
  obtain ⟨k, hk, hmem⟩ := List.mem_flatMap.1 hmem
  unfold Check.nodes at hmem
  split at hmem
  · next place' labels label' =>
    obtain ⟨rfl, hlabel⟩ := Node.mk.inj (List.mem_singleton.1 hmem)
    obtain rfl := Head.goto.inj hlabel
    exact ⟨labels, hk⟩
  · obtain ⟨p, -, hmem⟩ := List.mem_flatMap.1 hmem
    obtain ⟨e, -, heq⟩ := List.mem_map.1 hmem
    have hkind := e.isExpression_root
    rw [heq] at hkind
    simp [Node.kind, Head.kind, NodeKind.isExpression] at hkind

theorem mem_classes {b : Block} {d : ClassDecl} :
    d ∈ b.classes ↔ Declaration.classDecl d ∈ b.declarations := by
  simp only [classes, List.mem_filterMap]
  constructor
  · rintro ⟨d', hd', h⟩
    split at h
    · rwa [← Option.some.inj h]
    · simp at h
  · intro h
    exact ⟨_, h, rfl⟩

theorem mem_writtenTypes {b : Block} {t : WrittenType} :
    t ∈ b.writtenTypes ↔ ∃ n ∈ b.tree.preorder, n.head = .type t := by
  simp only [writtenTypes, List.mem_filterMap]
  constructor
  · rintro ⟨n, hn, h⟩
    refine ⟨n, hn, ?_⟩
    split at h
    · next hhead => rw [hhead, Option.some.inj h]
    · simp at h
  · rintro ⟨n, hn, hhead⟩
    exact ⟨n, hn, by rw [hhead]⟩

theorem preorder_subset_of_mem {b : Block} {d : Declaration} (h : d ∈ b.declarations) :
    d.tree.preorder ⊆ b.tree.preorder := by
  intro n hn
  rw [tree, preorder, List.mem_cons, mem_preorders]
  exact .inr ⟨d.tree, List.mem_map_of_mem h, hn⟩

theorem classNode_mem_preorder {b : Block} {d : ClassDecl} (hd : d ∈ b.classes) :
    ⟨d.place, .classDecl d.name⟩ ∈ b.tree.preorder := by
  refine preorder_subset_of_mem (mem_classes.1 hd) ?_
  simp [Declaration.tree, ClassDecl.tree, preorder]

theorem preorder_subset_of_mem_allFunctions {b : Block} {d : FunctionDecl}
    (h : d ∈ b.allFunctions) : d.tree.preorder ⊆ b.tree.preorder := by
  obtain ⟨d', hd', h⟩ := List.mem_flatMap.1 h
  refine List.Subset.trans ?_ (preorder_subset_of_mem hd')
  match d' with
  | .classDecl c =>
    obtain ⟨m, hm, h⟩ := List.mem_flatMap.1 h
    match m with
    | .variable _ => simp [Member.functions] at h
    | .function d'' =>
      obtain rfl : d = d'' := by simpa [Member.functions] using h
      intro n hn
      rw [Declaration.tree, ClassDecl.tree, preorder, List.mem_cons, mem_preorders]
      exact .inr ⟨_, List.mem_map_of_mem hm, hn⟩
  | .function d'' =>
    obtain rfl : d = d'' := by simpa [Declaration.functions] using h
    exact List.Subset.refl _
  | .variable _ => simp [Declaration.functions] at h

/-- A function is met before its parameters. -/
theorem node_mem_preorder {b : Block} {d : FunctionDecl} (h : d ∈ b.allFunctions) :
    d.node ∈ b.tree.preorder := by
  refine preorder_subset_of_mem_allFunctions h ?_
  rw [FunctionDecl.tree, preorder]
  exact List.mem_cons_self

theorem mem_writtenTypes_of_node {b : Block} {t : WrittenType} (h : t.node ∈ b.tree.preorder) :
    t ∈ b.writtenTypes :=
  mem_writtenTypes.2 ⟨_, h, rfl⟩

theorem parameter_mem_writtenTypes {b : Block} {d : FunctionDecl} (h : d ∈ b.allFunctions) :
    ∀ p ∈ d.parameters, p.type ∈ b.writtenTypes := by
  intro p hp
  have hmem : LocalDecl.parameter p ∈ d.locals := List.mem_append_left _ (List.mem_map_of_mem hp)
  exact mem_writtenTypes_of_node (preorder_subset_of_mem_allFunctions h
    (d.type_mem_preorder _ hmem p.type rfl))

theorem returns_mem_writtenTypes {b : Block} {d : FunctionDecl} (h : d ∈ b.allFunctions) :
    ∀ t ∈ d.returns, t ∈ b.writtenTypes := by
  intro t ht
  refine mem_writtenTypes_of_node (preorder_subset_of_mem_allFunctions h ?_)
  rw [FunctionDecl.tree, preorder, List.mem_cons, mem_preorders]
  refine .inr ⟨t.tree, ?_, ?_⟩
  · simp only [List.mem_append, List.mem_map]
    exact .inl (.inr ⟨t, Option.mem_toList.2 ht, rfl⟩)
  · simp [WrittenType.tree, WrittenType.node, preorder, preorders]

theorem bindings_sublist_of_mem {b : Block} {d : Declaration} (h : d ∈ b.declarations) :
    d.tree.bindings.Sublist b.tree.bindings := by
  rw [bindings_tree, List.flatMap_def]
  exact List.sublist_flatten_of_mem (List.mem_map_of_mem h)

/-- Written types stand at their own places, and functions are those of the unit. -/
theorem type_and_function_of_mem_preorder {b : Block} {n : Node} (h : n ∈ b.tree.preorder) :
    (∀ t, n.head = .type t → n.place = t.place) ∧
      (n.kind = .function → ∃ d ∈ b.allFunctions, n = d.node) := by
  have hinner : n.IsInner → (∀ t, n.head = .type t → n.place = t.place) ∧
      (n.kind = .function → ∃ d ∈ b.allFunctions, n = d.node) :=
    fun h => ⟨h.2.2.2, fun hn => absurd hn h.1⟩
  rw [tree, preorder, List.mem_cons, mem_preorders] at h
  rcases h with rfl | ⟨t, ht, h⟩
  · simp [Node.kind, Head.kind]
  obtain ⟨d, hd, rfl⟩ := List.mem_map.1 ht
  obtain c | d | d := d
  · rw [Declaration.tree, ClassDecl.tree, preorder, List.mem_cons, mem_preorders] at h
    rcases h with rfl | ⟨t, ht, h⟩
    · simp [Node.kind, Head.kind]
    obtain ⟨m, hm, rfl⟩ := List.mem_map.1 ht
    obtain d | d := m
    · exact hinner (d.isInner n h)
    · rcases d.eq_node_or_isInner n h with rfl | h
      · refine ⟨by simp [FunctionDecl.node], fun _ => ⟨d, List.mem_flatMap.2 ⟨_, hd, ?_⟩, rfl⟩⟩
        exact List.mem_flatMap.2 ⟨_, hm, by simp [Member.functions]⟩
      · exact hinner h
  · rcases d.eq_node_or_isInner n h with rfl | h
    · exact ⟨by simp [FunctionDecl.node], fun _ =>
        ⟨d, List.mem_flatMap.2 ⟨_, hd, by simp [Declaration.functions]⟩, rfl⟩⟩
    · exact hinner h
  · exact hinner (d.isInner n h)

/-- Nodes have numbers of their own. -/
structure Numbered (b : Block) : Prop where
  nodup_ids : (b.tree.preorder.map Node.id).Nodup

namespace Numbered

variable {b : Block}

theorem node_inj (h : b.Numbered) {n m : Node} (hn : n ∈ b.tree.preorder)
    (hm : m ∈ b.tree.preorder) (heq : n.id = m.id) : n = m :=
  List.inj_on_of_nodup_map h.nodup_ids hn hm heq

theorem nodup_bindings (h : b.Numbered) : b.tree.bindings.Nodup :=
  h.nodup_ids.sublist (List.filter_sublist.map _)

theorem class_notMem_bindings (h : b.Numbered) {d : ClassDecl} (hd : d ∈ b.classes) :
    d.place.id ∉ b.tree.bindings := by
  intro hmem
  obtain ⟨n, hn, heq⟩ := List.mem_map.1 hmem
  obtain ⟨hn, hkind⟩ := List.mem_filter.1 hn
  rw [h.node_inj hn (classNode_mem_preorder hd) heq] at hkind
  simp [Node.kind, Head.kind, NodeKind.isBinding] at hkind

theorem nodup_declarations (h : b.Numbered) :
    (b.declarations.map fun d => d.tree.root.id).Nodup := by
  have hsublist : (b.declarations.map fun d => d.tree.root).Sublist b.tree.preorder := by
    rw [tree, preorder, preorders_eq_flatMap, List.flatMap_map]
    refine .cons _ ?_
    induction b.declarations with
    | nil => exact .slnil
    | cons d ds ih =>
      rw [List.map_cons, List.flatMap_cons, ← List.singleton_append]
      refine .append ?_ ih
      cases d.tree
      simp [preorder]
  have hids := h.nodup_ids.sublist (hsublist.map _)
  rwa [List.map_map] at hids

theorem nodup_classes (h : b.Numbered) : (b.classes.map fun d => d.place.id).Nodup := by
  have hclasses : (b.classes.map fun d => d.place.id).Sublist
      (b.declarations.map fun d => d.tree.root.id) := by
    rw [classes]
    induction b.declarations with
    | nil => exact .slnil
    | cons d ds ih =>
      match d with
      | .classDecl d => exact ih.cons_cons _
      | .function d => exact ih.cons _
      | .variable d => exact ih.cons _
  exact h.nodup_declarations.sublist hclasses

theorem root_mem_preorder {e : Locals × Expr} (he : e ∈ b.exprs) :
    e.2.tree.root ∈ b.tree.preorder ∧ e.2.tree.root.kind.isExpression = true := by
  have hmem : e.2.tree.root ∈ b.tree.expressions := by
    rw [← b.map_root_exprs]
    exact List.mem_map_of_mem he
  exact List.mem_filter.1 hmem

theorem nodup_exprs (h : b.Numbered) : (b.exprs.map fun e => e.2.id).Nodup := by
  have hmap : (b.exprs.map fun e => e.2.id) = b.tree.expressions.map Node.id := by
    rw [← b.map_root_exprs, List.map_map]
    exact List.map_congr_left fun e _ => e.2.id_root.symm
  rw [hmap]
  exact h.nodup_ids.sublist (List.filter_sublist.map _)

/-- No two expressions have the same number. -/
theorem exprs_inj (h : b.Numbered) {e e' : Locals × Expr} (he : e ∈ b.exprs) (he' : e' ∈ b.exprs)
    (heq : e.2.id = e'.2.id) : e = e' :=
  List.inj_on_of_nodup_map h.nodup_exprs he he' heq

theorem id_notMem_bindings (h : b.Numbered) {e : Locals × Expr} (he : e ∈ b.exprs) :
    e.2.id ∉ b.tree.bindings := by
  intro hmem
  obtain ⟨n, hn, heq⟩ := List.mem_map.1 hmem
  obtain ⟨hn, hkind⟩ := List.mem_filter.1 hn
  obtain ⟨hroot, hroot'⟩ := root_mem_preorder he
  rw [← Expr.id_root] at heq
  rw [h.node_inj hn hroot heq] at hkind
  revert hkind hroot'
  cases e.2.tree.root.kind <;> simp [NodeKind.isBinding, NodeKind.isExpression]

theorem writtenTypes_inj (h : b.Numbered) {t t' : WrittenType} (ht : t ∈ b.writtenTypes)
    (ht' : t' ∈ b.writtenTypes) (heq : t.place.id = t'.place.id) : t = t' := by
  obtain ⟨n, hn, hhead⟩ := mem_writtenTypes.1 ht
  obtain ⟨n', hn', hhead'⟩ := mem_writtenTypes.1 ht'
  have hplace := (type_and_function_of_mem_preorder hn).1 t hhead
  have hplace' := (type_and_function_of_mem_preorder hn').1 t' hhead'
  have hid : n.id = n'.id := by rw [Node.id, Node.id, hplace, hplace', heq]
  rw [h.node_inj hn hn' hid, hhead'] at hhead
  exact (Head.type.inj hhead).symm

theorem functionNode_inj (h : b.Numbered) {d d' : FunctionDecl} (hd : d ∈ b.allFunctions)
    (hd' : d' ∈ b.allFunctions) (heq : d.place.id = d'.place.id) : d.node = d'.node :=
  h.node_inj (node_mem_preorder hd) (node_mem_preorder hd') heq

end Numbered

/-- A star is among the names of the unit. -/
def HasStar (b : Block) : Prop :=
  ∃ n ∈ b.tree.preorder, ∃ name ∈ n.head.names, name.name = "*"

/-- What the unit may name: its names look like identifiers, or they are a star. -/
def CanSay (b : Block) (name : String) : Prop := IsPlainName name ∨ name = "*" ∧ b.HasStar

/-- Nodes have numbers of their own, and names look like identifiers or are a star. Beside a star no
name is empty. -/
structure Named (b : Block) : Prop extends b.Numbered where
  isPlainName_or_star : ∀ n ∈ b.tree.preorder, ∀ name ∈ n.head.names,
    IsPlainName name.name ∨ name.name = "*"
  ne_empty : b.HasStar → ∀ n ∈ b.tree.preorder, ∀ name ∈ n.head.names, name.name ≠ ""

namespace Named

variable {b : Block}

theorem canSay (h : b.Named) {n : Node} (hn : n ∈ b.tree.preorder) {name : Ident}
    (hname : name ∈ n.head.names) : b.CanSay name.name :=
  (h.isPlainName_or_star n hn name hname).imp_right fun hstar => ⟨hstar, n, hn, name, hname, hstar⟩

theorem canSay_type (h : b.Named) {t : WrittenType} (ht : t ∈ b.writtenTypes) : b.CanSay t.name.name := by
  obtain ⟨n, hn, hhead⟩ := mem_writtenTypes.1 ht
  exact h.canSay hn (by simp [hhead, Head.names])

theorem isPlainName_or_star_class (h : b.Named) {d : ClassDecl} (hd : d ∈ b.classes) :
    IsPlainName d.name.name ∨ d.name.name = "*" :=
  h.isPlainName_or_star _ (classNode_mem_preorder hd) d.name (by simp [Head.names])

theorem ne_empty_class (h : b.Named) (hstar : b.HasStar) {d : ClassDecl} (hd : d ∈ b.classes) :
    d.name.name ≠ "" :=
  h.ne_empty hstar _ (classNode_mem_preorder hd) d.name (by simp [Head.names])

end Named

theorem hasStar_of_class {b : Block} {d : ClassDecl} (hd : d ∈ b.classes) (hname : d.name.name = "*") :
    b.HasStar := ⟨_, classNode_mem_preorder hd, d.name, by simp [Head.names], hname⟩

/-- Nodes have numbers of their own, and names look like identifiers. -/
structure Regular (b : Block) : Prop extends b.Numbered where
  isPlainName : ∀ n ∈ b.tree.preorder, ∀ name ∈ n.head.names, IsPlainName name.name

namespace Regular

variable {b : Block}

theorem not_hasStar (h : b.Regular) : ¬b.HasStar := by
  rintro ⟨n, hn, name, hname, hstar⟩
  have hplain := h.isPlainName n hn name hname
  rw [hstar] at hplain
  exact absurd hplain (by decide)

theorem named (h : b.Regular) : b.Named :=
  ⟨h.toNumbered, fun n hn name hname => .inl (h.isPlainName n hn name hname),
    fun hstar => absurd hstar h.not_hasStar⟩

theorem canSay_iff (h : b.Regular) {name : String} : b.CanSay name ↔ IsPlainName name :=
  or_iff_left fun hstar => h.not_hasStar hstar.2

theorem isPlainName_class (h : b.Regular) {d : ClassDecl} (hd : d ∈ b.classes) :
    IsPlainName d.name.name :=
  h.isPlainName _ (classNode_mem_preorder hd) d.name (by simp [Head.names])

theorem class_ne_star (h : b.Regular) {d : ClassDecl} (hd : d ∈ b.classes) : d.name.name ≠ "*" :=
  fun hname => h.not_hasStar (hasStar_of_class hd hname)

theorem isPlainName_type (h : b.Regular) {t : WrittenType} (ht : t ∈ b.writtenTypes) :
    IsPlainName t.name.name := by
  obtain ⟨n, hn, hhead⟩ := mem_writtenTypes.1 ht
  exact h.isPlainName n hn t.name (by simp [hhead, Head.names])

end Regular

end Block

end Sable
