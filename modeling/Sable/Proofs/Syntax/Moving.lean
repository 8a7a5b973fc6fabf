import Sable.Syntax.Parents

/-!
# Moving trees

A tree that is written elsewhere is the same tree, but its nodes and names have other spans, and
perhaps other numbers.

## Main definitions

* `Relocation`: where spans and numbers go, and the names of libraries.
* `Block.move`, `Expr.move`, `Tree.move`: a tree after a relocation.

## Main statements

* `Block.tree_move`: the plain view of a moved unit is the moved view.
* `Tree.preorder_move`: moving changes nodes one by one.
* `ParentMap.enclosingFunction?_move`: a moved node stands in the moved function.
-/
namespace Sable

structure Relocation where
  span : Span → Span
  /-- What is added to the numbers of nodes. -/
  shift : Nat := 0
  /-- What libraries are called. -/
  title : String → String := id

section

variable (φ : Relocation)

def Place.move (p : Place) : Place := ⟨p.id + φ.shift, φ.span p.span⟩

def Ident.move (name : Ident) : Ident := ⟨name.name, φ.span name.span⟩

@[simp] theorem Ident.move_name (name : Ident) : (name.move φ).name = name.name := rfl

@[simp] theorem Ident.move_span (name : Ident) : (name.move φ).span = φ.span name.span := rfl

@[simp] theorem Place.move_id (p : Place) : (p.move φ).id = p.id + φ.shift := rfl

@[simp] theorem Place.move_span (p : Place) : (p.move φ).span = φ.span p.span := rfl

def WrittenType.move (t : WrittenType) : WrittenType := ⟨t.place.move φ, t.name.move φ, t.stars⟩

@[simp] theorem WrittenType.move_place (t : WrittenType) : (t.move φ).place = t.place.move φ := rfl

@[simp] theorem WrittenType.move_name (t : WrittenType) : (t.move φ).name = t.name.move φ := rfl

@[simp] theorem WrittenType.move_stars (t : WrittenType) : (t.move φ).stars = t.stars := rfl

def Value.move : Value → Value
  | .identifier name => .identifier (name.move φ)
  | v => v

/-! ## Expressions and statements -/

mutual

def Expr.move : Expr → Expr
  | .value p v => .value (p.move φ) (v.move φ)
  | .unary p op operand => .unary (p.move φ) op operand.move
  | .binary p op left right => .binary (p.move φ) op left.move right.move
  | .access p kind object member => .access (p.move φ) kind object.move (member.move φ)
  | .call p callee arguments => .call (p.move φ) callee.move (Expr.moveAll arguments)
  | .cast p operand target => .cast (p.move φ) operand.move (target.move φ)
  | .index p target subscript => .index (p.move φ) target.move subscript.move

def Expr.moveAll : List Expr → List Expr
  | [] => []
  | e :: es => e.move :: Expr.moveAll es

end

theorem Expr.moveAll_eq_map (es : List Expr) : Expr.moveAll φ es = es.map (Expr.move φ) := by
  induction es with
  | nil => rfl
  | cons e es ih => rw [moveAll, ih, List.map_cons]

@[simp] theorem Expr.move_place (e : Expr) : (e.move φ).place = e.place.move φ := by
  cases e <;> simp only [move, place]

@[simp] theorem Expr.move_span (e : Expr) : (e.move φ).span = φ.span e.span := by
  rw [span, move_place, Place.move_span, span]

def VariableDecl.move (d : VariableDecl) : VariableDecl :=
  ⟨d.place.move φ, d.name.move φ, d.type.move φ, d.initializer.map (Expr.move φ)⟩

def Parameter.move (d : Parameter) : Parameter := ⟨d.place.move φ, d.name.move φ, d.type.move φ⟩

def ForInit.move : ForInit → ForInit
  | .nothing => .nothing
  | .variable d => .variable (d.move φ)
  | .expr e => .expr (e.move φ)

mutual

def Stmt.move : Stmt → Stmt
  | .label p name => .label (p.move φ) (name.move φ)
  | .goto p label => .goto (p.move φ) (label.move φ)
  | .returns p value => .returns (p.move φ) (value.map (Expr.move φ))
  | .breakLoop p => .breakLoop (p.move φ)
  | .continueLoop p => .continueLoop (p.move φ)
  | .variable d => .variable (d.move φ)
  | .expr e => .expr (e.move φ)
  | .branch b => .branch b.move
  | .whileLoop p condition body => .whileLoop (p.move φ) (condition.move φ) body.move
  | .forLoop p init condition step body =>
    .forLoop (p.move φ) (init.move φ) (condition.map (Expr.move φ)) (step.map (Expr.move φ))
      body.move

def Branch.move : Branch → Branch
  | .mk p condition body otherwise =>
    .mk (p.move φ) (condition.move φ) body.move otherwise.move

def Otherwise.move : Otherwise → Otherwise
  | .nothing => .nothing
  | .branch b => .branch b.move
  | .scope s => .scope s.move

def Scope.move : Scope → Scope
  | .mk p statements => .mk (p.move φ) (Stmt.moveAll statements)

def Stmt.moveAll : List Stmt → List Stmt
  | [] => []
  | s :: ss => s.move :: Stmt.moveAll ss

end

theorem Stmt.moveAll_eq_map (ss : List Stmt) : Stmt.moveAll φ ss = ss.map (Stmt.move φ) := by
  induction ss with
  | nil => rfl
  | cons s ss ih => rw [moveAll, ih, List.map_cons]

/-! ## Declarations -/

def FunctionDecl.move (d : FunctionDecl) : FunctionDecl where
  place := d.place.move φ
  name := d.name.move φ
  parameters := d.parameters.map (Parameter.move φ)
  returns := d.returns.map (WrittenType.move φ)
  body := d.body.move φ

def Member.move : Member → Member
  | .variable d => .variable (d.move φ)
  | .function d => .function (d.move φ)

def ClassDecl.move (d : ClassDecl) : ClassDecl :=
  ⟨d.place.move φ, d.name.move φ, d.members.map (Member.move φ)⟩

def Declaration.move : Declaration → Declaration
  | .classDecl d => .classDecl (d.move φ)
  | .function d => .function (d.move φ)
  | .variable d => .variable (d.move φ)

def Block.move (b : Block) : Block := ⟨b.place.move φ, b.declarations.map (Declaration.move φ)⟩

theorem Block.classes_move (b : Block) :
    (b.move φ).classes = b.classes.map (ClassDecl.move φ) := by
  rw [classes, classes, move, List.filterMap_map, List.map_filterMap]
  congr 1
  funext d
  cases d <;> rfl

/-! ## The plain view -/

def Head.move : Head → Head
  | .classDecl name => .classDecl (name.move φ)
  | .function name parameters result =>
    .function (name.move φ) (parameters.map (Parameter.move φ)) (result.map (WrittenType.move φ))
  | .parameter name => .parameter (name.move φ)
  | .variable name => .variable (name.move φ)
  | .type written => .type (written.move φ)
  | .label name => .label (name.move φ)
  | .goto name => .goto (name.move φ)
  | .value v => .value (v.move φ)
  | .access kind member => .access kind (member.move φ)
  | h => h

@[simp] theorem Head.move_kind (h : Head) : (h.move φ).kind = h.kind := by
  cases h <;> rfl

def Node.move (n : Node) : Node := ⟨n.place.move φ, n.head.move φ⟩

@[simp] theorem Node.move_id (n : Node) : (n.move φ).id = n.id + φ.shift := rfl

@[simp] theorem Node.move_head (n : Node) : (n.move φ).head = n.head.move φ := rfl

@[simp] theorem Node.move_kind (n : Node) : (n.move φ).kind = n.kind := n.head.move_kind φ

mutual

def Tree.move : Tree → Tree
  | .node n cs => .node (n.move φ) (Tree.moveAll cs)

def Tree.moveAll : List Tree → List Tree
  | [] => []
  | t :: ts => t.move :: Tree.moveAll ts

end

theorem Tree.moveAll_eq_map (ts : List Tree) : Tree.moveAll φ ts = ts.map (Tree.move φ) := by
  induction ts with
  | nil => rfl
  | cons t ts ih => rw [moveAll, ih, List.map_cons]

namespace Tree

mutual

theorem preorder_move : (t : Tree) → (t.move φ).preorder = t.preorder.map (Node.move φ)
  | .node n cs => by rw [move, preorder, preorder, preorders_moveAll cs, List.map_cons]

theorem preorders_moveAll : (ts : List Tree) →
    preorders (moveAll φ ts) = (preorders ts).map (Node.move φ)
  | [] => rfl
  | t :: ts => by
    rw [moveAll, preorders, preorders, preorder_move t, preorders_moveAll ts, List.map_append]

end

theorem size_move (t : Tree) : (t.move φ).size = t.size := by
  rw [← length_preorder, ← length_preorder, preorder_move, List.length_map]

end Tree

theorem WrittenType.tree_move (t : WrittenType) : (t.move φ).tree = t.tree.move φ := rfl

mutual

theorem Expr.tree_move : (e : Expr) → (e.move φ).tree = e.tree.move φ
  | .value _ _ => rfl
  | .unary _ _ operand => by
    simp [Expr.move, Expr.tree, Tree.move, Tree.moveAll, operand.tree_move, Node.move, Head.move]
  | .binary _ _ left right => by
    simp [Expr.move, Expr.tree, Tree.move, Tree.moveAll, left.tree_move, right.tree_move,
      Node.move, Head.move]
  | .access _ _ object _ => by
    simp [Expr.move, Expr.tree, Tree.move, Tree.moveAll, object.tree_move, Node.move, Head.move]
  | .call _ callee arguments => by
    simp [Expr.move, Expr.tree, Tree.move, Tree.moveAll, callee.tree_move,
      Expr.trees_moveAll arguments, Node.move, Head.move]
  | .cast _ operand target => by
    simp [Expr.move, Expr.tree, Tree.move, Tree.moveAll, operand.tree_move, target.tree_move,
      Node.move, Head.move]
  | .index _ target subscript => by
    simp [Expr.move, Expr.tree, Tree.move, Tree.moveAll, target.tree_move, subscript.tree_move,
      Node.move, Head.move]

theorem Expr.trees_moveAll : (es : List Expr) →
    Expr.trees (Expr.moveAll φ es) = Tree.moveAll φ (Expr.trees es)
  | [] => rfl
  | e :: es => by
    rw [Expr.moveAll, Expr.trees, Expr.trees, Tree.moveAll, e.tree_move, Expr.trees_moveAll es]

end

theorem Expr.optionTrees_map_move (e : Option Expr) :
    Expr.optionTrees (e.map (Expr.move φ)) = (Expr.optionTrees e).map (Tree.move φ) := by
  cases e <;> simp [optionTrees, tree_move]

theorem VariableDecl.tree_move (d : VariableDecl) : (d.move φ).tree = d.tree.move φ := by
  simp [tree, move, Tree.move, Tree.moveAll_eq_map, Expr.optionTrees_map_move,
    WrittenType.tree_move, Node.move, Head.move]

theorem Parameter.tree_move (d : Parameter) : (d.move φ).tree = d.tree.move φ := rfl

theorem ForInit.trees_move (init : ForInit) :
    (init.move φ).trees = init.trees.map (Tree.move φ) := by
  cases init <;> simp [move, trees, VariableDecl.tree_move, Expr.tree_move]

theorem ForInit.kind_move (init : ForInit) : (init.move φ).kind = init.kind := by
  cases init <;> rfl

theorem Otherwise.kind_move (o : Otherwise) : (o.move φ).kind = o.kind := by
  cases o <;> simp only [move, kind]

mutual

theorem Stmt.tree_move : (s : Stmt) → (s.move φ).tree = s.tree.move φ
  | .label .. | .goto .. | .breakLoop _ | .continueLoop _ => by
    simp [Stmt.move, Stmt.tree, Tree.move, Tree.moveAll, Node.move, Head.move]
  | .returns _ value => by
    simp [Stmt.move, Stmt.tree, Tree.move, Tree.moveAll_eq_map, Expr.optionTrees_map_move,
      Node.move, Head.move]
  | .variable d => by rw [Stmt.move, Stmt.tree, Stmt.tree, d.tree_move]
  | .expr e => by rw [Stmt.move, Stmt.tree, Stmt.tree, e.tree_move]
  | .branch b => by rw [Stmt.move, Stmt.tree, Stmt.tree, b.tree_move]
  | .whileLoop _ condition body => by
    simp [Stmt.move, Stmt.tree, Tree.move, Tree.moveAll, condition.tree_move, body.tree_move,
      Node.move, Head.move]
  | .forLoop _ init condition step body => by
    simp [Stmt.move, Stmt.tree, Tree.move, Tree.moveAll_eq_map, Expr.optionTrees_map_move,
      init.trees_move, init.kind_move, body.tree_move, Node.move, Head.move]

theorem Branch.tree_move : (b : Branch) → (b.move φ).tree = b.tree.move φ
  | .mk _ condition body otherwise => by
    simp [Branch.move, Branch.tree, Tree.move, Tree.moveAll_eq_map, condition.tree_move,
      body.tree_move, otherwise.trees_move, otherwise.kind_move, Node.move, Head.move]

theorem Otherwise.trees_move : (o : Otherwise) →
    (o.move φ).trees = o.trees.map (Tree.move φ)
  | .nothing => by rw [Otherwise.move, Otherwise.trees, List.map_nil]
  | .branch b => by
    rw [Otherwise.move, Otherwise.trees, Otherwise.trees, b.tree_move, List.map_singleton]
  | .scope s => by
    rw [Otherwise.move, Otherwise.trees, Otherwise.trees, s.tree_move, List.map_singleton]

theorem Scope.tree_move : (s : Scope) → (s.move φ).tree = s.tree.move φ
  | .mk _ statements => by
    simp [Scope.move, Scope.tree, Tree.move, Stmt.trees_moveAll statements, Node.move, Head.move]

theorem Stmt.trees_moveAll : (ss : List Stmt) →
    Stmt.trees (Stmt.moveAll φ ss) = Tree.moveAll φ (Stmt.trees ss)
  | [] => by rw [Stmt.moveAll, Stmt.trees, Tree.moveAll]
  | s :: ss => by
    rw [Stmt.moveAll, Stmt.trees, Stmt.trees, Tree.moveAll, s.tree_move, Stmt.trees_moveAll ss]

end

theorem FunctionDecl.tree_move (d : FunctionDecl) : (d.move φ).tree = d.tree.move φ := by
  have hreturns (t : Option WrittenType) : (t.map (WrittenType.move φ)).toList.map WrittenType.tree =
      t.toList.map (Tree.move φ ∘ WrittenType.tree) := by
    cases t <;> rfl
  simp [tree, move, Tree.move, Tree.moveAll_eq_map, Scope.tree_move, hreturns,
    Parameter.tree_move, Node.move, Head.move]

theorem Member.tree_move : (m : Member) → (m.move φ).tree = m.tree.move φ
  | .variable d => d.tree_move φ
  | .function d => d.tree_move φ

theorem ClassDecl.tree_move (d : ClassDecl) : (d.move φ).tree = d.tree.move φ := by
  simp [tree, move, Tree.move, Tree.moveAll_eq_map, Member.tree_move, Node.move, Head.move]

theorem Declaration.tree_move : (d : Declaration) → (d.move φ).tree = d.tree.move φ
  | .classDecl d => d.tree_move φ
  | .function d => d.tree_move φ
  | .variable d => d.tree_move φ

theorem Block.tree_move (b : Block) : (b.move φ).tree = b.tree.move φ := by
  simp [tree, move, Tree.move, Tree.moveAll_eq_map, Declaration.tree_move, Node.move, Head.move]

/-! ## Parents -/

namespace ParentMap

def move (m : ParentMap) : ParentMap :=
  ⟨m.rows.map fun (n, parent) => (n.move φ, parent.map (· + φ.shift))⟩

theorem link_move (bound : Nat) (stack : List (Tree × Option NodeId)) :
    link bound (stack.map fun (t, parent) => (t.move φ, parent.map (· + φ.shift))) =
      (link bound stack).map fun (n, parent) => (n.move φ, parent.map (· + φ.shift)) := by
  induction bound generalizing stack with
  | zero => cases stack <;> rfl
  | succ bound ih =>
    obtain _ | ⟨⟨⟨n, cs⟩, parent⟩, stack⟩ := stack
    · rfl
    · have hstack := ih (cs.map (·, some n.id) ++ stack)
      simp only [List.map_append, List.map_map] at hstack
      simp only [link, List.map_cons, Tree.move, Tree.moveAll_eq_map, List.map_map, ← hstack]
      rfl

theorem build_move (t : Tree) : build (t.move φ) = (build t).move φ := by
  have := link_move φ t.size [(t, none)]
  rw [build, build, move, t.size_move φ]
  exact congrArg ParentMap.mk this

variable (m : ParentMap) (id : NodeId)

theorem row?_move : (m.move φ).row? (id + φ.shift) =
    (m.row? id).map fun (n, parent) => (n.move φ, parent.map (· + φ.shift)) := by
  rw [row?, row?, move, List.find?_map]
  congr 2
  funext row
  rw [Function.comp, Node.move_id, Bool.eq_iff_iff, beq_iff_eq, beq_iff_eq, Nat.add_right_cancel_iff]

theorem node?_move : (m.move φ).node? (id + φ.shift) = (m.node? id).map (Node.move φ) := by
  rw [node?, node?, row?_move, Option.map_map, Option.map_map]
  rfl

theorem parent?_move : (m.move φ).parent? (id + φ.shift) = (m.parent? id).map (Node.move φ) := by
  rw [parent?, parent?, row?_move]
  obtain _ | ⟨n, _ | parent⟩ := m.row? id
  · rfl
  · rfl
  · exact m.node?_move φ parent

theorem ancestorsWithin_move (bound : Nat) : (m.move φ).ancestorsWithin bound (id + φ.shift) =
    (m.ancestorsWithin bound id).map (Node.move φ) := by
  induction bound generalizing id with
  | zero => rfl
  | succ bound ih =>
    rw [ancestorsWithin, ancestorsWithin, parent?_move]
    cases m.parent? id with
    | none => rfl
    | some p => exact congrArg (p.move φ :: ·) (ih p.id)

theorem enclosingFunction?_move : (m.move φ).enclosingFunction? (id + φ.shift) =
    (m.enclosingFunction? id).map (Node.move φ) := by
  have hsize : (m.move φ).size = m.size := by simp [size, move]
  rw [enclosingFunction?, enclosingFunction?, ancestors, ancestors, hsize, ancestorsWithin_move,
    List.find?_map]
  congr 2
  funext n
  simp [Function.comp]

end ParentMap

end

end Sable
