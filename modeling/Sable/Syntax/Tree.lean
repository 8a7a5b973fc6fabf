import Sable.Syntax.Basic

/-!
# Trees of nodes

The plain view of a syntax tree: each node by itself, with its children in the order in which they
are written. What holds of all nodes alike is said here once.

## Main definitions

* `Head`: what a node says apart from its children; `NodeKind` is its sort.
* `Tree`: a node and its children.
* `Block.tree`, `Expr.tree`: the view of a unit and of an expression.
* `Tree.preorder`, `Tree.postorder`: the nodes of a tree, parents before or after their children.
-/
namespace Sable

inductive NodeKind
  | block | classDecl | function | parameter | variable | type | scope
  | label | goto | returns | breakLoop | continueLoop | branch | whileLoop | forLoop
  | value | unary | binary | access | call | cast | index
  deriving DecidableEq, Inhabited

def NodeKind.name : NodeKind → String
  | .block => "Block"
  | .classDecl => "Class"
  | .function => "Function"
  | .parameter => "Parameter"
  | .variable => "Variable"
  | .type => "Type"
  | .scope => "Scope"
  | .label => "Label"
  | .goto => "Goto"
  | .returns => "Return"
  | .breakLoop => "Break"
  | .continueLoop => "Continue"
  | .branch => "If"
  | .whileLoop => "While"
  | .forLoop => "For"
  | .value => "Value"
  | .unary => "UnaryOperator"
  | .binary => "BinaryOperator"
  | .access => "MemberAccess"
  | .call => "Call"
  | .cast => "Cast"
  | .index => "Index"

/-- What follows the scope of a condition, without its content. -/
inductive ElseKind
  | nothing | branch | scope
  deriving DecidableEq, Inhabited

/-- What a `for` begins with, without its content. -/
inductive InitKind
  | nothing | variable | expr
  deriving DecidableEq, Inhabited

inductive Head
  | block
  | classDecl (name : Ident)
  | function (name : Ident) (parameters : List Parameter) (returns : Option WrittenType)
  | parameter (name : Ident)
  | variable (name : Ident)
  | type (written : WrittenType)
  | scope
  | label (name : Ident)
  | goto (label : Ident)
  | returns
  | breakLoop
  | continueLoop
  | branch (otherwise : ElseKind)
  | whileLoop
  | forLoop (init : InitKind) (hasCondition hasStep : Bool)
  | value (v : Value)
  | unary (op : UnaryOp)
  | binary (op : BinaryOp)
  | access (kind : AccessKind) (member : Ident)
  | call
  | cast
  | index
  deriving DecidableEq, Inhabited

def Head.kind : Head → NodeKind
  | .block => .block
  | .classDecl .. => .classDecl
  | .function .. => .function
  | .parameter .. => .parameter
  | .variable .. => .variable
  | .type .. => .type
  | .scope => .scope
  | .label .. => .label
  | .goto .. => .goto
  | .returns => .returns
  | .breakLoop => .breakLoop
  | .continueLoop => .continueLoop
  | .branch .. => .branch
  | .whileLoop => .whileLoop
  | .forLoop .. => .forLoop
  | .value .. => .value
  | .unary .. => .unary
  | .binary .. => .binary
  | .access .. => .access
  | .call => .call
  | .cast => .cast
  | .index => .index

structure Node where
  place : Place
  head : Head
  deriving DecidableEq, Inhabited

namespace Node

def id (n : Node) : NodeId := n.place.id

def span (n : Node) : Span := n.place.span

def kind (n : Node) : NodeKind := n.head.kind

end Node

inductive Tree
  | node (root : Node) (children : List Tree)
  deriving Inhabited

/-! ## The view of a unit -/

def WrittenType.tree (t : WrittenType) : Tree := .node ⟨t.place, .type t⟩ []

mutual

def Expr.tree : Expr → Tree
  | .value p v => .node ⟨p, .value v⟩ []
  | .unary p op operand => .node ⟨p, .unary op⟩ [operand.tree]
  | .binary p op left right => .node ⟨p, .binary op⟩ [left.tree, right.tree]
  | .access p kind object member => .node ⟨p, .access kind member⟩ [object.tree]
  | .call p callee arguments => .node ⟨p, .call⟩ (callee.tree :: Expr.trees arguments)
  | .cast p operand target => .node ⟨p, .cast⟩ [operand.tree, target.tree]
  | .index p target subscript => .node ⟨p, .index⟩ [target.tree, subscript.tree]

def Expr.trees : List Expr → List Tree
  | [] => []
  | e :: es => e.tree :: Expr.trees es

end

def Expr.optionTrees (e : Option Expr) : List Tree := e.toList.map Expr.tree

def VariableDecl.tree (d : VariableDecl) : Tree :=
  .node ⟨d.place, .variable d.name⟩ (d.type.tree :: Expr.optionTrees d.initializer)

def Parameter.tree (d : Parameter) : Tree := .node ⟨d.place, .parameter d.name⟩ [d.type.tree]

def ForInit.trees : ForInit → List Tree
  | .nothing => []
  | .variable d => [d.tree]
  | .expr e => [e.tree]

def ForInit.kind : ForInit → InitKind
  | .nothing => .nothing
  | .variable _ => .variable
  | .expr _ => .expr

def Otherwise.kind : Otherwise → ElseKind
  | .nothing => .nothing
  | .branch _ => .branch
  | .scope _ => .scope

mutual

def Stmt.tree : Stmt → Tree
  | .label p name => .node ⟨p, .label name⟩ []
  | .goto p label => .node ⟨p, .goto label⟩ []
  | .returns p value => .node ⟨p, .returns⟩ (Expr.optionTrees value)
  | .breakLoop p => .node ⟨p, .breakLoop⟩ []
  | .continueLoop p => .node ⟨p, .continueLoop⟩ []
  | .variable d => d.tree
  | .expr e => e.tree
  | .branch b => b.tree
  | .whileLoop p condition body => .node ⟨p, .whileLoop⟩ [condition.tree, body.tree]
  | .forLoop p init condition step body =>
    .node ⟨p, .forLoop init.kind condition.isSome step.isSome⟩
      (init.trees ++ Expr.optionTrees condition ++ Expr.optionTrees step ++ [body.tree])

def Branch.tree : Branch → Tree
  | .mk p condition body otherwise =>
    .node ⟨p, .branch otherwise.kind⟩ (condition.tree :: body.tree :: otherwise.trees)

def Otherwise.trees : Otherwise → List Tree
  | .nothing => []
  | .branch b => [b.tree]
  | .scope s => [s.tree]

def Scope.tree : Scope → Tree
  | .mk p statements => .node ⟨p, .scope⟩ (Stmt.trees statements)

def Stmt.trees : List Stmt → List Tree
  | [] => []
  | s :: ss => s.tree :: Stmt.trees ss

end

def FunctionDecl.tree (d : FunctionDecl) : Tree :=
  .node ⟨d.place, .function d.name d.parameters d.returns⟩
    (d.parameters.map Parameter.tree ++ d.returns.toList.map WrittenType.tree ++ [d.body.tree])

def Member.tree : Member → Tree
  | .variable d => d.tree
  | .function d => d.tree

def ClassDecl.tree (d : ClassDecl) : Tree :=
  .node ⟨d.place, .classDecl d.name⟩ (d.members.map Member.tree)

def Declaration.tree : Declaration → Tree
  | .classDecl d => d.tree
  | .function d => d.tree
  | .variable d => d.tree

def Block.tree (b : Block) : Tree := .node ⟨b.place, .block⟩ (b.declarations.map Declaration.tree)

/-! ## All nodes of a tree -/

namespace Tree

def root : Tree → Node
  | .node n _ => n

def children : Tree → List Tree
  | .node _ cs => cs

def id (t : Tree) : NodeId := t.root.id

mutual

def size : Tree → Nat
  | .node _ cs => sizes cs + 1

/-- The number of nodes of several trees. -/
def sizes : List Tree → Nat
  | [] => 0
  | t :: ts => t.size + sizes ts

end

mutual

def preorder : Tree → List Node
  | .node n cs => n :: preorders cs

def preorders : List Tree → List Node
  | [] => []
  | t :: ts => t.preorder ++ preorders ts

end

mutual

def postorder : Tree → List Node
  | .node n cs => postorders cs ++ [n]

def postorders : List Tree → List Node
  | [] => []
  | t :: ts => t.postorder ++ postorders ts

end

mutual

/-- The nodes in preorder, each with the number of its parent. -/
def withParents (parent : Option NodeId) : Tree → List (Node × Option NodeId)
  | .node n cs => (n, parent) :: allWithParents (some n.id) cs

def allWithParents (parent : Option NodeId) : List Tree → List (Node × Option NodeId)
  | [] => []
  | t :: ts => t.withParents parent ++ allWithParents parent ts

end

mutual

theorem length_preorder : (t : Tree) → t.preorder.length = t.size
  | .node n cs => by simp [preorder, size, length_preorders cs]

theorem length_preorders : (ts : List Tree) → (preorders ts).length = sizes ts
  | [] => rfl
  | t :: ts => by simp [preorders, sizes, length_preorder t, length_preorders ts]

end

end Tree

end Sable
