import Sable.Syntax.Tree

/-!
# Walks

A walk offers the nodes of a tree to a visitor, parents first. The visitor may stop at a node,
which keeps the walk from the nodes below it. A node goes to the most specific handler that the
visitor has for it: the handlers of its kind, of expressions that end in an operator, of
expressions, of statements and of all nodes are tried in this order, so far as they concern it.

## Main definitions

* `Hook`, `NodeKind.hooks`: the handlers that concern a node, the most specific first.
* `Visitor`: a handler for some of the hooks.
* `Tree.walk`: the walk.
* `Visitor.recorder`: writes down which handler got which node.
-/
namespace Sable

inductive Verdict
  | proceed | stop
  deriving DecidableEq, Inhabited

inductive Hook
  | kind (k : NodeKind)
  | postExpression
  | expression
  | statement
  | node
  deriving DecidableEq, Inhabited

/-- The handlers that concern a node of a kind. -/
def NodeKind.hooks (k : NodeKind) : List Hook :=
  .kind k :: match k with
  | .access | .call | .cast | .index => [.postExpression, .expression, .statement, .node]
  | .value | .unary | .binary => [.expression, .statement, .node]
  | .variable | .scope | .label | .goto | .returns | .breakLoop | .continueLoop | .branch
  | .whileLoop | .forLoop => [.statement, .node]
  | .block | .classDecl | .function | .parameter | .type => [.node]

/-- A handler gets the node and what the next more general handler would do with it. -/
structure Visitor (σ : Type) where
  handler? : Hook → Option (Node → StateM σ Verdict → StateM σ Verdict)

namespace Visitor

variable {σ : Type}

/-- Gives a node to the first handler; a node without one is passed over. -/
def dispatch (v : Visitor σ) (n : Node) : List Hook → StateM σ Verdict
  | [] => pure .proceed
  | hook :: rest =>
    match v.handler? hook with
    | some handle => handle n (v.dispatch n rest)
    | none => v.dispatch n rest

def offer (v : Visitor σ) (n : Node) : StateM σ Verdict := v.dispatch n n.kind.hooks

/-- A visitor that writes down each hook with its node. It stops at the kinds of `stops`. If it
forwards, the hooks between the kind of a node and all nodes leave the verdict to the next. -/
def recorder (overridden : List Hook) (forwards : Bool) (stops : List NodeKind) :
    Visitor (List (Hook × Node)) where
  handler? hook :=
    if hook ∈ overridden then
      some fun n next => do
        modify (· ++ [(hook, n)])
        match hook, forwards with
        | .postExpression, true | .expression, true | .statement, true => next
        | _, _ => return if n.kind ∈ stops then .stop else .proceed
    else none

end Visitor

namespace Tree

variable {σ : Type}

mutual

def walk (v : Visitor σ) : Tree → StateM σ Unit
  | .node n cs => do
    match ← v.offer n with
    | .stop => return
    | .proceed => walkAll v cs

def walkAll (v : Visitor σ) : List Tree → StateM σ Unit
  | [] => return
  | t :: ts => do
    t.walk v
    walkAll v ts

end

/-- A walk that leaves out the root itself. -/
def walkChildren (v : Visitor σ) (t : Tree) : StateM σ Unit := walkAll v t.children

end Tree

end Sable
