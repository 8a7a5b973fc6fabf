import Mathlib.Data.List.Basic
import Mathlib.Tactic.Common
import Sable.Syntax.Tree

/-!
# Nodes of trees

## Main definitions

* `Head.names`: the names that stand in a node.
* `NodeKind.isExpression`, `NodeKind.isBinding`, `Head.isBuiltin`: sorts of nodes.

## Main statements

* `Tree.preorder_perm_postorder`: both orders meet the same nodes.
-/
namespace Sable

/-- The names that a node itself says. -/
def Head.names : Head → List Ident
  | .classDecl name | .function name _ _ | .parameter name | .variable name | .label name
  | .goto name | .access _ name | .value (.identifier name) => [name]
  | .type written => [written.name]
  | _ => []

def NodeKind.isExpression : NodeKind → Bool
  | .value | .unary | .binary | .access | .call | .cast | .index => true
  | _ => false

/-- What is checked by itself, apart from `break`, `continue` and `return`. -/
def NodeKind.isChecked : NodeKind → Bool
  | .value | .unary | .binary | .access | .call | .cast | .index | .goto => true
  | _ => false

/-- Literals and operators: what they give has a built-in type, or may have one. -/
def Head.isBuiltin : Head → Bool
  | .value (.identifier _) => false
  | .value _ | .unary _ | .binary _ => true
  | _ => false

/-- What declares a name; classes are known before all others. -/
def NodeKind.isBinding : NodeKind → Bool
  | .function | .parameter | .variable | .label => true
  | _ => false

namespace Tree

@[simp] theorem sizes_append (ts us : List Tree) : sizes (ts ++ us) = sizes ts + sizes us := by
  induction ts with
  | nil => simp [sizes]
  | cons t ts ih => simp only [List.cons_append, sizes, ih, Nat.add_assoc]

@[simp] theorem postorders_append (ts us : List Tree) :
    postorders (ts ++ us) = postorders ts ++ postorders us := by
  induction ts with
  | nil => rfl
  | cons t ts ih => simp only [List.cons_append, postorders, ih, List.append_assoc]

@[simp] theorem preorders_append (ts us : List Tree) :
    preorders (ts ++ us) = preorders ts ++ preorders us := by
  induction ts with
  | nil => rfl
  | cons t ts ih => simp only [List.cons_append, preorders, ih, List.append_assoc]

theorem preorders_eq_flatMap (ts : List Tree) : preorders ts = ts.flatMap preorder := by
  induction ts with
  | nil => rfl
  | cons t ts ih => rw [preorders, ih, List.flatMap_cons]

theorem mem_preorders {n : Node} {ts : List Tree} :
    n ∈ preorders ts ↔ ∃ t ∈ ts, n ∈ t.preorder := by
  rw [preorders_eq_flatMap, List.mem_flatMap]

mutual

theorem preorder_perm_postorder : (t : Tree) → t.preorder.Perm t.postorder
  | .node n cs => by
    rw [preorder, postorder]
    exact (preorders_perm_postorders cs).cons n |>.trans (List.perm_append_singleton _ _).symm

theorem preorders_perm_postorders : (ts : List Tree) → (preorders ts).Perm (postorders ts)
  | [] => .nil
  | t :: ts => (preorder_perm_postorder t).append (preorders_perm_postorders ts)

end

end Tree

theorem Expr.trees_eq_map (es : List Expr) : Expr.trees es = es.map Expr.tree := by
  induction es with
  | nil => rfl
  | cons e es ih => rw [Expr.trees, ih, List.map_cons]

theorem Expr.isExpression_root (e : Expr) : e.tree.root.kind.isExpression = true := by
  cases e <;> rfl

theorem Expr.mem_optionTrees {e : Expr} {o : Option Expr} (h : e ∈ o) :
    e.tree ∈ Expr.optionTrees o :=
  List.mem_map_of_mem (Option.mem_toList.2 h)

theorem Expr.span_root (e : Expr) : e.tree.root.span = e.span := by
  cases e <;> rfl

theorem Tree.root_mem_postorder (t : Tree) : t.root ∈ t.postorder := by
  cases t
  simp [postorder, root]

theorem Tree.root_mem_preorder (t : Tree) : t.root ∈ t.preorder := by
  cases t
  exact List.mem_cons_self

theorem Stmt.trees_eq_map (ss : List Stmt) : Stmt.trees ss = ss.map Stmt.tree := by
  induction ss with
  | nil => rfl
  | cons s ss ih => rw [Stmt.trees, ih, List.map_cons]

end Sable
