import Sable.Proofs.Typing.Nodes
import Sable.Proofs.Typing.World

/-!
# Where errors are

The errors that are found in a check are about something that is written there.

## Main definitions

* `Tree.LiesIn`: where the nodes of a tree and their names stand.
* `Found.IsAbout`: which places the errors are about.

## Main statements

* `World.isAbout_check`: the errors that are found in a check.
* `Scope.liesIn_checks`, `Scope.liesIn_locals`: what is checked and declared in the body of a
  function.
-/
namespace Sable

variable {P : Span → Prop}

/-! ## Trees -/

/-- The node and the names that it says stand at places with the property. -/
structure Node.LiesIn (P : Span → Prop) (n : Node) : Prop where
  span : P n.span
  names : ∀ name ∈ n.head.names, P name.span

/-- All nodes stand at places with the property. -/
def Tree.LiesIn (P : Span → Prop) (t : Tree) : Prop := ∀ n ∈ t.preorder, n.LiesIn P

theorem Tree.liesIn_of_forall (h : ∀ span, P span) (t : Tree) : t.LiesIn P :=
  fun _ _ => ⟨h _, fun _ _ => h _⟩

theorem Tree.liesIn_node {n : Node} {ts : List Tree} :
    (Tree.node n ts).LiesIn P ↔ n.LiesIn P ∧ ∀ t ∈ ts, t.LiesIn P :=
  Tree.forall_mem_preorder_node

theorem Expr.span_of_liesIn {e : Expr} (h : e.tree.LiesIn P) : P e.span := by
  cases e <;>
    · rw [Expr.tree, Tree.liesIn_node] at h
      exact h.1.span

/-! ## Answers -/

namespace Found

variable {α β : Type}

/-- All errors are about places with the property. -/
def IsAbout (P : Span → Prop) (m : Found α) : Prop := ∀ e ∈ m.errors, P e.span

theorem isAbout_pure (x : α) : (pure x : Found α).IsAbout P := by simp [IsAbout]

theorem isAbout_fail {e : SemanticError} (h : P e.span) : (fail e : Found (Option α)).IsAbout P :=
  List.forall_mem_singleton.2 h

theorem isAbout_report {e : SemanticError} (h : P e.span) : (report e).IsAbout P :=
  List.forall_mem_singleton.2 h

theorem IsAbout.bind {m : Found α} {f : α → Found β} (h : m.IsAbout P)
    (hf : ∀ x, (f x).IsAbout P) : (m >>= f).IsAbout P :=
  List.forall_mem_append.2 ⟨h, hf _⟩

theorem isAbout_withType {x : Option Entity} {rule : Entity → Found (Option Entity)}
    (h : ∀ t, (rule t).IsAbout P) : (withType x rule).IsAbout P := by
  cases x with
  | none => exact isAbout_pure none
  | some t => exact h t

end Found

/-! ## Rules -/

namespace World

open Found

variable (W : World) {Γ : Locals} {span : Span}

theorem isAbout_builtin (name : String) (h : P span) : (W.builtin name span).IsAbout P := by
  unfold builtin
  split
  · exact isAbout_pure _
  · exact isAbout_fail h

theorem isAbout_pointerToBuiltin (name : String) (h : P span) :
    (W.pointerToBuiltin name span).IsAbout P :=
  (W.isAbout_builtin name h).bind fun x => by cases x <;> exact isAbout_pure _

theorem isAbout_typeIdentifier {name : Ident} (h : P name.span) :
    (W.typeIdentifier Γ name).IsAbout P := by
  unfold typeIdentifier
  split
  · exact isAbout_pure _
  · exact isAbout_fail h

theorem isAbout_typeValue {place : Place} {v : Value}
    (h : Node.LiesIn P ⟨place, .value v⟩) : (W.typeValue Γ place v).IsAbout P := by
  cases v with
  | integer | float | boolean | character => exact W.isAbout_builtin _ h.span
  | string | null => exact W.isAbout_pointerToBuiltin _ h.span
  | identifier name => exact W.isAbout_typeIdentifier (h.names name (List.mem_singleton_self name))

/-- Only a missing built-in type is an error in an operator that takes its operands. -/
theorem isAbout_of_mem_unary? {op : UnaryOp} {t : Entity} {m : Found (Option Entity)}
    (hm : m ∈ W.unary? op t span) (h : P span) : m.IsAbout P := by
  have hbuiltin := W.isAbout_builtin Library.booleanName h
  cases op <;> simp only [unary?, Option.mem_def, Option.map_eq_some_iff] at hm <;> grind [isAbout_pure]

theorem isAbout_of_mem_binary? {op : BinaryOp} {t u : Entity} {m : Found (Option Entity)}
    (hm : m ∈ W.binary? op t u span) (h : P span) : m.IsAbout P := by
  have hboolean := W.isAbout_builtin Library.booleanName h
  have hinteger := W.isAbout_builtin Library.integerName h
  cases op <;> simp only [binary?, Option.mem_def] at hm <;> grind [isAbout_pure]

theorem isAbout_typeUnary (op : UnaryOp) (t : Entity) (h : P span) :
    (W.typeUnary span op t).IsAbout P := by
  rw [typeUnary]
  cases hm : W.unary? op t span with
  | none => exact isAbout_fail h
  | some m => exact W.isAbout_of_mem_unary? hm h

theorem isAbout_binaryResult (op : BinaryOp) (t u : Entity) (x : Option Entity) (h : P span) :
    (W.binaryResult span op t u x).IsAbout P := by
  unfold binaryResult
  split
  · exact isAbout_pure _
  · exact isAbout_fail h

theorem isAbout_typeBinary (op : BinaryOp) (t u : Entity) (h : P span) :
    (W.typeBinary span op t u).IsAbout P := by
  refine IsAbout.bind ?_ fun x => W.isAbout_binaryResult op t u x h
  cases hm : W.binary? (op.compound?.getD op) t u span with
  | none => exact isAbout_pure none
  | some m => exact W.isAbout_of_mem_binary? hm h

theorem isAbout_typeAccess {place : Place} {kind : AccessKind} {t : Entity} {member : Ident}
    (h : Node.LiesIn P ⟨place, .access kind member⟩) :
    (W.typeAccess place kind t member).IsAbout P := by
  unfold typeAccess
  split
  · exact isAbout_fail h.span
  · split
    · exact isAbout_fail (h.names member (List.mem_singleton_self member))
    · exact isAbout_pure _

theorem isAbout_compareArguments (t : Entity) (xs : List (Option Entity)) (ps : List Entity)
    (h : P span) : (W.compareArguments span t xs ps).IsAbout P := by
  unfold compareArguments
  split
  · split
    · exact isAbout_report h
    · exact isAbout_pure ()
  · exact isAbout_pure ()

theorem isAbout_typeCall {calleeSpan : Span} (t : Entity) (xs : List (Option Entity)) (h : P span)
    (hcallee : P calleeSpan) : (W.typeCall span calleeSpan t xs).IsAbout P := by
  unfold typeCall
  split
  · exact (W.isAbout_compareArguments t xs _ h).bind fun _ => isAbout_pure _
  · exact isAbout_fail hcallee

theorem isAbout_typeCast (t u : Entity) (h : P span) : (W.typeCast span t u).IsAbout P := by
  unfold typeCast
  split
  · exact isAbout_pure _
  · exact isAbout_fail h

theorem isAbout_typeIndex (t u : Entity) (h : P span) : (W.typeIndex span t u).IsAbout P := by
  unfold typeIndex
  split
  · exact isAbout_pure _
  · exact isAbout_fail h

/-! ## Expressions -/

mutual

/-- The errors in an expression are about its parts. -/
theorem isAbout_typeExpr : (e : Expr) → e.tree.LiesIn P → (W.typeExpr Γ e).IsAbout P
  | .value place v, h => by
    rw [Expr.tree, Tree.liesIn_node] at h
    rw [typeExpr]
    exact W.isAbout_typeValue h.1
  | .unary place op operand, h => by
    rw [Expr.tree, Tree.liesIn_node] at h
    rw [typeExpr]
    exact (isAbout_typeExpr operand (h.2 _ (by simp))).bind fun x =>
      isAbout_withType fun t => W.isAbout_typeUnary op t h.1.span
  | .binary place op left right, h => by
    rw [Expr.tree, Tree.liesIn_node] at h
    rw [typeExpr]
    exact (isAbout_typeExpr left (h.2 _ (by simp))).bind fun x =>
      (isAbout_typeExpr right (h.2 _ (by simp))).bind fun y =>
        isAbout_withType fun t => isAbout_withType fun u => W.isAbout_typeBinary op t u h.1.span
  | .access place kind object member, h => by
    rw [Expr.tree, Tree.liesIn_node] at h
    rw [typeExpr]
    exact (isAbout_typeExpr object (h.2 _ (by simp))).bind fun x =>
      isAbout_withType fun t => W.isAbout_typeAccess h.1
  | .call place callee arguments, h => by
    rw [Expr.tree, Tree.liesIn_node, List.forall_mem_cons] at h
    rw [typeExpr]
    exact (isAbout_typeExpr callee h.2.1).bind fun x =>
      (isAbout_typeExprs arguments h.2.2).bind fun xs => isAbout_withType fun t =>
        W.isAbout_typeCall t xs h.1.span (Expr.span_of_liesIn h.2.1)
  | .cast place operand target, h => by
    rw [Expr.tree, Tree.liesIn_node] at h
    rw [typeExpr]
    exact (isAbout_typeExpr operand (h.2 _ (by simp))).bind fun x =>
      isAbout_withType fun t => isAbout_withType fun u => W.isAbout_typeCast t u h.1.span
  | .index place target subscript, h => by
    rw [Expr.tree, Tree.liesIn_node] at h
    rw [typeExpr]
    exact (isAbout_typeExpr target (h.2 _ (by simp))).bind fun x =>
      (isAbout_typeExpr subscript (h.2 _ (by simp))).bind fun y =>
        isAbout_withType fun t => isAbout_withType fun u => W.isAbout_typeIndex t u h.1.span

theorem isAbout_typeExprs : (es : List Expr) → (∀ t ∈ Expr.trees es, t.LiesIn P) →
    (W.typeExprs Γ es).IsAbout P
  | [], _ => by
    rw [typeExprs]
    exact isAbout_pure _
  | e :: es, h => by
    rw [Expr.trees, List.forall_mem_cons] at h
    rw [typeExprs]
    exact (isAbout_typeExpr e h.1).bind fun x =>
      (isAbout_typeExprs es h.2).bind fun xs => isAbout_pure _

end

/-! ## Checks -/

theorem isAbout_compareCondition {e : Expr} (x : Option Entity) (h : P e.span) :
    (W.compareCondition e x).IsAbout P := by
  unfold compareCondition
  split
  · exact isAbout_pure ()
  · split
    · exact isAbout_pure ()
    · exact isAbout_report h

theorem isAbout_compareInitializer {e : Expr} (x y : Option Entity) (h : P e.span) :
    (W.compareInitializer x e y).IsAbout P := by
  unfold compareInitializer
  split
  · split
    · exact isAbout_report h
    · exact isAbout_pure ()
  · exact isAbout_pure ()

theorem isAbout_compareReturn {place : Place} {value : Option Expr} (x y : Option Entity)
    (h : P place.span) (hvalue : ∀ e ∈ value, P e.span) :
    (W.compareReturn place x value y).IsAbout P := by
  unfold compareReturn
  split
  · split
    · exact isAbout_pure ()
    · exact isAbout_report h
  · split
    · exact isAbout_report (hvalue _ rfl)
    · exact isAbout_pure ()
  · exact isAbout_pure ()

end World

/-- What is checked stands at places with the property. -/
def Check.LiesIn (P : Span → Prop) : Check → Prop
  | .expr _ e | .condition _ e | .initializer _ _ e => e.tree.LiesIn P
  | .returns place _ _ value => P place.span ∧ ∀ e ∈ value, e.tree.LiesIn P
  | .loopControl place _ => P place.span
  | .goto _ _ label => P label.span

/-- The errors that are found in a check are about what is checked. -/
theorem World.isAbout_check (W : World) {k : Check} (h : k.LiesIn P) : (W.check k).IsAbout P := by
  cases k with
  | expr Γ e => exact (W.isAbout_typeExpr e h).bind fun _ => Found.isAbout_pure ()
  | condition Γ e =>
    exact (W.isAbout_typeExpr e h).bind fun x => W.isAbout_compareCondition x (Expr.span_of_liesIn h)
  | initializer Γ τ e =>
    exact (W.isAbout_typeExpr e h).bind fun x =>
      W.isAbout_compareInitializer _ x (Expr.span_of_liesIn h)
  | returns place Γ τ value =>
    have hvalue : (W.typeOption Γ value).IsAbout P := by
      cases value with
      | none => exact Found.isAbout_pure none
      | some e => exact W.isAbout_typeExpr e (h.2 e rfl)
    exact hvalue.bind fun x => W.isAbout_compareReturn _ x h.1 fun e he =>
      Expr.span_of_liesIn (h.2 e he)
  | loopControl place inLoop =>
    rw [World.check]
    split
    · exact Found.isAbout_pure ()
    · exact Found.isAbout_report h
  | goto place labels label =>
    rw [World.check]
    split
    · exact Found.isAbout_pure ()
    · exact Found.isAbout_report h

/-! ## Statements -/

theorem Expr.liesIn_of_option {x : Option Expr} (h : ∀ t ∈ Expr.optionTrees x, t.LiesIn P) :
    ∀ e ∈ x, e.tree.LiesIn P := by
  rintro e rfl
  exact h _ (List.mem_singleton_self _)

theorem VariableDecl.liesIn_checks {Γ : Locals} {d : VariableDecl} (h : d.tree.LiesIn P) :
    ∀ k ∈ d.checks Γ, k.LiesIn P := by
  rw [tree, Tree.liesIn_node, List.forall_mem_cons] at h
  rw [checks, List.forall_mem_map]
  exact fun e he => Expr.liesIn_of_option h.2.2 e (Option.mem_toList.1 he)

theorem ForInit.liesIn_checks {Γ : Locals} {init : ForInit} (h : ∀ t ∈ init.trees, t.LiesIn P) :
    ∀ k ∈ init.checks Γ, k.LiesIn P := by
  match init with
  | .nothing => simp [checks]
  | .variable d => exact VariableDecl.liesIn_checks (h _ (List.mem_singleton_self _))
  | .expr e => exact List.forall_mem_singleton.2 (h _ (List.mem_singleton_self _))

mutual

theorem Stmt.liesIn_checks {S : Surroundings} : (s : Stmt) → s.tree.LiesIn P →
    ∀ k ∈ s.checks S, k.LiesIn P
  | .label .., _ => by
    rw [Stmt.checks]
    simp
  | .goto place label, h => by
    rw [Stmt.tree, Tree.liesIn_node] at h
    rw [Stmt.checks, List.forall_mem_singleton]
    exact h.1.names label (List.mem_singleton_self label)
  | .returns place value, h => by
    rw [Stmt.tree, Tree.liesIn_node] at h
    rw [Stmt.checks, List.forall_mem_singleton]
    exact ⟨h.1.span, Expr.liesIn_of_option h.2⟩
  | .breakLoop place, h | .continueLoop place, h => by
    rw [Stmt.tree, Tree.liesIn_node] at h
    rw [Stmt.checks, List.forall_mem_singleton]
    exact h.1.span
  | .variable d, h => by
    rw [Stmt.checks]
    exact VariableDecl.liesIn_checks h
  | .expr e, h => by
    rw [Stmt.checks, List.forall_mem_singleton]
    exact h
  | .branch b, h => by
    rw [Stmt.checks]
    exact Branch.liesIn_checks b h
  | .whileLoop _ condition body, h => by
    rw [Stmt.tree, Tree.liesIn_node, List.forall_mem_cons, List.forall_mem_singleton] at h
    rw [Stmt.checks, List.forall_mem_cons]
    exact ⟨h.2.1, Scope.liesIn_checks body h.2.2⟩
  | .forLoop _ init condition step body, h => by
    rw [Stmt.tree, Tree.liesIn_node, List.forall_mem_append, List.forall_mem_append,
      List.forall_mem_append, List.forall_mem_singleton] at h
    obtain ⟨-, ⟨⟨hinit, hcondition⟩, hstep⟩, hbody⟩ := h
    rw [Stmt.checks, List.forall_mem_append, List.forall_mem_append, List.forall_mem_append,
      List.forall_mem_map, List.forall_mem_map]
    exact ⟨⟨⟨ForInit.liesIn_checks hinit,
      fun e he => Expr.liesIn_of_option hcondition e (Option.mem_toList.1 he)⟩,
      fun e he => Expr.liesIn_of_option hstep e (Option.mem_toList.1 he)⟩,
      Scope.liesIn_checks body hbody⟩

theorem Branch.liesIn_checks {S : Surroundings} : (b : Branch) → b.tree.LiesIn P →
    ∀ k ∈ b.checks S, k.LiesIn P
  | .mk _ condition body otherwise, h => by
    rw [Branch.tree, Tree.liesIn_node, List.forall_mem_cons, List.forall_mem_cons] at h
    rw [Branch.checks, List.cons_append, List.forall_mem_cons, List.forall_mem_append]
    exact ⟨h.2.1, Scope.liesIn_checks body h.2.2.1, Otherwise.liesIn_checks otherwise h.2.2.2⟩

theorem Otherwise.liesIn_checks {S : Surroundings} : (o : Otherwise) →
    (∀ t ∈ o.trees, t.LiesIn P) → ∀ k ∈ o.checks S, k.LiesIn P
  | .nothing, _ => by
    rw [Otherwise.checks]
    simp
  | .branch b, h => by
    rw [Otherwise.trees, List.forall_mem_singleton] at h
    rw [Otherwise.checks]
    exact Branch.liesIn_checks b h
  | .scope s, h => by
    rw [Otherwise.trees, List.forall_mem_singleton] at h
    rw [Otherwise.checks]
    exact Scope.liesIn_checks s h

theorem Scope.liesIn_checks {S : Surroundings} : (s : Scope) → s.tree.LiesIn P →
    ∀ k ∈ s.checks S, k.LiesIn P
  | .mk _ statements, h => by
    rw [Scope.tree, Tree.liesIn_node] at h
    rw [Scope.checks]
    exact Stmt.liesIn_listChecks statements h.2

theorem Stmt.liesIn_listChecks {S : Surroundings} : (ss : List Stmt) →
    (∀ t ∈ Stmt.trees ss, t.LiesIn P) → ∀ k ∈ Stmt.listChecks S ss, k.LiesIn P
  | [], _ => by
    rw [Stmt.listChecks]
    simp
  | s :: ss, h => by
    rw [Stmt.trees, List.forall_mem_cons] at h
    rw [Stmt.listChecks, List.forall_mem_append]
    exact ⟨Stmt.liesIn_checks s h.1, Stmt.liesIn_listChecks ss h.2⟩

end

/-! ## What is declared -/

theorem VariableDecl.span_of_liesIn {d : VariableDecl} (h : d.tree.LiesIn P) : P d.name.span := by
  rw [tree, Tree.liesIn_node] at h
  exact h.1.names d.name (List.mem_singleton_self d.name)

mutual

/-- The names of what is declared in a statement. -/
theorem Stmt.liesIn_locals : (s : Stmt) → s.tree.LiesIn P → ∀ l ∈ s.locals, P l.name.span
  | .goto .., _ | .returns .., _ | .breakLoop _, _ | .continueLoop _, _ | .expr _, _ => by
    rw [Stmt.locals]
    simp
  | .label place name, h => by
    rw [Stmt.tree, Tree.liesIn_node] at h
    rw [Stmt.locals, List.forall_mem_singleton]
    exact h.1.names name (List.mem_singleton_self name)
  | .variable d, h => by
    rw [Stmt.locals, List.forall_mem_singleton]
    exact VariableDecl.span_of_liesIn h
  | .branch b, h => by
    rw [Stmt.locals]
    exact Branch.liesIn_locals b h
  | .whileLoop _ condition body, h => by
    rw [Stmt.tree, Tree.liesIn_node, List.forall_mem_cons, List.forall_mem_singleton] at h
    rw [Stmt.locals]
    exact Scope.liesIn_locals body h.2.2
  | .forLoop _ init condition step body, h => by
    rw [Stmt.tree, Tree.liesIn_node, List.forall_mem_append, List.forall_mem_append,
      List.forall_mem_append, List.forall_mem_singleton] at h
    obtain ⟨-, ⟨⟨hinit, -⟩, -⟩, hbody⟩ := h
    rw [Stmt.locals, List.forall_mem_append]
    refine ⟨?_, Scope.liesIn_locals body hbody⟩
    match init with
    | .nothing | .expr _ => simp [ForInit.locals]
    | .variable d =>
      exact List.forall_mem_singleton.2
        (VariableDecl.span_of_liesIn (hinit _ (List.mem_singleton_self _)))

theorem Branch.liesIn_locals : (b : Branch) → b.tree.LiesIn P → ∀ l ∈ b.locals, P l.name.span
  | .mk _ condition body otherwise, h => by
    rw [Branch.tree, Tree.liesIn_node, List.forall_mem_cons, List.forall_mem_cons] at h
    rw [Branch.locals, List.forall_mem_append]
    exact ⟨Scope.liesIn_locals body h.2.2.1, Otherwise.liesIn_locals otherwise h.2.2.2⟩

theorem Otherwise.liesIn_locals : (o : Otherwise) → (∀ t ∈ o.trees, t.LiesIn P) →
    ∀ l ∈ o.locals, P l.name.span
  | .nothing, _ => by
    rw [Otherwise.locals]
    simp
  | .branch b, h => by
    rw [Otherwise.trees, List.forall_mem_singleton] at h
    rw [Otherwise.locals]
    exact Branch.liesIn_locals b h
  | .scope s, h => by
    rw [Otherwise.trees, List.forall_mem_singleton] at h
    rw [Otherwise.locals]
    exact Scope.liesIn_locals s h

theorem Scope.liesIn_locals : (s : Scope) → s.tree.LiesIn P → ∀ l ∈ s.locals, P l.name.span
  | .mk _ statements, h => by
    rw [Scope.tree, Tree.liesIn_node] at h
    rw [Scope.locals]
    exact Stmt.liesIn_listLocals statements h.2

theorem Stmt.liesIn_listLocals : (ss : List Stmt) → (∀ t ∈ Stmt.trees ss, t.LiesIn P) →
    ∀ l ∈ Stmt.listLocals ss, P l.name.span
  | [], _ => by
    rw [Stmt.listLocals]
    simp
  | s :: ss, h => by
    rw [Stmt.trees, List.forall_mem_cons] at h
    rw [Stmt.listLocals, List.forall_mem_append]
    exact ⟨Stmt.liesIn_locals s h.1, Stmt.liesIn_listLocals ss h.2⟩

end

end Sable
