import Sable.Proofs.Analysis.Portraying

/-!
# What checks rely on

The checks of a unit are about its own expressions, in which only its own variables and parameters
can be named, and they expect only types that it writes.

## Main definitions

* `Check.Relies`: the locals, the nodes and the types of a check.

## Main statements

* `Block.relies_checks`: all checks of a unit.
-/
namespace Sable

/-- The type that an expression is compared with. -/
def Check.expected? : Check → Option Ty
  | .initializer _ τ _ | .returns _ _ τ _ => some τ
  | .expr .. | .condition .. | .loopControl .. | .goto .. => none

variable {P : Local → Prop} {Q : Ty → Prop} {ns : List Node}

def Locals.All (P : Local → Prop) (Γ : Locals) : Prop := ∀ scope ∈ Γ, ∀ l ∈ scope, P l

namespace Locals.All

variable {Γ : Locals}

theorem nil : Locals.All P [] := fun _ h => absurd h List.not_mem_nil

theorem push (h : Γ.All P) : Locals.All P ([] :: Γ) :=
  List.forall_mem_cons.2 ⟨fun _ hl => absurd hl List.not_mem_nil, h⟩

theorem declare (h : Γ.All P) {l : Local} (hl : P l) : (Γ.declare l).All P := by
  cases Γ with
  | nil => exact h
  | cons scope Γ =>
    rw [Locals.All, List.forall_mem_cons] at h
    exact List.forall_mem_cons.2 ⟨List.forall_mem_cons.2 ⟨hl, h.1⟩, h.2⟩

theorem of_lookup? (h : Γ.All P) {name : String} {l : Local} (hl : Γ.lookup? name = some l) :
    P l := by
  obtain ⟨scope, hscope, hfound⟩ := List.exists_of_findSome?_eq_some hl
  exact h scope hscope l (List.mem_of_find?_eq_some hfound)

end Locals.All

/-- Only these locals can be named, only these nodes occur, and only these types are expected. -/
structure Check.Relies (P : Local → Prop) (Q : Ty → Prop) (ns : List Node) (k : Check) : Prop where
  locals : ∀ e ∈ k.exprs, e.1.All P
  nodes : ∀ e ∈ k.exprs, ∀ n ∈ e.2.tree.preorder, n ∈ ns
  expected : ∀ τ ∈ k.expected?, Q τ

structure Surroundings.Relies (P : Local → Prop) (Q : Ty → Prop) (S : Surroundings) : Prop where
  locals : S.locals.All P
  result : Q S.result

/-- A variable is one of these locals, and its type is one of these types. -/
def VariableDecl.Counts (P : Local → Prop) (Q : Ty → Prop) (d : VariableDecl) : Prop :=
  P d.local ∧ Q d.type.ty

/-! ## Checks -/

section Checks

variable {Γ : Locals} {e : Expr}

namespace Check

theorem relies_expr (hΓ : Γ.All P) (he : ∀ n ∈ e.tree.preorder, n ∈ ns) :
    (Check.expr Γ e).Relies P Q ns where
  locals := List.forall_mem_singleton.2 hΓ
  nodes := List.forall_mem_singleton.2 he
  expected _ h := absurd h (by simp [expected?])

theorem relies_condition (hΓ : Γ.All P) (he : ∀ n ∈ e.tree.preorder, n ∈ ns) :
    (Check.condition Γ e).Relies P Q ns where
  locals := List.forall_mem_singleton.2 hΓ
  nodes := List.forall_mem_singleton.2 he
  expected _ h := absurd h (by simp [expected?])

theorem relies_initializer (hΓ : Γ.All P) (he : ∀ n ∈ e.tree.preorder, n ∈ ns) {τ : Ty} (hτ : Q τ) :
    (Check.initializer Γ τ e).Relies P Q ns where
  locals := List.forall_mem_singleton.2 hΓ
  nodes := List.forall_mem_singleton.2 he
  expected σ hσ := by
    obtain rfl := Option.some.inj hσ
    exact hτ

theorem relies_returns (hΓ : Γ.All P) {value : Option Expr}
    (he : ∀ e ∈ value, ∀ n ∈ e.tree.preorder, n ∈ ns) (place : Place) {τ : Ty} (hτ : Q τ) :
    (Check.returns place Γ τ value).Relies P Q ns where
  locals := List.forall_mem_map.2 fun _ _ => hΓ
  nodes := List.forall_mem_map.2 fun e hmem => he e (Option.mem_toList.1 hmem)
  expected σ hσ := by
    obtain rfl := Option.some.inj hσ
    exact hτ

theorem relies_loopControl (place : Place) (inLoop : Bool) :
    (Check.loopControl place inLoop).Relies P Q ns :=
  ⟨fun _ h => absurd h List.not_mem_nil, fun _ h => absurd h List.not_mem_nil, by simp [expected?]⟩

theorem relies_goto (place : Place) (labels : List String) (label : Ident) :
    (Check.goto place labels label).Relies P Q ns :=
  ⟨fun _ h => absurd h List.not_mem_nil, fun _ h => absurd h List.not_mem_nil, by simp [expected?]⟩

end Check

theorem Tree.mem_of_option {x : Option Expr}
    (h : ∀ t ∈ Expr.optionTrees x, ∀ n ∈ t.preorder, n ∈ ns) :
    ∀ e ∈ x, ∀ n ∈ e.tree.preorder, n ∈ ns :=
  fun _ he => h _ (List.mem_map_of_mem (Option.mem_toList.2 he))

theorem VariableDecl.relies_checks (hΓ : Γ.All P) {d : VariableDecl}
    (h : ∀ n ∈ d.tree.preorder, n ∈ ns) (hQ : Q d.type.ty) : ∀ k ∈ d.checks Γ, k.Relies P Q ns := by
  rw [tree, Tree.forall_mem_preorder_node, List.forall_mem_cons] at h
  rw [checks, List.forall_mem_map]
  exact fun e he =>
    Check.relies_initializer hΓ (Tree.mem_of_option h.2.2 e (Option.mem_toList.1 he)) hQ

theorem ForInit.relies_checks (hΓ : Γ.All P) {init : ForInit}
    (h : ∀ t ∈ init.trees, ∀ n ∈ t.preorder, n ∈ ns)
    (hl : ∀ d, .variable d ∈ init.locals → d.Counts P Q) : ∀ k ∈ init.checks Γ, k.Relies P Q ns := by
  match init with
  | .nothing => simp [checks]
  | .variable d =>
    exact VariableDecl.relies_checks hΓ (h _ (List.mem_singleton_self _))
      (hl d (List.mem_singleton_self _)).2
  | .expr e =>
    exact List.forall_mem_singleton.2 (Check.relies_expr hΓ (h _ (List.mem_singleton_self _)))

theorem ForInit.all_after (hΓ : Γ.All P) {init : ForInit}
    (hl : ∀ d, .variable d ∈ init.locals → d.Counts P Q) : (init.after Γ).All P := by
  match init with
  | .nothing | .expr _ => exact hΓ
  | .variable d => exact hΓ.declare (hl d (List.mem_singleton_self _)).1

theorem Stmt.all_after (hΓ : Γ.All P) {s : Stmt}
    (hl : ∀ d, .variable d ∈ s.locals → d.Counts P Q) : (s.after Γ).All P := by
  match s with
  | .variable d =>
    rw [Stmt.locals] at hl
    exact hΓ.declare (hl d (List.mem_singleton_self _)).1
  | .label .. | .goto .. | .returns .. | .breakLoop _ | .continueLoop _ | .expr _ | .branch _
  | .whileLoop .. | .forLoop .. => exact hΓ

theorem forall_variable_append {ls ls' : List LocalDecl} {p : VariableDecl → Prop} :
    (∀ d, .variable d ∈ ls ++ ls' → p d) ↔
      (∀ d, .variable d ∈ ls → p d) ∧ ∀ d, .variable d ∈ ls' → p d := by
  simp only [List.mem_append, or_imp, forall_and]

mutual

theorem Stmt.relies_checks {S : Surroundings} (hS : S.Relies P Q) : (s : Stmt) →
    (∀ n ∈ s.tree.preorder, n ∈ ns) → (∀ d, .variable d ∈ s.locals → d.Counts P Q) →
    ∀ k ∈ s.checks S, k.Relies P Q ns
  | .label .., _, _ => by simp [Stmt.checks]
  | .goto place label, _, _ => by
    rw [Stmt.checks, List.forall_mem_singleton]
    exact Check.relies_goto _ _ _
  | .returns place value, h, _ => by
    rw [Stmt.tree, Tree.forall_mem_preorder_node] at h
    rw [Stmt.checks, List.forall_mem_singleton]
    exact Check.relies_returns hS.locals (Tree.mem_of_option h.2) _ hS.result
  | .breakLoop _, _, _ | .continueLoop _, _, _ => by
    rw [Stmt.checks, List.forall_mem_singleton]
    exact Check.relies_loopControl _ _
  | .variable d, h, hl => by
    rw [Stmt.locals] at hl
    rw [Stmt.checks]
    exact VariableDecl.relies_checks hS.locals h (hl d (List.mem_singleton_self _)).2
  | .expr e, h, _ => by
    rw [Stmt.checks, List.forall_mem_singleton]
    exact Check.relies_expr hS.locals h
  | .branch b, h, hl => by
    rw [Stmt.locals] at hl
    rw [Stmt.checks]
    exact Branch.relies_checks hS b h hl
  | .whileLoop _ condition body, h, hl => by
    rw [Stmt.tree, Tree.forall_mem_preorder_node, List.forall_mem_cons, List.forall_mem_singleton] at h
    rw [Stmt.locals] at hl
    rw [Stmt.checks, List.forall_mem_cons]
    have hS' : Surroundings.Relies P Q { S with inLoop := true } := ⟨hS.locals, hS.result⟩
    exact ⟨Check.relies_condition hS.locals h.2.1, Scope.relies_checks hS' body h.2.2 hl⟩
  | .forLoop _ init condition step body, h, hl => by
    rw [Stmt.tree, Tree.forall_mem_preorder_node, List.forall_mem_append, List.forall_mem_append,
      List.forall_mem_append, List.forall_mem_singleton] at h
    obtain ⟨-, ⟨⟨hinit, hcondition⟩, hstep⟩, hbody⟩ := h
    rw [Stmt.locals, forall_variable_append] at hl
    have hafter := ForInit.all_after hS.locals.push hl.1
    have hS' : Surroundings.Relies P Q
        { S with locals := init.after ([] :: S.locals), inLoop := true } := ⟨hafter, hS.result⟩
    rw [Stmt.checks, List.forall_mem_append, List.forall_mem_append, List.forall_mem_append,
      List.forall_mem_map, List.forall_mem_map]
    refine ⟨⟨⟨ForInit.relies_checks hS.locals.push hinit hl.1, fun e he => ?_⟩, fun e he => ?_⟩,
      Scope.relies_checks hS' body hbody hl.2⟩
    · exact Check.relies_condition hafter (Tree.mem_of_option hcondition e (Option.mem_toList.1 he))
    · exact Check.relies_expr hafter (Tree.mem_of_option hstep e (Option.mem_toList.1 he))

theorem Branch.relies_checks {S : Surroundings} (hS : S.Relies P Q) : (b : Branch) →
    (∀ n ∈ b.tree.preorder, n ∈ ns) → (∀ d, .variable d ∈ b.locals → d.Counts P Q) →
    ∀ k ∈ b.checks S, k.Relies P Q ns
  | .mk _ condition body otherwise, h, hl => by
    rw [Branch.tree, Tree.forall_mem_preorder_node, List.forall_mem_cons, List.forall_mem_cons] at h
    rw [Branch.locals, forall_variable_append] at hl
    rw [Branch.checks, List.cons_append, List.forall_mem_cons, List.forall_mem_append]
    exact ⟨Check.relies_condition hS.locals h.2.1, Scope.relies_checks hS body h.2.2.1 hl.1,
      Otherwise.relies_checks hS otherwise h.2.2.2 hl.2⟩

theorem Otherwise.relies_checks {S : Surroundings} (hS : S.Relies P Q) : (o : Otherwise) →
    (∀ t ∈ o.trees, ∀ n ∈ t.preorder, n ∈ ns) → (∀ d, .variable d ∈ o.locals → d.Counts P Q) →
    ∀ k ∈ o.checks S, k.Relies P Q ns
  | .nothing, _, _ => by simp [Otherwise.checks]
  | .branch b, h, hl => by
    rw [Otherwise.trees, List.forall_mem_singleton] at h
    rw [Otherwise.locals] at hl
    rw [Otherwise.checks]
    exact Branch.relies_checks hS b h hl
  | .scope s, h, hl => by
    rw [Otherwise.trees, List.forall_mem_singleton] at h
    rw [Otherwise.locals] at hl
    rw [Otherwise.checks]
    exact Scope.relies_checks hS s h hl

theorem Scope.relies_checks {S : Surroundings} (hS : S.Relies P Q) : (s : Scope) →
    (∀ n ∈ s.tree.preorder, n ∈ ns) → (∀ d, .variable d ∈ s.locals → d.Counts P Q) →
    ∀ k ∈ s.checks S, k.Relies P Q ns
  | .mk _ statements, h, hl => by
    rw [Scope.tree, Tree.forall_mem_preorder_node] at h
    rw [Scope.locals] at hl
    rw [Scope.checks]
    have hS' : Surroundings.Relies P Q { S with locals := [] :: S.locals } :=
      ⟨hS.locals.push, hS.result⟩
    exact Stmt.relies_listChecks hS' statements h.2 hl

theorem Stmt.relies_listChecks {S : Surroundings} (hS : S.Relies P Q) : (ss : List Stmt) →
    (∀ t ∈ Stmt.trees ss, ∀ n ∈ t.preorder, n ∈ ns) →
    (∀ d, .variable d ∈ Stmt.listLocals ss → d.Counts P Q) →
    ∀ k ∈ Stmt.listChecks S ss, k.Relies P Q ns
  | [], _, _ => by simp [Stmt.listChecks]
  | s :: ss, h, hl => by
    rw [Stmt.trees, List.forall_mem_cons] at h
    rw [Stmt.listLocals, forall_variable_append] at hl
    rw [Stmt.listChecks, List.forall_mem_append]
    have hS' : Surroundings.Relies P Q { S with locals := s.after S.locals } :=
      ⟨Stmt.all_after hS.locals hl.1, hS.result⟩
    exact ⟨Stmt.relies_checks hS s h.1 hl.1, Stmt.relies_listChecks hS' ss h.2 hl.2⟩

end

end Checks

/-! ## Declarations -/

namespace Block

/-- What a unit declares: the locals that its checks can name, and the types that they expect. -/
structure Offers (b : Block) (P : Local → Prop) (Q : Ty → Prop) : Prop where
  parameters : ∀ d ∈ b.allFunctions, ∀ p ∈ d.parameters, P p.local
  results : ∀ d ∈ b.allFunctions, Q d.result
  locals : ∀ d ∈ b.allFunctions, ∀ v, .variable v ∈ d.locals → v.Counts P Q
  members : ∀ d ∈ b.declarations, ∀ v, Member.variable v ∈ d.members → v.Counts P Q

variable {b : Block} (h : b.Offers P Q)

include h

theorem relies_function {d : FunctionDecl} (hd : d ∈ b.allFunctions) :
    ∀ k ∈ d.checks, k.Relies P Q b.tree.preorder := by
  have hS : d.surroundings.Relies P Q :=
    { locals := List.forall_mem_singleton.2 fun l hl => by
        obtain ⟨p, hp, rfl⟩ := List.mem_map.1 (List.mem_reverse.1 hl)
        exact h.parameters d hd p hp
      result := h.results d hd }
  refine Scope.relies_checks hS d.body (fun n hn => preorder_subset_of_mem_allFunctions hd ?_)
    fun v hv => h.locals d hd v (List.mem_append_right _ hv)
  rw [FunctionDecl.tree, Tree.preorder, List.mem_cons, Tree.mem_preorders]
  exact .inr ⟨d.body.tree, by simp, hn⟩

theorem relies_listChecks {d : Declaration} (hd : d ∈ b.declarations) {Γ : Locals} (hΓ : Γ.All P)
    {ms : List Member} (hms : ms ⊆ d.members) :
    ∀ k ∈ Member.listChecks Γ ms, k.Relies P Q b.tree.preorder := by
  induction ms generalizing Γ with
  | nil => simp [Member.listChecks]
  | cons m ms ih =>
    rw [List.cons_subset] at hms
    obtain v | f := m
    · have hv := h.members d hd v hms.1
      rw [Member.listChecks, List.forall_mem_append]
      refine ⟨VariableDecl.relies_checks hΓ (fun n hn => ?_) hv.2, ih (hΓ.declare hv.1) hms.2⟩
      exact preorder_subset_of_mem hd (Declaration.preorder_subset_of_mem hms.1 hn)
    · rw [Member.listChecks, List.forall_mem_append]
      exact ⟨relies_function h (mem_allFunctions_of_mem_members hd hms.1), ih hΓ hms.2⟩

/-- Checks rely on nothing but what the unit declares. -/
theorem relies_checks : ∀ k ∈ b.checks, k.Relies P Q b.tree.preorder := by
  refine List.forall_mem_flatMap.2 fun d hd => ?_
  match d with
  | .classDecl d => exact relies_listChecks h hd Locals.All.nil.push (List.Subset.refl _)
  | .function d =>
    exact relies_function h (mem_allFunctions_of_mem_members hd (List.mem_singleton_self _))
  | .variable d =>
    refine VariableDecl.relies_checks .nil (preorder_subset_of_mem hd) ?_
    exact (h.members _ hd d (List.mem_singleton_self _)).2

end Block

end Sable
