import Sable.Proofs.Typing.Likeness

/-!
# The checks of moved declarations

Wherever a declaration is written and however it is numbered, the same is asked of it.

## Main definitions

* `Relocation.renumber`: all stays where it is, but nodes get higher numbers.
* `LocalDecl.move`: what is declared in a function, after a relocation.
* `Surroundings.Alike`: places at which the same is known.

## Main statements

* `Stmt.locals_move`: what a moved statement declares.
* `Stmt.checks_alike`, `Declaration.checks_alike`: what is asked of a moved declaration.
-/
namespace Sable

/-! ## Higher numbers -/

/-- All stays where it is, but the numbers of nodes are higher. -/
def Relocation.renumber (shift : Nat) : Relocation where
  span := id
  shift := shift

@[simp] theorem Relocation.shift_renumber (shift : Nat) :
    (Relocation.renumber shift).shift = shift := rfl

@[simp] theorem Ident.move_renumber (name : Ident) (shift : Nat) :
    name.move (.renumber shift) = name := rfl

@[simp] theorem SemanticError.move_renumber (e : SemanticError) (shift : Nat) :
    e.move (.renumber shift) = e := by
  cases e <;> rfl

/-! Where nothing is added to numbers, nothing moves. -/

section Stay

theorem Value.move_stay (v : Value) : v.move (.renumber 0) = v := by
  cases v <;> rfl

mutual

theorem Expr.move_stay : (e : Expr) → e.move (.renumber 0) = e
  | .value p v => by rw [Expr.move, v.move_stay]; rfl
  | .unary p op operand => by rw [Expr.move, operand.move_stay]; rfl
  | .binary p op left right => by rw [Expr.move, left.move_stay, right.move_stay]; rfl
  | .access p kind object member => by rw [Expr.move, object.move_stay]; rfl
  | .call p callee arguments => by rw [Expr.move, callee.move_stay, Expr.moveAll_stay arguments]; rfl
  | .cast p operand target => by rw [Expr.move, operand.move_stay]; rfl
  | .index p target subscript => by rw [Expr.move, target.move_stay, subscript.move_stay]; rfl

theorem Expr.moveAll_stay : (es : List Expr) → Expr.moveAll (.renumber 0) es = es
  | [] => rfl
  | e :: es => by rw [Expr.moveAll, e.move_stay, Expr.moveAll_stay es]

end

theorem Option.map_eq_self {α : Type} {f : α → α} (h : ∀ x, f x = x) (x : Option α) :
    x.map f = x := by
  rw [funext h, Option.map_id']

theorem VariableDecl.move_stay (d : VariableDecl) : d.move (.renumber 0) = d := by
  rw [move, Option.map_eq_self Expr.move_stay]
  rfl

theorem ForInit.move_stay (init : ForInit) : init.move (.renumber 0) = init := by
  match init with
  | .nothing => rfl
  | .variable d => rw [move, d.move_stay]
  | .expr e => rw [move, e.move_stay]

mutual

theorem Stmt.move_stay : (s : Stmt) → s.move (.renumber 0) = s
  | .label .. | .goto .. | .breakLoop _ | .continueLoop _ => by rw [Stmt.move]; rfl
  | .returns p value => by rw [Stmt.move, Option.map_eq_self Expr.move_stay]; rfl
  | .variable d => by rw [Stmt.move, d.move_stay]
  | .expr e => by rw [Stmt.move, e.move_stay]
  | .branch b => by rw [Stmt.move, b.move_stay]
  | .whileLoop p condition body => by rw [Stmt.move, condition.move_stay, body.move_stay]; rfl
  | .forLoop p init condition step body => by
    rw [Stmt.move, init.move_stay, Option.map_eq_self Expr.move_stay,
      Option.map_eq_self Expr.move_stay, body.move_stay]
    rfl

theorem Branch.move_stay : (b : Branch) → b.move (.renumber 0) = b
  | .mk p condition body otherwise => by
    rw [Branch.move, condition.move_stay, body.move_stay, otherwise.move_stay]; rfl

theorem Otherwise.move_stay : (o : Otherwise) → o.move (.renumber 0) = o
  | .nothing => by rw [Otherwise.move]
  | .branch b => by rw [Otherwise.move, b.move_stay]
  | .scope s => by rw [Otherwise.move, s.move_stay]

theorem Scope.move_stay : (s : Scope) → s.move (.renumber 0) = s
  | .mk p statements => by rw [Scope.move, Stmt.moveAll_stay statements]; rfl

theorem Stmt.moveAll_stay : (ss : List Stmt) → Stmt.moveAll (.renumber 0) ss = ss
  | [] => by rw [Stmt.moveAll]
  | s :: ss => by rw [Stmt.moveAll, s.move_stay, Stmt.moveAll_stay ss]

end

theorem FunctionDecl.move_stay (d : FunctionDecl) : d.move (.renumber 0) = d := by
  have hparameter : (Parameter.move (.renumber 0)) = id := rfl
  have htype : (WrittenType.move (.renumber 0)) = id := rfl
  rw [move, hparameter, htype, List.map_id, Option.map_id, id, d.body.move_stay]
  rfl

theorem Member.move_stay (m : Member) : m.move (.renumber 0) = m := by
  match m with
  | .variable d => rw [move, d.move_stay]
  | .function d => rw [move, d.move_stay]

theorem Member.map_move_stay (ms : List Member) : ms.map (Member.move (.renumber 0)) = ms := by
  rw [funext Member.move_stay, List.map_id']

theorem ClassDecl.move_stay (d : ClassDecl) : d.move (.renumber 0) = d := by
  rw [move, Member.map_move_stay]
  rfl

theorem Declaration.move_stay (d : Declaration) : d.move (.renumber 0) = d := by
  match d with
  | .classDecl d => rw [move, d.move_stay]
  | .function d => rw [move, d.move_stay]
  | .variable d => rw [move, d.move_stay]

theorem Declaration.map_move_stay (ds : List Declaration) :
    ds.map (Declaration.move (.renumber 0)) = ds := by
  rw [funext Declaration.move_stay, List.map_id']

end Stay

/-! ## What is declared -/

section Locals

variable (φ : Relocation)

def LocalDecl.move : LocalDecl → LocalDecl
  | .parameter d => .parameter (d.move φ)
  | .variable d => .variable (d.move φ)
  | .label p name => .label (p.move φ) (name.move φ)

@[simp] theorem LocalDecl.move_place (l : LocalDecl) : (l.move φ).place = l.place.move φ := by
  cases l <;> rfl

@[simp] theorem LocalDecl.move_name (l : LocalDecl) : (l.move φ).name = l.name.move φ := by
  cases l <;> rfl

@[simp] theorem LocalDecl.move_isLabel (l : LocalDecl) : (l.move φ).isLabel = l.isLabel := by
  cases l <;> rfl

@[simp] theorem WrittenType.move_ty (t : WrittenType) : (t.move φ).ty = t.ty := rfl

theorem ForInit.locals_move (init : ForInit) :
    (init.move φ).locals = init.locals.map (LocalDecl.move φ) := by
  cases init <;> rfl

mutual

theorem Stmt.locals_move : (s : Stmt) → (s.move φ).locals = s.locals.map (LocalDecl.move φ)
  | .label .. | .goto .. | .returns .. | .breakLoop _ | .continueLoop _ | .variable _ | .expr _ => by
    rw [Stmt.move, Stmt.locals, Stmt.locals]; rfl
  | .branch b => by rw [Stmt.move, Stmt.locals, Stmt.locals, b.locals_move]
  | .whileLoop _ _ body => by rw [Stmt.move, Stmt.locals, Stmt.locals, body.locals_move]
  | .forLoop _ init _ _ body => by
    rw [Stmt.move, Stmt.locals, Stmt.locals, init.locals_move, body.locals_move, List.map_append]

theorem Branch.locals_move : (b : Branch) → (b.move φ).locals = b.locals.map (LocalDecl.move φ)
  | .mk _ _ body otherwise => by
    rw [Branch.move, Branch.locals, Branch.locals, body.locals_move, otherwise.locals_move,
      List.map_append]

theorem Otherwise.locals_move : (o : Otherwise) →
    (o.move φ).locals = o.locals.map (LocalDecl.move φ)
  | .nothing => by rw [Otherwise.move, Otherwise.locals, List.map_nil]
  | .branch b => by rw [Otherwise.move, Otherwise.locals, Otherwise.locals, b.locals_move]
  | .scope s => by rw [Otherwise.move, Otherwise.locals, Otherwise.locals, s.locals_move]

theorem Scope.locals_move : (s : Scope) → (s.move φ).locals = s.locals.map (LocalDecl.move φ)
  | .mk _ statements => by
    rw [Scope.move, Scope.locals, Scope.locals, Stmt.listLocals_move statements]

theorem Stmt.listLocals_move : (ss : List Stmt) →
    Stmt.listLocals (Stmt.moveAll φ ss) = (Stmt.listLocals ss).map (LocalDecl.move φ)
  | [] => by rw [Stmt.moveAll, Stmt.listLocals, List.map_nil]
  | s :: ss => by
    rw [Stmt.moveAll, Stmt.listLocals, Stmt.listLocals, s.locals_move, Stmt.listLocals_move ss,
      List.map_append]

end

namespace FunctionDecl

variable (d : FunctionDecl)

theorem locals_move : (d.move φ).locals = d.locals.map (LocalDecl.move φ) := by
  rw [locals, locals, move, Scope.locals_move, List.map_append, List.map_map, List.map_map]
  rfl

theorem labels_move : (d.move φ).labels = d.labels := by
  rw [labels, labels, locals_move, List.filter_map, List.map_map]
  have hlabel : LocalDecl.isLabel ∘ LocalDecl.move φ = LocalDecl.isLabel :=
    funext fun l => l.move_isLabel φ
  rw [hlabel]
  exact List.map_congr_left fun l _ => by simp

theorem result_move : (d.move φ).result = d.result := by
  rw [result, result, move]
  cases d.returns <;> rfl

end FunctionDecl

theorem Member.functions_move (m : Member) :
    (m.move φ).functions = m.functions.map (FunctionDecl.move φ) := by
  cases m <;> rfl

end Locals

/-! ## What is asked -/

section Checks

variable {R : Entity → Entity → Prop} {φ : Relocation} {S S' : Surroundings} {Γ Γ' : Locals}

structure Surroundings.Alike (R : Entity → Entity → Prop) (S S' : Surroundings) : Prop where
  locals : S.locals.Alike R S'.locals
  result_eq : S'.result = S.result
  labels_eq : S'.labels = S.labels
  inLoop_eq : S'.inLoop = S.inLoop

/-- What is declared in a function goes together with what is declared in the moved one. -/
def LocalDecl.Goes (R : Entity → Entity → Prop) (φ : Relocation) (l : LocalDecl) : Prop :=
  R (.declared l.place.id) (.declared (l.place.id + φ.shift))

theorem Locals.Alike.declare (hΓ : Γ.Alike R Γ') {l l' : Local} (hl : l.Alike R l') :
    (Γ.declare l).Alike R (Γ'.declare l') := by
  cases hΓ with
  | nil => exact .nil
  | cons hscope hΓ => exact .cons (.cons hl hscope) hΓ

theorem Locals.Alike.push (hΓ : Γ.Alike R Γ') : Locals.Alike R ([] :: Γ) ([] :: Γ') :=
  .cons .nil hΓ

theorem VariableDecl.local_alike {d : VariableDecl} (h : (LocalDecl.variable d).Goes R φ) :
    d.local.Alike R (d.move φ).local := ⟨rfl, h⟩

theorem forall₂_toList_map {f : Expr → Check} {f' : Expr → Check} {x : Option Expr}
    (h : ∀ e ∈ x, (f e).Alike R φ (f' (e.move φ))) :
    List.Forall₂ (Check.Alike R φ) (x.toList.map f) ((x.map (Expr.move φ)).toList.map f') := by
  cases x with
  | none => exact .nil
  | some e => exact .cons (h e rfl) .nil

theorem VariableDecl.checks_alike (hΓ : Γ.Alike R Γ') (d : VariableDecl) :
    List.Forall₂ (Check.Alike R φ) (d.checks Γ) ((d.move φ).checks Γ') :=
  forall₂_toList_map fun _ _ => .initializer hΓ

theorem ForInit.checks_alike (hΓ : Γ.Alike R Γ') (init : ForInit) :
    List.Forall₂ (Check.Alike R φ) (init.checks Γ) ((init.move φ).checks Γ') := by
  match init with
  | .nothing => exact .nil
  | .variable d => exact VariableDecl.checks_alike hΓ d
  | .expr e => exact .cons (.expr hΓ) .nil

theorem ForInit.after_alike (hΓ : Γ.Alike R Γ') {init : ForInit}
    (hR : ∀ l ∈ init.locals, l.Goes R φ) :
    (init.after Γ).Alike R ((init.move φ).after Γ') := by
  match init with
  | .nothing | .expr _ => exact hΓ
  | .variable d => exact hΓ.declare (VariableDecl.local_alike (hR _ (List.mem_singleton_self _)))

theorem Stmt.after_alike (hΓ : Γ.Alike R Γ') {s : Stmt} (hR : ∀ l ∈ s.locals, l.Goes R φ) :
    (s.after Γ).Alike R ((s.move φ).after Γ') := by
  match s with
  | .variable d =>
    rw [Stmt.move, Stmt.after, Stmt.after]
    refine hΓ.declare (VariableDecl.local_alike (hR _ ?_))
    rw [Stmt.locals]
    exact List.mem_singleton_self _
  | .label .. | .goto .. | .returns .. | .breakLoop _ | .continueLoop _ | .expr _ | .branch _
  | .whileLoop .. | .forLoop .. =>
    rw [Stmt.move]
    exact hΓ

mutual

/-- The same is asked of a moved statement. -/
theorem Stmt.checks_alike {S S' : Surroundings} (hS : S.Alike R S') : (s : Stmt) →
    (∀ l ∈ s.locals, l.Goes R φ) →
    List.Forall₂ (Check.Alike R φ) (s.checks S) ((s.move φ).checks S')
  | .label .., _ => by
    rw [Stmt.move, Stmt.checks, Stmt.checks]
    exact .nil
  | .goto place label, _ => by
    rw [Stmt.move, Stmt.checks, Stmt.checks, hS.labels_eq]
    exact .cons .goto .nil
  | .returns place value, _ => by
    rw [Stmt.move, Stmt.checks, Stmt.checks, hS.result_eq]
    exact .cons (.returns hS.locals) .nil
  | .breakLoop _, _ | .continueLoop _, _ => by
    rw [Stmt.move, Stmt.checks, Stmt.checks, hS.inLoop_eq]
    exact .cons .loopControl .nil
  | .variable d, _ => by
    rw [Stmt.move, Stmt.checks, Stmt.checks]
    exact VariableDecl.checks_alike hS.locals d
  | .expr e, _ => by
    rw [Stmt.move, Stmt.checks, Stmt.checks]
    exact .cons (.expr hS.locals) .nil
  | .branch b, hR => by
    rw [Stmt.move, Stmt.checks, Stmt.checks]
    rw [Stmt.locals] at hR
    exact Branch.checks_alike hS b hR
  | .whileLoop _ condition body, hR => by
    rw [Stmt.locals] at hR
    rw [Stmt.move, Stmt.checks, Stmt.checks]
    have hS' : Surroundings.Alike R { S with inLoop := true } { S' with inLoop := true } :=
      ⟨hS.locals, hS.result_eq, hS.labels_eq, rfl⟩
    exact .cons (.condition hS.locals) (Scope.checks_alike hS' body hR)
  | .forLoop _ init condition step body, hR => by
    rw [Stmt.locals, List.forall_mem_append] at hR
    rw [Stmt.move, Stmt.checks, Stmt.checks]
    have hafter := ForInit.after_alike hS.locals.push hR.1
    have hS' : Surroundings.Alike R
        { S with locals := init.after ([] :: S.locals), inLoop := true }
        { S' with locals := (init.move φ).after ([] :: S'.locals), inLoop := true } :=
      ⟨hafter, hS.result_eq, hS.labels_eq, rfl⟩
    refine List.rel_append (List.rel_append (List.rel_append
      (ForInit.checks_alike hS.locals.push init) ?_) ?_)
      (Scope.checks_alike hS' body hR.2)
    · exact forall₂_toList_map fun _ _ => .condition hafter
    · exact forall₂_toList_map fun _ _ => .expr hafter

theorem Branch.checks_alike {S S' : Surroundings} (hS : S.Alike R S') : (b : Branch) →
    (∀ l ∈ b.locals, l.Goes R φ) →
    List.Forall₂ (Check.Alike R φ) (b.checks S) ((b.move φ).checks S')
  | .mk _ condition body otherwise, hR => by
    rw [Branch.locals, List.forall_mem_append] at hR
    rw [Branch.move, Branch.checks, Branch.checks]
    exact .cons (.condition hS.locals) (List.rel_append
      (Scope.checks_alike hS body hR.1) (Otherwise.checks_alike hS otherwise hR.2))

theorem Otherwise.checks_alike {S S' : Surroundings} (hS : S.Alike R S') : (o : Otherwise) →
    (∀ l ∈ o.locals, l.Goes R φ) →
    List.Forall₂ (Check.Alike R φ) (o.checks S) ((o.move φ).checks S')
  | .nothing, _ => by
    rw [Otherwise.move, Otherwise.checks, Otherwise.checks]
    exact .nil
  | .branch b, hR => by
    rw [Otherwise.locals] at hR
    rw [Otherwise.move, Otherwise.checks, Otherwise.checks]
    exact Branch.checks_alike hS b hR
  | .scope s, hR => by
    rw [Otherwise.locals] at hR
    rw [Otherwise.move, Otherwise.checks, Otherwise.checks]
    exact Scope.checks_alike hS s hR

theorem Scope.checks_alike {S S' : Surroundings} (hS : S.Alike R S') : (s : Scope) →
    (∀ l ∈ s.locals, l.Goes R φ) →
    List.Forall₂ (Check.Alike R φ) (s.checks S) ((s.move φ).checks S')
  | .mk _ statements, hR => by
    rw [Scope.locals] at hR
    rw [Scope.move, Scope.checks, Scope.checks]
    have hS' : Surroundings.Alike R { S with locals := [] :: S.locals }
        { S' with locals := [] :: S'.locals } :=
      ⟨hS.locals.push, hS.result_eq, hS.labels_eq, hS.inLoop_eq⟩
    exact Stmt.listChecks_alike hS' statements hR

theorem Stmt.listChecks_alike {S S' : Surroundings} (hS : S.Alike R S') : (ss : List Stmt) →
    (∀ l ∈ Stmt.listLocals ss, l.Goes R φ) →
    List.Forall₂ (Check.Alike R φ) (Stmt.listChecks S ss)
      (Stmt.listChecks S' (Stmt.moveAll φ ss))
  | [], _ => by
    rw [Stmt.moveAll, Stmt.listChecks, Stmt.listChecks]
    exact .nil
  | s :: ss, hR => by
    rw [Stmt.listLocals, List.forall_mem_append] at hR
    rw [Stmt.moveAll, Stmt.listChecks, Stmt.listChecks]
    have hS' : Surroundings.Alike R { S with locals := s.after S.locals }
        { S' with locals := (s.move φ).after S'.locals } :=
      ⟨Stmt.after_alike hS.locals hR.1, hS.result_eq, hS.labels_eq, hS.inLoop_eq⟩
    exact List.rel_append (Stmt.checks_alike hS s hR.1) (Stmt.listChecks_alike hS' ss hR.2)

end

/-- The same is asked of a moved function. -/
theorem FunctionDecl.checks_alike {d : FunctionDecl}
    (hR : ∀ n ∈ d.tree.bindings, R (.declared n) (.declared (n + φ.shift))) :
    List.Forall₂ (Check.Alike R φ) d.checks (d.move φ).checks := by
  rw [d.bindings_tree, List.forall_mem_cons, List.forall_mem_map] at hR
  replace hR : ∀ l ∈ d.locals, l.Goes R φ := hR.2
  rw [locals, List.forall_mem_append] at hR
  have hparameters : List.Forall₂ (Local.Alike R) (d.parameters.map Parameter.local)
      ((d.move φ).parameters.map Parameter.local) := by
    rw [move, List.map_map, List.forall₂_map_left_iff, List.forall₂_map_right_iff, List.forall₂_same]
    exact fun p hp => ⟨rfl, hR.1 _ (List.mem_map_of_mem hp)⟩
  have hS : d.surroundings.Alike R (d.move φ).surroundings :=
    { locals := .cons (List.rel_reverse hparameters) .nil
      result_eq := d.result_move φ
      labels_eq := d.labels_move φ
      inLoop_eq := rfl }
  exact Scope.checks_alike hS d.body hR.2

/-- Members that are asked the same, in the order of the text. Variables are known in later members
only. -/
theorem Member.listChecks_alike {ms : List Member} (hΓ : Γ.Alike R Γ')
    (hR : ∀ m ∈ ms, ∀ n ∈ m.tree.bindings, R (.declared n) (.declared (n + φ.shift))) :
    List.Forall₂ (Check.Alike R φ) (Member.listChecks Γ ms)
      (Member.listChecks Γ' (ms.map (Member.move φ))) := by
  induction ms generalizing Γ Γ' with
  | nil => exact .nil
  | cons m ms ih =>
    rw [List.forall_mem_cons] at hR
    match m, hR with
    | .variable d, hR =>
      rw [Member.tree, d.bindings_tree, List.forall_mem_singleton] at hR
      exact List.rel_append (VariableDecl.checks_alike hΓ d)
        (ih (hΓ.declare (VariableDecl.local_alike hR.1)) hR.2)
    | .function d, hR =>
      exact List.rel_append (FunctionDecl.checks_alike hR.1) (ih hΓ hR.2)

/-- The same is asked of a moved declaration. -/
theorem Declaration.checks_alike {d : Declaration}
    (hR : ∀ n ∈ d.tree.bindings, R (.declared n) (.declared (n + φ.shift))) :
    List.Forall₂ (Check.Alike R φ) d.checks (d.move φ).checks := by
  match d with
  | .classDecl d =>
    rw [tree, d.bindings_tree, List.forall_mem_flatMap] at hR
    exact Member.listChecks_alike (.cons .nil .nil) hR
  | .function d => exact FunctionDecl.checks_alike hR
  | .variable d => exact VariableDecl.checks_alike .nil d

end Checks

end Sable
