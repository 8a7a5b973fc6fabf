import Sable.Proofs.Analysis.Integrity
import Sable.Proofs.Analysis.Looping
import Sable.Proofs.Grammar.Nesting
import Sable.Proofs.Symbol.Starring

/-!
# Initializers

The type of an initializer is compared with the type of the variable, once for every variable of a
unit. An error about it can be told by its place, since no other variable and no `return` has an
expression there.

## Main definitions

* `Tree.initials`: the initializers in a tree.
* `Context.initialErrors`: what is wrong with an initializer, by the notes.

## Main statements

* `Block.flatMap_initials_checks`: the initializers that are checked.
* `Block.initializer_null`: the type of a `null` literal.
* `Block.initializer_analyze`: what an analysis reports of an initializer.
-/
namespace Sable

/-! ## Initializers in a tree -/

namespace Tree

/-- The number of the initializer of a variable. -/
def initializer? (t : Tree) : Option NodeId :=
  if t.root.kind = .variable then t.children[1]?.map Tree.id else none

def initials (t : Tree) : List NodeId := t.subtrees.filterMap initializer?

def allInitials (ts : List Tree) : List NodeId := (allSubtrees ts).filterMap initializer?

variable {n : Node} {t : Tree} {ts : List Tree}

theorem initials_node (n : Node) (ts : List Tree) :
    (node n ts).initials = (node n ts).initializer?.toList ++ allInitials ts := by
  rw [initials, subtrees, List.filterMap_cons, allInitials]
  cases (node n ts).initializer? <;> rfl

@[simp] theorem allInitials_nil : allInitials [] = [] := rfl

@[simp] theorem allInitials_cons : allInitials (t :: ts) = t.initials ++ allInitials ts := by
  rw [allInitials, allSubtrees, List.filterMap_append, initials, allInitials]

@[simp] theorem allInitials_append (us : List Tree) :
    allInitials (ts ++ us) = allInitials ts ++ allInitials us := by
  induction ts with
  | nil => rfl
  | cons t ts ih => simp [ih]

theorem initials_eq_nil (h : ∀ n ∈ t.preorder, n.kind ≠ .variable) : t.initials = [] := by
  refine List.filterMap_eq_nil_iff.2 fun u hu => ?_
  rw [initializer?, if_neg (h _ (root_mem_of_mem_subtrees hu))]

end Tree

open Sable.Tree

def Check.initials : Check → List NodeId
  | .initializer _ _ e => [e.id]
  | _ => []

theorem NodeKind.ne_variable_of_isExpression {k : NodeKind}
    (h : k.isExpression = true ∨ k = .type) : k ≠ .variable := by
  rintro rfl
  simp [isExpression] at h

@[simp] theorem WrittenType.initials_tree (t : WrittenType) : t.tree.initials = [] := rfl

@[simp] theorem Expr.initials_tree (e : Expr) : e.tree.initials = [] :=
  initials_eq_nil fun n hn => NodeKind.ne_variable_of_isExpression (e.kind_of_mem_preorder n hn)

@[simp] theorem Expr.allInitials_optionTrees (e : Option Expr) :
    allInitials (optionTrees e) = [] := by
  cases e <;> simp [optionTrees]

@[simp] theorem VariableDecl.initials_tree (d : VariableDecl) :
    d.tree.initials = d.initializer.toList.map Expr.id := by
  rw [tree, initials_node, initializer?]
  cases d.initializer with
  | none => simp [root, children, Expr.optionTrees, Node.kind, Head.kind]
  | some e => simp [root, children, Expr.optionTrees, Node.kind, Head.kind, ← e.id_root, Tree.id]

@[simp] theorem VariableDecl.flatMap_initials_checks (Γ : Locals) (d : VariableDecl) :
    (d.checks Γ).flatMap Check.initials = d.initializer.toList.map Expr.id := by
  cases h : d.initializer <;> simp [checks, h, Check.initials]

@[simp] theorem ForInit.flatMap_initials_checks (Γ : Locals) (init : ForInit) :
    (init.checks Γ).flatMap Check.initials = allInitials init.trees := by
  cases init <;> simp [checks, trees, Check.initials]

theorem flatMap_initials_option {f : Expr → Check} (hf : ∀ e, (f e).initials = [])
    (e : Option Expr) : (e.toList.map f).flatMap Check.initials = [] := by
  cases e <;> simp [hf]

mutual

/-- The initializers of a statement are checked. -/
theorem Stmt.flatMap_initials_checks (S : Surroundings) :
    (s : Stmt) → (s.checks S).flatMap Check.initials = s.tree.initials
  | .label .. | .goto .. | .breakLoop _ | .continueLoop _ => rfl
  | .returns .. => by
    simp [Stmt.checks, Stmt.tree, initials_node, initializer?, root, Check.initials, Node.kind,
      Head.kind]
  | .variable d => by simp [Stmt.checks, Stmt.tree]
  | .expr e => by simp [Stmt.checks, Stmt.tree, Check.initials]
  | .branch b => b.flatMap_initials_checks S
  | .whileLoop place condition body => by
    have hbody := body.flatMap_initials_checks { S with inLoop := true }
    simp [Stmt.checks, Stmt.tree, initials_node, initializer?, root, Check.initials, hbody,
      Node.kind, Head.kind]
  | .forLoop place init condition step body => by
    have hbody := body.flatMap_initials_checks
      { S with locals := init.after ([] :: S.locals), inLoop := true }
    simp [Stmt.checks, Stmt.tree, initials_node, initializer?, root, hbody, flatMap_initials_option
      (f := Check.condition _) fun _ => rfl,
      flatMap_initials_option (f := Check.expr _) fun _ => rfl,
      Node.kind, Head.kind]

theorem Branch.flatMap_initials_checks (S : Surroundings) :
    (b : Branch) → (b.checks S).flatMap Check.initials = b.tree.initials
  | .mk place condition body otherwise => by
    have hbody := body.flatMap_initials_checks S
    have hotherwise := otherwise.flatMap_initials_checks S
    simp [Branch.checks, Branch.tree, initials_node, initializer?, root, Check.initials, hbody, hotherwise, Node.kind,
      Head.kind]

theorem Otherwise.flatMap_initials_checks (S : Surroundings) :
    (o : Otherwise) → (o.checks S).flatMap Check.initials = allInitials o.trees
  | .nothing => rfl
  | .branch b => by simp [Otherwise.checks, Otherwise.trees, b.flatMap_initials_checks S]
  | .scope s => by simp [Otherwise.checks, Otherwise.trees, s.flatMap_initials_checks S]

theorem Scope.flatMap_initials_checks (S : Surroundings) :
    (s : Scope) → (s.checks S).flatMap Check.initials = s.tree.initials
  | .mk place statements => by
    have hstatements :=
      Stmt.flatMap_initials_listChecks { S with locals := [] :: S.locals } statements
    simp [Scope.checks, Scope.tree, initials_node, initializer?, root, hstatements, Node.kind,
      Head.kind]

theorem Stmt.flatMap_initials_listChecks (S : Surroundings) : (ss : List Stmt) →
    (Stmt.listChecks S ss).flatMap Check.initials = allInitials (Stmt.trees ss)
  | [] => rfl
  | s :: ss => by
    simp [Stmt.listChecks, Stmt.trees, s.flatMap_initials_checks S,
      Stmt.flatMap_initials_listChecks { S with locals := s.after S.locals } ss]

end

@[simp] theorem allInitials_parameters (ps : List Parameter) :
    allInitials (ps.map Parameter.tree) = [] := by
  induction ps with
  | nil => rfl
  | cons p ps ih =>
    simp [ih, Parameter.tree, initials_node, initializer?, root, Node.kind, Head.kind]

theorem FunctionDecl.flatMap_initials_checks (d : FunctionDecl) :
    d.checks.flatMap Check.initials = d.tree.initials := by
  have hreturns : allInitials (d.returns.toList.map WrittenType.tree) = [] := by
    cases d.returns <;> simp
  simp [checks, tree, initials_node, initializer?, root, d.body.flatMap_initials_checks, hreturns,
    Node.kind, Head.kind]

theorem Member.flatMap_initials_listChecks (Γ : Locals) (ms : List Member) :
    (Member.listChecks Γ ms).flatMap Check.initials = allInitials (ms.map Member.tree) := by
  induction ms generalizing Γ with
  | nil => rfl
  | cons m ms ih =>
    match m with
    | .variable d => simp [listChecks, tree, ih]
    | .function d => simp [listChecks, tree, ih, d.flatMap_initials_checks]

theorem Declaration.flatMap_initials_checks (d : Declaration) :
    d.checks.flatMap Check.initials = d.tree.initials := by
  match d with
  | .classDecl d =>
    simp [checks, tree, ClassDecl.checks, ClassDecl.tree, initials_node, initializer?, root,
      Member.flatMap_initials_listChecks, Node.kind, Head.kind]
  | .function d => exact d.flatMap_initials_checks
  | .variable d => simp [checks, tree]

/-- The initializers that are checked are those of the tree. -/
theorem Block.flatMap_initials_checks (b : Block) :
    b.checks.flatMap Check.initials = b.tree.initials := by
  rw [checks, tree, initials_node]
  change _ = allInitials _
  induction b.declarations with
  | nil => rfl
  | cons d ds ih => simp [d.flatMap_initials_checks, ih]

/-! ## Where initializers stand -/

/-- What is in a variable but no expression and no type is the variable. -/
theorem VariableDecl.eq_of_mem_subtrees (d : VariableDecl) {t : Tree} (ht : t ∈ d.tree.subtrees)
    (hkind : ¬(t.root.kind.isExpression = true ∨ t.root.kind = .type)) : t = d.tree := by
  rcases Tree.mem_subtrees.1 ht with h | ⟨c, hc, ht⟩
  · exact h
  · refine absurd ?_ hkind
    have hroot := Tree.root_mem_of_mem_subtrees ht
    rcases List.mem_cons.1 hc with rfl | hc
    · rw [WrittenType.tree, Tree.preorder, Tree.preorders, List.mem_singleton] at hroot
      exact .inr (hroot ▸ rfl)
    · obtain ⟨e, -, rfl⟩ := List.mem_map.1 hc
      exact e.kind_of_mem_preorder _ hroot

theorem VariableDecl.initializer_mem_subtrees (d : VariableDecl) {e : Expr}
    (he : d.initializer = some e) : e.tree ∈ d.tree.subtrees :=
  Tree.mem_subtrees_of_mem_children d.tree.self_mem_subtrees (d.initializer_mem_children he)

namespace Block

variable {b : Block} {d d' : VariableDecl} {e e' : Expr} {place : Place} {value : Option Expr}

section Fitting

variable (hfits : ∀ t ∈ b.tree.subtrees, ∃ ts, t.Fits ts)

include hfits

/-- Only one variable has an initializer at a place. -/
theorem tree_eq_of_span_eq (hd : d.tree ∈ b.tree.subtrees) (hd' : d'.tree ∈ b.tree.subtrees)
    (he : d.initializer = some e) (he' : d'.initializer = some e') (h : e'.span = e.span) :
    d'.tree = d.tree := by
  have hspan : e'.tree.root.span = e.tree.root.span := by rw [e.span_root, e'.span_root, h]
  rcases Tree.nested_of_span_eq hfits hd' hd (d'.initializer_mem_subtrees he')
    (d.initializer_mem_subtrees he) hspan with h | h
  · exact d.eq_of_mem_subtrees h (by simp [VariableDecl.tree, Tree.root, Node.kind, Head.kind,
      NodeKind.isExpression])
  · exact (d'.eq_of_mem_subtrees h (by simp [VariableDecl.tree, Tree.root, Node.kind, Head.kind,
      NodeKind.isExpression])).symm

/-- No `return` has its value, or itself stands, at the place of an initializer. -/
theorem span_returns_ne (hd : d.tree ∈ b.tree.subtrees) (he : d.initializer = some e)
    (hr : .node ⟨place, .returns⟩ (Expr.optionTrees value) ∈ b.tree.subtrees) (Γ : Locals) (τ : Ty) :
    (Check.returns place Γ τ value).span ≠ e.span := by
  intro h
  obtain ⟨t, ht, hspan⟩ : ∃ t ∈ (Tree.node ⟨place, .returns⟩ (Expr.optionTrees value)).subtrees,
      t.root.span = e.tree.root.span := by
    cases value with
    | none => exact ⟨_, Tree.self_mem_subtrees _, h.trans e.span_root.symm⟩
    | some v =>
      refine ⟨v.tree, Tree.mem_subtrees_of_mem_children (Tree.self_mem_subtrees _)
        (Expr.mem_optionTrees rfl), ?_⟩
      rw [v.span_root, e.span_root]
      exact h
  rcases Tree.nested_of_span_eq hfits hr hd ht (d.initializer_mem_subtrees he) hspan with h | h
  · have heq := d.eq_of_mem_subtrees h (by simp [Tree.root, Node.kind, Head.kind,
      NodeKind.isExpression])
    simp [VariableDecl.tree] at heq
  · rcases Tree.mem_subtrees.1 h with h | ⟨c, hc, h⟩
    · simp [VariableDecl.tree] at h
    · obtain ⟨v, -, rfl⟩ := List.mem_map.1 hc
      have hkind := v.kind_of_mem_preorder _ (Tree.root_mem_of_mem_subtrees h)
      simp [VariableDecl.tree, Tree.root, Node.kind, Head.kind, NodeKind.isExpression] at hkind

end Fitting

end Block

/-! ## Notes of types -/

namespace Analyzing

theorem resolvedTypes_typeExprs {es : List Expr} {n : NodeId} (h : ∀ e ∈ es, ∀ c,
      ((typeExpr e).run c).2.annotations.resolvedTypes.get? n = c.annotations.resolvedTypes.get? n)
    (c : Context) : ((typeExprs es).run c).2.annotations.resolvedTypes.get? n =
      c.annotations.resolvedTypes.get? n := by
  induction es generalizing c with
  | nil => rfl
  | cons e es ih =>
    rw [List.forall_mem_cons] at h
    rw [typeExprs]
    exact (ih h.2 _).trans (h.1 c)

theorem resolvedTypes_noteType (node : NodeId) (type : Option SymbolId) (c : Context) (n : NodeId) :
    ((noteType node type).run c).2.annotations.resolvedTypes.get? n =
      if n = node then type.or (c.annotations.resolvedTypes.get? n)
      else c.annotations.resolvedTypes.get? n := by
  cases type with
  | none => exact (ite_self _).symm
  | some x => exact OrderedMap.get?_insert _ _ _ _

/-- Behind its operands, an expression notes its own type only. -/
theorem resolvedTypes_typeExpr_eq (e : Expr) (c : Context) (n : NodeId) :
    ((typeExpr e).run c).2.annotations.resolvedTypes.get? n =
      if n = e.id then
        ((typeExpr e).run c).1.or (((typeOperands e).run c).2.annotations.resolvedTypes.get? n)
      else ((typeOperands e).run c).2.annotations.resolvedTypes.get? n := by
  obtain ⟨_, -, -, _, _, hnotes⟩ := addsAt_applyRule e ((typeOperands e).run c).1
    (length_typeExprs ..) (c := ((typeOperands e).run c).2)
  obtain ⟨hanswer, -⟩ := noteType_effect e.id
    ((applyRule e ((typeOperands e).run c).1).run ((typeOperands e).run c).2).1
    ((applyRule e ((typeOperands e).run c).1).run ((typeOperands e).run c).2).2
  rw [run_typeExpr, resolvedTypes_noteType, hnotes, hanswer]

/-- An expression notes types of its parts only. -/
theorem resolvedTypes_typeExpr (e : Expr) {n : NodeId} (hn : n ∉ e.parts.map Expr.id)
    (c : Context) :
    ((typeExpr e).run c).2.annotations.resolvedTypes.get? n =
      c.annotations.resolvedTypes.get? n := by
  induction e using Expr.inductionOn generalizing c with
  | h e ih =>
    have hne : n ≠ e.id := fun h => hn (h ▸ List.mem_map_of_mem e.mem_parts)
    have hoperands : ∀ o ∈ e.operands, ∀ c, ((typeExpr o).run c).2.annotations.resolvedTypes.get? n =
        c.annotations.resolvedTypes.get? n := fun o ho c =>
      ih o ho (fun h => hn (List.map_subset _ (Expr.parts_subset_of_mem_operands ho) h)) c
    rw [resolvedTypes_typeExpr_eq, if_neg hne]
    exact resolvedTypes_typeExprs hoperands _

/-- If no type was noted, then the type that an expression gets is. -/
theorem resolvedType_typeExpr {e : Expr} (hnodup : (e.parts.map Expr.id).Nodup) {c : Context}
    (hc : c.annotations.resolvedTypes.get? e.id = none) :
    ((typeExpr e).run c).2.annotations.resolvedTypes.get? e.id = ((typeExpr e).run c).1 := by
  rw [e.parts_eq_operands, List.map_cons, List.nodup_cons, List.map_flatMap] at hnodup
  have hoperands : ∀ o ∈ e.operands, ∀ c,
      ((typeExpr o).run c).2.annotations.resolvedTypes.get? e.id =
        c.annotations.resolvedTypes.get? e.id := fun o ho c =>
    resolvedTypes_typeExpr o (fun h => hnodup.1 (List.mem_flatMap.2 ⟨o, ho, h⟩)) c
  have hnone : ((typeOperands e).run c).2.annotations.resolvedTypes.get? e.id = none :=
    (resolvedTypes_typeExprs hoperands _).trans hc
  rw [resolvedTypes_typeExpr_eq, if_pos rfl, hnone, Option.or_none]

end Analyzing

/-! ## Errors of initializers -/

open Analyzing

/-- The error is that types at this place differ. -/
def SemanticError.isMismatchAt (span : Span) : SemanticError → Bool
  | .typeMismatch _ _ s => s == span
  | _ => false

theorem SemanticError.span_eq_of_isMismatchAt {span : Span} {x : SemanticError}
    (h : x.isMismatchAt span = true) : x.span = span := by
  cases x <;> simp_all [isMismatchAt, SemanticError.span]

/-- What is wrong if a variable of the first type has an initializer of the second type: they
differ, unless the second type is that of `null` and the first one a pointer type. -/
def Context.initialErrors (c : Context) (span : Span) :
    Option SymbolId → Option SymbolId → List SemanticError
  | some x, some y =>
    if x = y ∨ c.isPointer x = true ∧ c.isNullPointer y = true then []
    else [.typeMismatch (c.nameOf x) (some (c.nameOf y)) span]
  | _, _ => []

theorem Context.filter_initialErrors (c : Context) (span : Span)
    (expected found : Option SymbolId) :
    (c.initialErrors span expected found).filter (·.isMismatchAt span) =
      c.initialErrors span expected found := by
  unfold initialErrors
  split
  · split <;> simp [SemanticError.isMismatchAt]
  · rfl

/-- Types that are known stay as they are. -/
theorem Context.initialErrors_congr {c c' : Context} (hglobals : c'.globals = c.globals)
    {expected found : Option SymbolId} (hexpected : ∀ x ∈ expected, c'.symbol? x = c.symbol? x)
    (hfound : ∀ y ∈ found, c'.symbol? y = c.symbol? y) (span : Span) :
    c'.initialErrors span expected found = c.initialErrors span expected found := by
  match expected, found with
  | none, _ | some _, none => rfl
  | some x, some y =>
    have hx := hexpected x rfl
    have hy := hfound y rfl
    have hpointer : c'.isPointer x = c.isPointer x := by
      rw [isPointer, mode?, show c'.type? x = c.type? x from congrArg (·.bind Symbol.type?) hx]
      rfl
    have hnull : c'.isNullPointer y = c.isNullPointer y := by
      rw [isNullPointer, pointee?, show c'.type? y = c.type? y from congrArg (·.bind Symbol.type?) hy]
      simp only [isBuiltin, hglobals]
      rfl
    have hname : ∀ {z}, c'.symbol? z = c.symbol? z → c'.nameOf z = c.nameOf z := fun {z} hz => by
      rw [nameOf, Library.nameOf, show c'.library.symbol? z = c.library.symbol? z from hz]
      rfl
    rw [initialErrors, initialErrors, hpointer, hnull, hname hx, hname hy]

theorem errors_compareInitializer (expected : Option SymbolId) (e : Expr) (found : Option SymbolId)
    (c : Context) : ((compareInitializer expected e found).run c).2 =
      { c with errors := c.errors ++ c.initialErrors e.span expected found } := by
  have hsame : c = { c with errors := c.errors ++ [] } := by rw [List.append_nil]
  match expected, found with
  | none, _ | some _, none => exact hsame
  | some x, some y =>
    have hrun : compareInitializer (some x) e (some y) = (do
        let c ← get
        if y ≠ x ∧ !(c.isPointer x && c.isNullPointer y) then mismatch x (some y) e.span) := rfl
    rw [hrun, run_bind]
    change ((if y ≠ x ∧ !(c.isPointer x && c.isNullPointer y) then mismatch x (some y) e.span
      else pure () : Analyzing Unit).run c).2 = _
    by_cases h : x = y ∨ c.isPointer x = true ∧ c.isNullPointer y = true
    · rw [if_neg (by grind), Context.initialErrors, if_pos h]
      exact hsame
    · rw [if_pos (by grind), Context.initialErrors, if_neg h]
      rfl

/-! ## The null literal -/

namespace Context

variable {b : Block} {c c' : Context} {ns : List NodeId} {y : SymbolId}

/-- The whole unit has a type that is called as that of `null`. -/
def NamesNull (c : Context) : Prop :=
  ∃ x, c.globals.get? Library.nullName = some x ∧ c.library.Knows SymbolSort.IsType x

theorem isNullPointer_iff : c.isNullPointer y = true ↔
    ∃ x, c.globals.get? Library.nullName = some x ∧
      c.library.Knows (· = .type (.pointer x)) y := by
  rw [isNullPointer, Option.any_eq_true]
  refine exists_congr fun x => ?_
  rw [and_comm, isBuiltin, beq_iff_eq]
  exact and_congr_right fun _ => Library.pointee?_eq_some

theorem Advances.namesNull (h : c.Advances b ns c') (hnull : c.NamesNull) : c'.NamesNull := by
  obtain ⟨x, hx, hknows⟩ := hnull
  exact ⟨x, h.globals_eq ▸ hx, h.interns.extends.knows hknows⟩

theorem Advances.isNullPointer (h : c.Advances b ns c') (hy : c.isNullPointer y = true) :
    c'.isNullPointer y = true := by
  obtain ⟨x, hx, hknows⟩ := isNullPointer_iff.1 hy
  exact isNullPointer_iff.2 ⟨x, h.globals_eq ▸ hx, h.interns.extends.knows hknows⟩

end Context

open Context (NamesNull)

/-- The literal has the pointer type of the type that is called as that of `null`. -/
theorem Analyzing.isNullPointer_typeExpr {b : Block} {typed : Prop} {c : Context}
    (hc : c.IsAnnotated b typed) (hnull : c.NamesNull) (place : Place) :
    ∃ y, ((typeExpr (.value place .null)).run c).1 = some y ∧
      ((typeExpr (.value place .null)).run c).2.isNullPointer y = true := by
  obtain ⟨x, hx, hknows⟩ := hnull
  obtain ⟨name, form, hform⟩ := Library.exists_form?_of_knows hknows
  obtain ⟨t, ht, -⟩ := Library.type?_of_form? hform
  have hname : ∀ visits, { c with visits }.globalType? Library.nullName = some x := fun visits => by
    rw [Context.globalType?, hx, Option.filter_some, if_pos]
    exact Option.isSome_iff_exists.2 ⟨t, ht⟩
  have hvalue : ∀ visits, (typeValue place .null).run { c with visits } =
      (some (c.library.pointerTo x).1, { c with library := (c.library.pointerTo x).2, visits }) :=
    fun visits => by
      rw [typeValue, pointerToBuiltin, run_bind, run_builtin, hname]
      rfl
  obtain ⟨visits, hvisits⟩ : ∃ visits, ((visit .typing place.id).run c).2 = { c with visits } :=
    ⟨_, rfl⟩
  have hrun : (typeExpr (.value place .null)).run c =
      (noteType place.id (some (c.library.pointerTo x).1)).run
        { c with library := (c.library.pointerTo x).2, visits } := by
    rw [typeExpr, noting_eq, run_bind, hvisits, run_bind, hvalue]
  rw [hrun]
  exact ⟨_, rfl, Context.isNullPointer_iff.2 ⟨x, hx, (hc.library.pointerTo hknows).2⟩⟩

/-! ## The analysis of initializers -/

theorem Check.ids_initializer (Γ : Locals) (τ : Ty) (e : Expr) :
    (Check.initializer Γ τ e).ids = e.parts.map Expr.id := by
  rw [ids, exprs, List.flatMap_singleton]

theorem Check.initials_subset_ids (k : Check) : k.initials ⊆ k.ids := by
  cases k with
  | initializer Γ τ e =>
    rw [ids_initializer]
    exact List.cons_subset.2 ⟨List.mem_map_of_mem e.mem_parts, List.nil_subset _⟩
  | _ => exact List.nil_subset _

namespace Block

variable {b : Block} {d : VariableDecl} {e : Expr} {typed : Prop} {c : Context} {place : Place}

/-- What the notes say of an initializer. -/
def initialErrors (d : VariableDecl) (e : Expr) (c : Context) : List SemanticError :=
  c.initialErrors e.span (c.annotations.declaredTypes.get? d.type.place.id)
    (c.annotations.resolvedTypes.get? e.id)

/-- Behind some checks, an initializer is reported if it is among them and its type is wrong. -/
def HasCompared (d : VariableDecl) (e : Expr) (ks : List Check) (c : Context) : Prop :=
  c.errors.filter (·.isMismatchAt e.span) =
    if e.id ∈ ks.flatMap Check.initials then initialErrors d e c else []

theorem hasCompared_congr {d' : VariableDecl} {e' : Expr} (htype : d'.type.place = d.type.place)
    (hid : e'.id = e.id) (hspan : e'.span = e.span) : HasCompared d' e' = HasCompared d e := by
  funext ks c
  rw [HasCompared, HasCompared, initialErrors, initialErrors, htype, hid, hspan]

/-- What is known of an initializer does not change where other expressions get types. -/
theorem initialErrors_of_advances (hc : c.IsAnnotated b typed) {ns : List NodeId} {c' : Context}
    (h : c.Advances b ns c') (he : e.id ∉ ns) : initialErrors d e c' = initialErrors d e c := by
  have hsymbol : ∀ {p x}, c.library.Knows p x → c'.symbol? x = c.symbol? x := by
    rintro p x ⟨s, hs, -⟩
    exact (h.interns.symbol?_mono hs).trans hs.symm
  rw [initialErrors, h.declaredTypes_eq, h.types_eq e.id he]
  exact Context.initialErrors_congr h.globals_eq
    (fun x hx => hsymbol (hc.declaredTypes _ x hx).2)
    (fun y hy => hsymbol (hc.resolvedTypes _ y hy).2) e.span

/-- The check of an initializer, of which nothing is noted yet. -/
theorem errors_checkInitializer (declared : Option SymbolId)
    (hnodup : (e.parts.map Expr.id).Nodup)
    (hc : c.annotations.resolvedTypes.get? e.id = none) :
    ∃ c₁ : Context, ((checkInitializer declared e).run c).2 =
        { c₁ with errors := c₁.errors ++
            c₁.initialErrors e.span declared (c₁.annotations.resolvedTypes.get? e.id) } ∧
      c₁.errors.filter (·.isMismatchAt e.span) = c.errors.filter (·.isMismatchAt e.span) := by
  refine ⟨((typeExpr e).run c).2, ?_, ?_⟩
  · rw [checkInitializer_eq, resolvedType_typeExpr hnodup hc, ← errors_compareInitializer]
    rfl
  · refine Reports.filter_errors ((reports_ofExpression e).mono fun x hx => ?_) c
    cases x <;> simp_all [SemanticError.isOfExpression, SemanticError.isMismatchAt]

/-- The check of the initializer itself. -/
theorem hasCompared_own (hb : b.Numbered) {ks : List Check} {Γ : Locals} {τ : Ty}
    (hks : ks ++ [.initializer Γ τ e] <+: b.checks)
    (hc : c.IsReady b typed (Check.initializer Γ τ e).ids) (h : HasCompared d e ks c)
    (hnew : e.id ∉ ks.flatMap Check.initials)
    (hdeclared : ((checkInitializer (c.annotations.declaredTypes.get? d.type.place.id) e).run
      c).2.annotations.declaredTypes = c.annotations.declaredTypes) :
    HasCompared d e (ks ++ [.initializer Γ τ e])
      ((checkInitializer (c.annotations.declaredTypes.get? d.type.place.id) e).run c).2 := by
  have hids : e.id ∈ (Check.initializer Γ τ e).ids :=
    Check.initials_subset_ids _ (List.mem_singleton_self _)
  have hmem : e.id ∈ (ks ++ [Check.initializer Γ τ e]).flatMap Check.initials :=
    List.mem_flatMap.2 ⟨_, List.mem_append_right _ (List.mem_singleton_self _),
      List.mem_singleton_self _⟩
  obtain ⟨c₁, hrun, herrors⟩ := errors_checkInitializer
    (c.annotations.declaredTypes.get? d.type.place.id)
    (Check.ids_initializer Γ τ e ▸ hb.nodup_ids_check (hks.subset (by simp))) (hc.fresh _ hids)
  rw [hrun] at hdeclared ⊢
  rw [HasCompared, if_neg hnew] at h
  rw [HasCompared, List.filter_append, herrors, h, Context.filter_initialErrors, List.nil_append,
    if_pos hmem, ← hdeclared]
  rfl

theorem hasCompared_concat (hb : b.Numbered) (hfits : ∀ t ∈ b.tree.subtrees, ∃ ts, t.Fits ts)
    (hd : d.tree ∈ b.tree.subtrees) (he : d.initializer = some e)
    {row : NodeId → Option SymbolId} {k : Check} {p : ScopeStack SymbolId → Prop}
    {m : Analyzing Unit} (hm : b.Step row k p m) {ks : List Check} (hks : ks ++ [k] <+: b.checks)
    (hc : c.IsReady b typed k.ids) (h : HasCompared d e ks c) :
    HasCompared d e (ks ++ [k]) (m.run c).2 := by
  have hadvances := (hm.annotatesAt hb (hks.subset (by simp)) hc).advances
  have hold : e.id ∈ ks.flatMap Check.initials → e.id ∉ k.ids := fun hmem hids => by
    obtain ⟨k', hk', hmem⟩ := List.mem_flatMap.1 hmem
    exact hb.notMem_ids_of_prefix hks hids
      (List.mem_flatMap.2 ⟨k', hk', k'.initials_subset_ids hmem⟩)
  have hother (hnot : e.id ∉ k.initials)
      (hown : ∀ x, k.isOwn x = true → x.span = k.span → x.isMismatchAt e.span = false) :
      HasCompared d e (ks ++ [k]) (m.run c).2 := by
    have herrors := hm.filter_errors (q := (·.isMismatchAt e.span)) (fun x hx => by
      cases x <;> simp_all only [SemanticError.isOfExpression, SemanticError.isMismatchAt,
        Bool.false_eq_true]) hown c
    rw [HasCompared, herrors, h, List.flatMap_append, List.flatMap_singleton]
    by_cases hmem : e.id ∈ ks.flatMap Check.initials
    · rw [if_pos hmem, if_pos (List.mem_append_left _ hmem),
        initialErrors_of_advances hc.toIsAnnotated hadvances (hold hmem)]
    · rw [if_neg hmem, if_neg (by simp [hmem, hnot])]
  cases hm with
  | @initializer Γ d' e' hd' he' =>
    by_cases hspan : e'.span = e.span
    · -- only one variable has its initializer there
      have htree := tree_eq_of_span_eq hfits hd hd' he he' hspan
      rw [VariableDecl.tree, VariableDecl.tree, he, he'] at htree
      simp only [Tree.node.injEq, Expr.optionTrees, Option.toList_some, List.map_cons, List.map_nil,
        List.cons.injEq, and_true] at htree
      have hid : e'.id = e.id := by rw [← e.id_root, ← e'.id_root, htree.2.2]
      have hsame := hasCompared_congr (congrArg (fun t : Tree => t.root.place) htree.2.1) hid hspan
      have hnew : e'.id ∉ ks.flatMap Check.initials := fun hmem =>
        hold (hid ▸ hmem) (hid ▸ Check.initials_subset_ids _ (List.mem_singleton_self _))
      rw [← hsame] at h ⊢
      exact hasCompared_own hb hks hc h hnew hadvances.declaredTypes_eq
    · refine hother (fun hmem => hspan ?_) fun x _ hx => Bool.eq_false_iff.2 fun hx' => hspan ?_
      · have hroot := hb.node_inj (Tree.preorder_subset_of_mem_children hd'
          (d'.initializer_mem_children he') e'.tree.root_mem_preorder)
          (Tree.preorder_subset_of_mem_children hd (d.initializer_mem_children he)
            e.tree.root_mem_preorder) ?_
        · rw [← e.span_root, ← e'.span_root, hroot]
        · exact (e'.id_root.trans (List.mem_singleton.1 hmem).symm).trans e.id_root.symm
      · exact hx.symm.trans (SemanticError.span_eq_of_isMismatchAt hx')
  | returns Γ hvalue _ _ =>
    exact hother List.not_mem_nil fun x _ hx => Bool.eq_false_iff.2 fun hx' =>
      span_returns_ne hfits hd he hvalue Γ _
        (hx.symm.trans (SemanticError.span_eq_of_isMismatchAt hx'))
  | _ =>
    refine hother List.not_mem_nil fun x hx _ => ?_
    revert hx
    cases x <;> simp [Check.isOwn, SemanticError.isMismatchAt]

theorem initial_mem_checks (hd : d.tree ∈ b.tree.subtrees) (he : d.initializer = some e) :
    e.id ∈ b.checks.flatMap Check.initials := by
  rw [b.flatMap_initials_checks]
  refine List.mem_filterMap.2 ⟨d.tree, hd, ?_⟩
  simp [initializer?, VariableDecl.tree, root, children, he, Expr.optionTrees, Node.kind, Head.kind,
    ← e.id_root, Tree.id]

/-- Behind some checks, the literal has its type if it is an initializer among them. -/
def HasNull (place : Place) (ks : List Check) (c : Context) : Prop :=
  c.NamesNull ∧ (place.id ∈ ks.flatMap Check.initials →
    ∃ y, c.annotations.resolvedTypes.get? place.id = some y ∧ c.isNullPointer y = true)

theorem Numbered.namesNull_withSymbols (hb : b.Numbered) {id k : LibraryId} (h : id ≠ k)
    (name : String) : (b.withSymbols [.core id] (.new k name)).NamesNull := by
  have hfresh := isFresh_core h name
  have hinterns := (hb.hasAnnotated_analyze hfresh (Library.isBlank_new k name)
    (Library.coherent_core id)
    (List.forall_mem_singleton.2 (Library.isSound_core id))).advances.interns
  obtain ⟨hid, hdependencies⟩ := links_analyze b [.core id] (.new k name)
  have hglobal : (Library.core id).global? Library.nullName = some (Library.builtin id .null) := by
    rw [Library.global?, OrderedMap.get?, (Library.core_spec id).2.2.2.1]
    rfl
  refine ⟨Library.builtin id .null, ?_,
    { name := Library.nullName, kind := .type ⟨.primitive, .empty⟩, span := .dummy }, ?_, trivial⟩
  · rw [hb.globals_withSymbols hfresh, List.findSome?_cons, hglobal]
    rfl
  · rw [(hb.isApart_withSymbols hfresh).symbol?, ← hinterns.id_eq, ← hinterns.dependencies_eq,
      hid, hdependencies]
    change (if id = k then _ else (Library.reachAll [.core id]).findSome? _) = _
    rw [if_neg h, Library.reachAll_core, List.findSome?_cons, Library.core_owned?,
      show (Library.builtin id .null).library = id from rfl, if_pos rfl]
    rfl
theorem hasNull_concat (hb : b.Numbered) (hd : d.tree ∈ b.tree.subtrees)
    (he : d.initializer = some (.value place .null))
    {row : NodeId → Option SymbolId} {k : Check} {p : ScopeStack SymbolId → Prop}
    {m : Analyzing Unit} (hm : b.Step row k p m) {ks : List Check} (hks : ks ++ [k] <+: b.checks)
    (hc : c.IsReady b typed k.ids) (h : HasNull place ks c) :
    HasNull place (ks ++ [k]) (m.run c).2 := by
  have hadvances := (hm.annotatesAt hb (hks.subset (by simp)) hc).advances
  refine ⟨hadvances.namesNull h.1, fun hmem => ?_⟩
  rw [List.flatMap_append, List.flatMap_singleton, List.mem_append] at hmem
  rcases hmem with hmem | hmem
  · obtain ⟨y, hy, hnull⟩ := h.2 hmem
    exact ⟨y, hadvances.types hy, hadvances.isNullPointer hnull⟩
  · cases hm with
    | @initializer Γ d' e' hd' he' =>
      have hroot := hb.node_inj (Tree.preorder_subset_of_mem_children hd'
          (d'.initializer_mem_children he') e'.tree.root_mem_preorder)
          (Tree.preorder_subset_of_mem_children hd (d.initializer_mem_children he)
            (Expr.value place .null).tree.root_mem_preorder) ?_
      · obtain rfl : e' = .value place .null := by
          cases e' <;> simp_all [Expr.tree, Tree.root]
        have hids : place.id ∈ (Check.initializer Γ d'.type.ty (.value place .null)).ids :=
          Check.initials_subset_ids _ (List.mem_singleton_self _)
        obtain ⟨y, hy, hnull⟩ := isNullPointer_typeExpr hc.toIsAnnotated h.1 place
        have htype := resolvedType_typeExpr (e := .value place .null)
          (List.nodup_singleton _) (hc.fresh _ hids)
        rw [run_get_bind, checkInitializer_eq, run_bind, errors_compareInitializer]
        exact ⟨y, htype.trans hy, hnull⟩
      · exact (e'.id_root.trans (List.mem_singleton.1 hmem).symm).trans rfl
    | _ => exact absurd hmem List.not_mem_nil

/-- A `null` literal has the type of `null`. -/
theorem initializer_null {lexer : Lexer} {source : String}
    (hparse : Block.parse (lexer.tokenize source) source = .ok b) {id k : LibraryId} (h : id ≠ k)
    (name : String) (hd : d.tree ∈ b.tree.subtrees)
    (he : d.initializer = some (.value place .null)) :
    let c := b.analyze [.core id] (.new k name)
    ∃ y, c.annotations.resolvedTypes.get? place.id = some y ∧ c.isNullPointer y = true := by
  intro c
  have hb := numbered_of_parse hparse
  have hall := (hb.analyze_of_annotates (J := HasNull place) (isFresh_core h name)
    (Library.isBlank_new k name) (Library.coherent_core id)
    (List.forall_mem_singleton.2 (Library.isSound_core id))
    ⟨hb.namesNull_withSymbols h name, fun hmem => absurd hmem List.not_mem_nil⟩
    (fun _ _ h => h) fun _ _ _ hm _ _ hks hc hJ => hasNull_concat hb hd he hm hks hc hJ).2
  exact hall.2 (initial_mem_checks hd he)

/-- The initializer of a variable in a parsed unit, wherever this stands. If both have types, that of
the initializer is reported, once, if the types differ, unless the initializer has the type of
`null`, as the literal does, and the variable a pointer type. No other mismatch is reported there. -/
theorem initializer_analyze {lexer : Lexer} {source : String}
    (hparse : Block.parse (lexer.tokenize source) source = .ok b) {id k : LibraryId} (h : id ≠ k)
    (name : String) (hd : d.tree ∈ b.tree.subtrees) (he : d.initializer = some e) :
    let c := b.analyze [.core id] (.new k name)
    c.errors.filter (·.isMismatchAt e.span) =
      match c.annotations.declaredTypes.get? d.type.place.id,
        c.annotations.resolvedTypes.get? e.id with
      | some x, some y =>
        if x = y ∨ c.isPointer x = true ∧ c.isNullPointer y = true then []
        else [.typeMismatch (c.nameOf x) (some (c.nameOf y)) e.span]
      | _, _ => [] := by
  intro c
  have hb := numbered_of_parse hparse
  have hne : b.declarations ≠ [] := by
    intro hnil
    simp [tree, hnil, Tree.subtrees, Tree.allSubtrees, VariableDecl.tree] at hd
  have hfits : ∀ t ∈ b.tree.subtrees, ∃ ts, t.Fits ts := fun t ht =>
    ⟨_, fits_of_parse hparse hne t ht⟩
  have hfresh := isFresh_core h name
  have hnil : HasCompared d e [] (b.withSymbols [.core id] (.new k name)) :=
    filter_errors_withSymbols (fun x hx => by
      cases x <;> simp_all [SemanticError.isOfName, SemanticError.isMismatchAt]) b _ _
  have hall := (hb.analyze_of_annotates hfresh (Library.isBlank_new k name)
    (Library.coherent_core id)
    (List.forall_mem_singleton.2 (Library.isSound_core id)) hnil (fun _ _ hc => hc)
    fun _ _ _ hm _ _ hks hc hJ => hasCompared_concat hb hfits hd he hm hks hc hJ).2
  exact hall.trans (if_pos (initial_mem_checks hd he))

/-- A wrong type at the top of a unit, and `null` for a pointer at the beginning of a loop. -/
theorem initializer_analyze_loop :
    let source := "var x : Integer = 1.0; fn f() { for (var p : Integer* = null; ; ) { } }"
    ∃ b, Block.parse ((Lexer.ofVocabulary .standard).tokenize source) source = .ok b ∧
      b.tree.initials = [1, 4] ∧ ∀ (d : VariableDecl) (e : Expr), d.tree ∈ b.tree.subtrees →
        d.initializer = some e →
        let c := b.analyze [.core 0] (.new 1 "unit")
        c.errors.filter (·.isMismatchAt e.span) =
          match c.annotations.declaredTypes.get? d.type.place.id,
            c.annotations.resolvedTypes.get? e.id with
          | some x, some y =>
            if x = y ∨ c.isPointer x = true ∧ c.isNullPointer y = true then []
            else [.typeMismatch (c.nameOf x) (some (c.nameOf y)) e.span]
          | _, _ => [] := by
  intro source
  have hinitials : (Block.parse ((Lexer.ofVocabulary .standard).tokenize source) source).toOption.map
      (fun b => b.tree.initials) = some [1, 4] := by
    decide +kernel
  obtain ⟨b, hparse, hinitials⟩ := exists_of_toOption_map hinitials
  exact ⟨b, hparse, hinitials, fun d e => initializer_analyze hparse (by decide) "unit"⟩

/-- A name, its type and that of the variable, if the variable has a name as its initializer. -/
def aliased (c : Context) : Declaration → Option (String × Option String × Option String)
  | .variable ⟨_, _, type, some (.value place (.identifier name))⟩ =>
    some (name.name, (c.annotations.declaredTypes.get? type.place.id).map c.nameOf,
      (c.annotations.resolvedTypes.get? place.id).map c.nameOf)
  | _ => none

/-- Not only `null` has the type of `null`: a variable of this type initializes any pointer. -/
theorem initializer_analyze_null_variable :
    let source := "var n : Null*; var p : Integer* = n;"
    ∃ b, Block.parse ((Lexer.ofVocabulary .standard).tokenize source) source = .ok b ∧
      let c := b.analyze [.core 0] (.new 1 "unit")
      c.errors = [] ∧ ∃ d place name, .variable d ∈ b.declarations ∧
        d.initializer = some (.value place (.identifier name)) ∧
        (c.annotations.declaredTypes.get? d.type.place.id).map c.nameOf = some "Integer*" ∧
        (c.annotations.resolvedTypes.get? place.id).map c.nameOf = some "Null*" := by
  intro source
  have hnames : (Block.parse ((Lexer.ofVocabulary .standard).tokenize source) source).toOption.map
      (fun b => (b.analyze [.core 0] (.new 1 "unit")).errors.isEmpty &&
        (some ("n", some "Integer*", some "Null*") ∈ b.declarations.map
          (aliased (b.analyze [.core 0] (.new 1 "unit"))) : Bool)) = some true := by
    decide +kernel
  obtain ⟨b, hparse, hnames⟩ := exists_of_toOption_map hnames
  rw [Bool.and_eq_true, decide_eq_true_eq] at hnames
  obtain ⟨herrors, hmem⟩ := hnames
  obtain ⟨d, hd, haliased⟩ := List.mem_map.1 hmem
  unfold aliased at haliased
  split at haliased
  · simp only [Option.some.injEq, Prod.mk.injEq] at haliased
    exact ⟨b, hparse, List.isEmpty_iff.1 herrors, _, _, _, hd, rfl, haliased.2⟩
  · simp at haliased

end Block

end Sable
