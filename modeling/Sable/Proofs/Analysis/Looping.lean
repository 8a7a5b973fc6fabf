import Sable.Proofs.Analysis.Lexical
import Sable.Proofs.Analysis.Sorting
import Sable.Proofs.Syntax.Parents

/-!
# Loops around jumps

A `break` and a `continue` belong to the nearest loop around them, which must stand in the same
function. The analysis sees this from the scopes that are open, and the table of parents shows it
in the tree: the two agree wherever a jump stands.

## Main definitions

* `hasLoop`: whether there is a loop up to the nearest function, on a way to the root.
* `Tree.strays`: the errors about jumps without a loop in a tree.

## Main statements

* `Block.flatMap_stray_checks`: the checks of a unit know the loops around them.
* `Block.loopControl_analyze`: what an analysis reports of jumps.
-/
namespace Sable

/-! ## Jumps without a loop -/

def NodeKind.isLoop : NodeKind → Bool
  | .whileLoop | .forLoop => true
  | _ => false

/-- A jump to the beginning or to the end of a loop. -/
def NodeKind.isLoopControl : NodeKind → Bool
  | .breakLoop | .continueLoop => true
  | _ => false

/-- Whether there is a loop among these nodes up to the first function. -/
def hasLoop (above : List Node) : Bool :=
  (above.takeWhile (·.kind != .function)).any (·.kind.isLoop)

/-- The error about a jump, if there is no loop around it. -/
def Place.stray (place : Place) (inLoop : Bool) : List SemanticError :=
  if inLoop then [] else [.breakContinueOutsideLoop place.span]

def SemanticError.isOutsideLoop : SemanticError → Bool
  | .breakContinueOutsideLoop _ => true
  | _ => false

def Node.stray (n : Node) (above : List Node) : List SemanticError :=
  if n.kind.isLoopControl then n.place.stray (hasLoop above) else []

def Check.stray : Check → List SemanticError
  | .loopControl place inLoop => place.stray inLoop
  | _ => []

variable {n : Node} {above : List Node}

theorem hasLoop_of_isLoop (h : n.kind.isLoop = true) : hasLoop (n :: above) = true := by
  cases hn : n.kind <;> simp_all [hasLoop, NodeKind.isLoop]

/-- A function hides the loops around it. -/
theorem hasLoop_of_function (h : n.kind = .function) : hasLoop (n :: above) = false := by
  simp [hasLoop, h]

theorem hasLoop_of_ne_function (h : n.kind ≠ .function) (hloop : n.kind.isLoop = false) :
    hasLoop (n :: above) = hasLoop above := by
  simp [hasLoop, h, hloop]

namespace Tree

/-- The errors about the jumps of a tree that have no loop around them. -/
def strays (above : List Node) (t : Tree) : List SemanticError :=
  (t.paths above).flatMap fun p => p.1.stray p.2

def allStrays (above : List Node) (ts : List Tree) : List SemanticError :=
  (allPaths above ts).flatMap fun p => p.1.stray p.2

variable {t : Tree} {ts : List Tree}

theorem strays_node (n : Node) (ts : List Tree) :
    (node n ts).strays above = n.stray above ++ allStrays (n :: above) ts := by
  rw [strays, paths, List.flatMap_cons, allStrays]

@[simp] theorem allStrays_nil : allStrays above [] = [] := rfl

@[simp] theorem allStrays_cons :
    allStrays above (t :: ts) = t.strays above ++ allStrays above ts := by
  rw [allStrays, allPaths, List.flatMap_append, strays, allStrays]

@[simp] theorem allStrays_append (us : List Tree) :
    allStrays above (ts ++ us) = allStrays above ts ++ allStrays above us := by
  simp [allStrays, allPaths_eq_flatMap]

/-- Where there are no jumps, none is without a loop. -/
theorem allStrays_eq_nil (h : ∀ t ∈ ts, ∀ n ∈ t.preorder, n.kind.isLoopControl = false) :
    allStrays above ts = [] := by
  refine List.flatMap_eq_nil_iff.2 fun p hp => ?_
  obtain ⟨t, ht, hp⟩ := mem_allPaths.1 hp
  have hmem : p.1 ∈ t.preorder := t.map_fst_paths above ▸ List.mem_map_of_mem hp
  simp [Node.stray, h t ht p.1 hmem]

theorem strays_eq_nil (h : ∀ n ∈ t.preorder, n.kind.isLoopControl = false) :
    t.strays above = [] := by
  have hall : allStrays above [t] = [] := allStrays_eq_nil (by simpa using h)
  simpa using hall

end Tree

open Sable.Tree

/-! ## Checks and places -/

theorem Expr.kind_of_mem_preorder (e : Expr) :
    ∀ n ∈ e.tree.preorder, n.kind.isExpression = true ∨ n.kind = .type := by
  induction e using Expr.inductionOn with
  | h e ih =>
    cases e with
    | value => simp [tree, forall_mem_preorder_node, Node.kind, Head.kind, NodeKind.isExpression]
    | cast _ operand target =>
      rw [tree, forall_mem_preorder_node, List.forall_mem_cons, List.forall_mem_singleton]
      refine ⟨.inl rfl, ih operand List.mem_cons_self, fun n hn => .inr ?_⟩
      rw [List.mem_singleton.1 hn]
      rfl
    | call _ callee arguments =>
      rw [tree, forall_mem_preorder_node, Expr.trees_eq_map, List.forall_mem_cons,
        List.forall_mem_map]
      exact ⟨.inl rfl, List.forall_mem_cons.1 ih⟩
    | unary | access =>
      rw [tree, forall_mem_preorder_node, List.forall_mem_singleton]
      exact ⟨.inl rfl, List.forall_mem_singleton.1 ih⟩
    | binary | index =>
      rw [tree, forall_mem_preorder_node, List.forall_mem_cons, List.forall_mem_singleton]
      rw [operands, List.forall_mem_cons, List.forall_mem_singleton] at ih
      exact ⟨.inl rfl, ih⟩

theorem NodeKind.isLoopControl_of_isExpression {k : NodeKind}
    (h : k.isExpression = true ∨ k = .type) : k.isLoopControl = false := by
  cases k <;> simp_all [isExpression, isLoopControl]

@[simp] theorem WrittenType.strays_tree (t : WrittenType) : t.tree.strays above = [] := rfl

@[simp] theorem Expr.strays_tree (e : Expr) : e.tree.strays above = [] :=
  strays_eq_nil fun n hn => NodeKind.isLoopControl_of_isExpression (e.kind_of_mem_preorder n hn)

@[simp] theorem Expr.allStrays_optionTrees (e : Option Expr) :
    allStrays above (optionTrees e) = [] := by
  cases e <;> simp [optionTrees]

@[simp] theorem VariableDecl.strays_tree (d : VariableDecl) : d.tree.strays above = [] := by
  simp [tree, strays_node, Node.stray, Node.kind, Head.kind, NodeKind.isLoopControl]

@[simp] theorem ForInit.allStrays_trees (init : ForInit) : allStrays above init.trees = [] := by
  cases init <;> simp [trees]

@[simp] theorem VariableDecl.flatMap_stray_checks (Γ : Locals) (d : VariableDecl) :
    (d.checks Γ).flatMap Check.stray = [] := by
  cases h : d.initializer <;> simp [checks, h, Check.stray]

@[simp] theorem ForInit.flatMap_stray_checks (Γ : Locals) (init : ForInit) :
    (init.checks Γ).flatMap Check.stray = [] := by
  cases init <;> simp [checks, Check.stray]

theorem flatMap_stray_option {f : Expr → Check} (hf : ∀ e, (f e).stray = []) (e : Option Expr) :
    (e.toList.map f).flatMap Check.stray = [] := by
  cases e <;> simp [hf]

mutual

/-- The checks of a statement know whether there is a loop around them. -/
theorem Stmt.flatMap_stray_checks (above : List Node) (S : Surroundings)
    (hS : S.inLoop = hasLoop above) :
    (s : Stmt) → (s.checks S).flatMap Check.stray = s.tree.strays above
  | .label .. | .goto .. => rfl
  | .breakLoop _ | .continueLoop _ => by
    simp [Stmt.checks, Stmt.tree, strays_node, Check.stray, hS, Node.stray, Node.kind, Head.kind,
      NodeKind.isLoopControl]
  | .returns .. => by
    simp [Stmt.checks, Stmt.tree, strays_node, Check.stray, Node.stray, Node.kind, Head.kind,
      NodeKind.isLoopControl]
  | .variable d => by simp [Stmt.checks, Stmt.tree]
  | .expr e => by simp [Stmt.checks, Stmt.tree, Check.stray]
  | .branch b => b.flatMap_stray_checks above S hS
  | .whileLoop place condition body => by
    have hbody := body.flatMap_stray_checks (⟨place, .whileLoop⟩ :: above)
      { S with inLoop := true } (hasLoop_of_isLoop rfl).symm
    simp [Stmt.checks, Stmt.tree, strays_node, Check.stray, hbody, Node.stray, Node.kind, Head.kind,
      NodeKind.isLoopControl]
  | .forLoop place init condition step body => by
    have hbody := body.flatMap_stray_checks
      (⟨place, .forLoop init.kind condition.isSome step.isSome⟩ :: above)
      { S with locals := init.after ([] :: S.locals), inLoop := true }
      (hasLoop_of_isLoop rfl).symm
    simp [Stmt.checks, Stmt.tree, strays_node, hbody, flatMap_stray_option (f := Check.condition _)
      fun _ => rfl, flatMap_stray_option (f := Check.expr _) fun _ => rfl, Node.stray, Node.kind,
      Head.kind, NodeKind.isLoopControl]

theorem Branch.flatMap_stray_checks (above : List Node) (S : Surroundings)
    (hS : S.inLoop = hasLoop above) :
    (b : Branch) → (b.checks S).flatMap Check.stray = b.tree.strays above
  | .mk place condition body otherwise => by
    have hloop : S.inLoop = hasLoop (⟨place, .branch otherwise.kind⟩ :: above) :=
      hS.trans (hasLoop_of_ne_function (by simp [Node.kind, Head.kind]) rfl).symm
    have hbody := body.flatMap_stray_checks _ S hloop
    have hotherwise := otherwise.flatMap_stray_checks _ S hloop
    simp [Branch.checks, Branch.tree, strays_node, Check.stray, hbody, hotherwise, Node.stray,
      Node.kind, Head.kind, NodeKind.isLoopControl]

theorem Otherwise.flatMap_stray_checks (above : List Node) (S : Surroundings)
    (hS : S.inLoop = hasLoop above) :
    (o : Otherwise) → (o.checks S).flatMap Check.stray = allStrays above o.trees
  | .nothing => rfl
  | .branch b => by simp [Otherwise.checks, Otherwise.trees, b.flatMap_stray_checks above S hS]
  | .scope s => by simp [Otherwise.checks, Otherwise.trees, s.flatMap_stray_checks above S hS]

theorem Scope.flatMap_stray_checks (above : List Node) (S : Surroundings)
    (hS : S.inLoop = hasLoop above) :
    (s : Scope) → (s.checks S).flatMap Check.stray = s.tree.strays above
  | .mk place statements => by
    have hloop : S.inLoop = hasLoop (⟨place, .scope⟩ :: above) :=
      hS.trans (hasLoop_of_ne_function (by simp [Node.kind, Head.kind]) rfl).symm
    have hstatements := Stmt.flatMap_stray_listChecks _ { S with locals := [] :: S.locals } hloop
      statements
    simp [Scope.checks, Scope.tree, strays_node, hstatements, Node.stray, Node.kind, Head.kind,
      NodeKind.isLoopControl]

theorem Stmt.flatMap_stray_listChecks (above : List Node) (S : Surroundings)
    (hS : S.inLoop = hasLoop above) :
    (ss : List Stmt) → (Stmt.listChecks S ss).flatMap Check.stray = allStrays above (Stmt.trees ss)
  | [] => rfl
  | s :: ss => by
    simp [Stmt.listChecks, Stmt.trees, s.flatMap_stray_checks above S hS,
      Stmt.flatMap_stray_listChecks above { S with locals := s.after S.locals } hS ss]

end

/-! ## Functions and classes -/

@[simp] theorem allStrays_parameters (above : List Node) (ps : List Parameter) :
    allStrays above (ps.map Parameter.tree) = [] := by
  induction ps with
  | nil => rfl
  | cons p ps ih =>
    simp [ih, Parameter.tree, strays_node, Node.stray, Node.kind, Head.kind, NodeKind.isLoopControl]

@[simp] theorem allStrays_returns (above : List Node) (t : Option WrittenType) :
    allStrays above (t.toList.map WrittenType.tree) = [] := by
  cases t <;> simp

theorem FunctionDecl.flatMap_stray_checks (above : List Node) (d : FunctionDecl) :
    d.checks.flatMap Check.stray = d.tree.strays above := by
  have hbody := d.body.flatMap_stray_checks (d.node :: above) d.surroundings
    (hasLoop_of_function rfl).symm
  rw [FunctionDecl.node] at hbody
  simp [checks, tree, strays_node, hbody, Node.stray, Node.kind, Head.kind, NodeKind.isLoopControl]

theorem Member.flatMap_stray_listChecks (above : List Node) (Γ : Locals) (ms : List Member) :
    (Member.listChecks Γ ms).flatMap Check.stray = allStrays above (ms.map Member.tree) := by
  induction ms generalizing Γ with
  | nil => rfl
  | cons m ms ih =>
    match m with
    | .variable d => simp [listChecks, tree, ih]
    | .function d => simp [listChecks, tree, ih, d.flatMap_stray_checks above]

theorem Declaration.flatMap_stray_checks (above : List Node) (d : Declaration) :
    d.checks.flatMap Check.stray = d.tree.strays above := by
  match d with
  | .classDecl d =>
    simp [checks, tree, ClassDecl.checks, ClassDecl.tree, strays_node, Node.stray, Node.kind,
      Head.kind, NodeKind.isLoopControl,
      Member.flatMap_stray_listChecks (⟨d.place, .classDecl d.name⟩ :: above)]
  | .function d => exact d.flatMap_stray_checks above
  | .variable d => simp [checks, tree]

namespace Block

/-- The checks of a unit know whether there are loops around them. -/
theorem flatMap_stray_checks (b : Block) : b.checks.flatMap Check.stray = b.tree.strays [] := by
  have hdeclarations : ∀ above (ds : List Declaration),
      allStrays above (ds.map Declaration.tree) = ds.flatMap fun d => d.tree.strays above := by
    intro above ds
    induction ds with
    | nil => rfl
    | cons d ds ih => simp [ih]
  simp [checks, tree, strays_node, hdeclarations, List.flatMap_assoc,
    Declaration.flatMap_stray_checks [⟨b.place, .block⟩], Node.stray, Node.kind, Head.kind,
    NodeKind.isLoopControl]

/-- In a tree, the table of parents shows where loops are. -/
theorem Numbered.strays_tree {b : Block} (hb : b.Numbered) : b.tree.strays [] =
    (b.tree.preorder.filter fun n => n.kind.isLoopControl &&
      !hasLoop ((ParentMap.build b.tree).ancestors n.id)).map
        fun n => .breakContinueOutsideLoop n.span := by
  have hpath : ∀ p ∈ b.tree.paths [], p.1.stray p.2 =
      p.1.stray ((ParentMap.build b.tree).ancestors p.1.id) := fun p hp => by
    rw [ParentMap.ancestors_build hb.nodup_ids hp]
  rw [strays, List.flatMap_congr hpath, ← b.tree.map_fst_paths [], ← List.flatMap_map Prod.fst
    fun n : Node => n.stray ((ParentMap.build b.tree).ancestors n.id)]
  induction (b.tree.paths []).map Prod.fst with
  | nil => rfl
  | cons n ns ih =>
    rw [List.flatMap_cons, ih, List.filter_cons, Node.stray, Place.stray]
    cases n.kind.isLoopControl <;>
      cases hasLoop ((ParentMap.build b.tree).ancestors n.id) <;> rfl

variable {b : Block} {deps : List Library} {target : Library}

/-! ## The analysis -/

theorem Numbered.parents_withSymbols (hb : b.Numbered) (h : IsFresh deps target) :
    (b.withSymbols deps target).parents = .build b.tree := by
  obtain ⟨_, _, _, _, _, hclasses⟩ := (hb.withClasses_spec h).1
  obtain ⟨_, _, _, _, _, htypes⟩ := (hb.finds_withTypes h).eq
  obtain ⟨_, _, _, _, _, hsymbols⟩ := (hb.binds_withSymbols h).binds.declares
  rw [hsymbols, htypes, hclasses]
  rfl

theorem errors_checkLoopControl (place : Place) (c : Context) :
    ((Analyzing.checkLoopControl place).run c).2.errors =
      c.errors ++ place.stray c.scopes.inLoop := by
  change ((if c.scopes.inLoop then pure () else
    Analyzing.report (.breakContinueOutsideLoop place.span) : Analyzing Unit).run
      { c with visits := ⟨.typing, place.id, c.scopes.entries⟩ :: c.visits }).2.errors = _
  rw [Place.stray]
  split
  · exact (List.append_nil _).symm
  · rfl

/-- The jumps of the checks that are done are reported if there is no loop around them. -/
def HasStrayed (ks : List Check) (c : Context) : Prop :=
  c.errors.filter (·.isOutsideLoop) = ks.flatMap Check.stray

theorem hasStrayed_concat {row : NodeId → Option SymbolId} {k : Check}
    {p : ScopeStack SymbolId → Prop} {m : Analyzing Unit} (hm : b.Step row k p m) {ks : List Check}
    {c : Context} (hc : HasStrayed ks c) (hp : p c.scopes) :
    HasStrayed (ks ++ [k]) (m.run c).2 := by
  have hother (hk : k.stray = []) (hown : ∀ e, k.isOwn e = true → e.isOutsideLoop = false) :
      HasStrayed (ks ++ [k]) (m.run c).2 := by
    have hsame := hm.filter_errors (q := (·.isOutsideLoop)) (fun e he => by cases e <;> simp_all
      [SemanticError.isOfExpression, SemanticError.isOutsideLoop]) (fun e he _ => hown e he) c
    rw [HasStrayed, hsame, List.flatMap_append, List.flatMap_singleton, hk, List.append_nil]
    exact hc
  cases hm with
  | loopControl place inLoop =>
    have hstray : (place.stray inLoop).filter (·.isOutsideLoop) = place.stray inLoop := by
      cases inLoop <;> rfl
    rw [HasStrayed, errors_checkLoopControl, hp, List.filter_append, hc, hstray,
      List.flatMap_append, List.flatMap_singleton, Check.stray]
  | _ => exact hother rfl fun e => by cases e <;> simp [Check.isOwn, SemanticError.isOutsideLoop]

theorem Spelled.parents_analyze (hs : b.Spelled) (hb : b.Numbered) (h : IsFresh deps target) :
    (b.analyze deps target).parents = .build b.tree := by
  obtain ⟨_, _, _, _, _, _, _, _, heq⟩ := (hs.looked hb h).eq
  rw [heq]
  exact hb.parents_withSymbols h

/-- A `break` and a `continue` in a parsed unit are reported, once and in the order of the text, if
there is no loop around them up to the nearest function. Nothing else is reported so. -/
theorem loopControl_analyze {lexer : Lexer} {source : String}
    (hparse : Block.parse (lexer.tokenize source) source = .ok b) (h : IsFresh deps target) :
    let c := b.analyze deps target
    c.errors.filter (·.isOutsideLoop) = (b.tree.preorder.filter fun n =>
      n.kind.isLoopControl && !hasLoop (c.parents.ancestors n.id)).map fun n =>
        .breakContinueOutsideLoop n.span := by
  intro c
  have hb := numbered_of_parse hparse
  have hs := spelled_of_parse hparse
  have hnil : HasStrayed [] (b.withSymbols deps target) :=
    filter_errors_withSymbols (fun e he => by
      cases e <;> simp_all [SemanticError.isOfName, SemanticError.isOutsideLoop]) b deps target
  have hall : HasStrayed b.checks c := hs.analyze_of_steps hb h hnil (fun _ _ hc => hc)
    fun _ _ _ hm _ _ _ _ hc hp => hasStrayed_concat hm hc hp
  rw [hall, b.flatMap_stray_checks, hb.strays_tree, hs.parents_analyze hb h]

/-- Of three jumps only the second one has a loop around it. -/
theorem loopControl_analyze_outside :
    let source := "fn f() { break; while (true) { break; } if (true) { for (;;) { } continue; } }"
    ∃ b, Block.parse ((Lexer.ofVocabulary .standard).tokenize source) source = .ok b ∧
      (b.tree.strays []).map (·.span.start) = [9, 65] ∧
      let c := b.analyze [.core 0] (.new 1 "unit")
      c.errors.filter (·.isOutsideLoop) = (b.tree.preorder.filter fun n =>
        n.kind.isLoopControl && !hasLoop (c.parents.ancestors n.id)).map fun n =>
          .breakContinueOutsideLoop n.span := by
  intro source
  have hstrays : (Block.parse ((Lexer.ofVocabulary .standard).tokenize source) source).toOption.map
      (fun b => (b.tree.strays []).map (·.span.start)) = some [9, 65] := by
    decide +kernel
  obtain ⟨b, hparse, hstrays⟩ := exists_of_toOption_map hstrays
  exact ⟨b, hparse, hstrays, loopControl_analyze hparse (isFresh_core (by decide) "unit")⟩

end Block

end Sable
