import Sable.Proofs.Analysis.Linking
import Sable.Proofs.Analysis.Phases
import Sable.Proofs.Analysis.Reporting
import Sable.Proofs.Typing.Parsed
import Sable.Proofs.Typing.Spans

/-!
# What errors point at

An error of the last phase is about a node of the unit or about a name that stands in a node, and
it is no error about a taken name. So a property of errors that covers the places of nodes and names
holds of all errors of this phase. The errors of the other phases are about names, if all classes
can be made.

## Main definitions

* `SemanticError.Covers`: a property holds of the errors at a place that are about no taken names.
* `Block.CanDeclare`: no class is the pointer type of a type without a name.

## Main statements

* `Analyzing.reports_typeExpr`: what an expression reports.
* `Analyzing.reports_checkBlock`: what the last phase reports.
* `Block.Numbered.forall_mem_errors`: what an analysis reports.
-/
namespace Sable

/-- The property holds of all errors at the place that are about no taken names. -/
def SemanticError.Covers (S : SemanticError → Prop) (span : Span) : Prop :=
  ∀ e : SemanticError, e.span = span → e.isSameName = false → S e

namespace Analyzing

open SemanticError (Covers)

variable {S : SemanticError → Prop} {span : Span}

/-! ## Rules of expressions -/

theorem reports_failing {α : Type} {e : SemanticError} (h : Covers S e.span)
    (he : e.isSameName = false) (x : α) :
    (do report e; return x : Analyzing α).Reports S :=
  (reports_report (h e rfl he)).bind fun _ => reports_pure x

theorem reports_resultType (result : OperatorResult) (h : Covers S span) :
    (resultType result span).Reports S := by
  unfold resultType
  split
  · exact reports_pure _
  · exact reports_builtin (h _ rfl rfl)
  · exact (reports_onLibrary _).map _

theorem reports_pointerToBuiltin (name : String) (h : Covers S span) :
    (pointerToBuiltin name span).Reports S := by
  refine (reports_builtin (h _ rfl rfl)).bind fun type => ?_
  split
  · exact (reports_onLibrary _).map _
  · exact reports_pure _

theorem reports_typeIdentifier (node : NodeId) {name : Ident} (h : Covers S name.span) :
    (typeIdentifier node name).Reports S := by
  refine reports_get.bind fun c => ?_
  split
  · split
    · exact (reports_annotate _).bind fun _ => reports_pure _
    · exact reports_failing h rfl _
  · exact reports_failing h rfl _

theorem reports_typeValue {place : Place} {v : Value}
    (h : Node.LiesIn (Covers S) ⟨place, .value v⟩) : (typeValue place v).Reports S := by
  cases v with
  | integer | float | boolean | character => exact reports_builtin (h.span _ rfl rfl)
  | string | null => exact reports_pointerToBuiltin _ h.span
  | identifier name =>
    exact reports_typeIdentifier place.id (h.names name (List.mem_singleton_self name))

theorem reports_typeUnary (op : UnaryOp) (operand : SymbolId) (h : Covers S span) :
    (typeUnary span op operand).Reports S := by
  refine reports_get.bind fun c => ?_
  split
  · exact reports_resultType _ h
  · exact reports_failing h rfl _

theorem reports_typeBinary (op : BinaryOp) (left right : SymbolId) (h : Covers S span) :
    (typeBinary span op left right).Reports S := by
  rw [typeBinary_eq]
  refine reports_get.bind fun c => Reports.bind ?_ fun type => ?_
  · unfold operatorResult
    split
    · exact reports_resultType _ h
    · exact reports_pure _
  · unfold binaryResult
    split
    · exact reports_pure _
    · exact reports_failing h rfl _

theorem reports_typeAccess {place : Place} {kind : AccessKind} (object : SymbolId) {member : Ident}
    (h : Node.LiesIn (Covers S) ⟨place, .access kind member⟩) :
    (typeAccess place kind object member).Reports S := by
  rw [typeAccess_eq]
  refine reports_get.bind fun c => ?_
  unfold noteAccess
  split
  · exact reports_failing h.span rfl _
  · split
    · exact reports_failing (h.names member (List.mem_singleton_self member)) rfl _
    · exact (reports_annotate _).bind fun _ => reports_pure _

theorem reports_typeCall {calleeSpan : Span} (callee : SymbolId)
    (arguments : List (Option SymbolId)) (h : Covers S span) (hcallee : Covers S calleeSpan) :
    (typeCall span calleeSpan callee arguments).Reports S := by
  rw [typeCall_eq]
  refine reports_get.bind fun c => ?_
  split
  · refine Reports.bind ?_ fun _ => reports_pure _
    unfold compareArguments
    split
    · split
      · exact reports_report (h _ rfl rfl)
      · exact reports_pure ()
    · exact reports_pure ()
  · exact reports_failing hcallee rfl _

theorem reports_typeCast (source target : SymbolId) (h : Covers S span) :
    (typeCast span source target).Reports S := by
  refine reports_get.bind fun c => ?_
  split
  · exact reports_pure _
  · exact reports_failing h rfl _

theorem reports_typeIndex (target subscript : SymbolId) (h : Covers S span) :
    (typeIndex span target subscript).Reports S := by
  refine reports_get.bind fun c => ?_
  split
  · exact reports_pure _
  · exact reports_failing h rfl _

/-! ## Expressions -/

theorem reports_noting (node : NodeId) {rule : Analyzing (Option SymbolId)} (h : rule.Reports S) :
    (noting node rule).Reports S := by
  refine (reports_visit _ _).bind fun _ => h.bind fun type => ?_
  split
  · exact (reports_annotate _).bind fun _ => reports_pure _
  · exact reports_pure _

theorem reports_withType (operand : Option SymbolId)
    {rule : SymbolId → Analyzing (Option SymbolId)} (h : ∀ type, (rule type).Reports S) :
    (withType operand rule).Reports S := by
  cases operand with
  | none => exact reports_pure _
  | some type => exact h type

mutual

theorem reports_typeExpr : (e : Expr) → e.tree.LiesIn (Covers S) → (typeExpr e).Reports S
  | .value place v, h => by
    rw [Expr.tree, Tree.liesIn_node] at h
    exact reports_noting _ (reports_typeValue h.1)
  | .unary place op operand, h => by
    rw [Expr.tree, Tree.liesIn_node] at h
    exact reports_noting _ <| (reports_typeExpr operand (h.2 _ (by simp))).bind fun _ =>
      reports_withType _ fun type => reports_typeUnary op type h.1.span
  | .binary place op left right, h => by
    rw [Expr.tree, Tree.liesIn_node] at h
    exact reports_noting _ <| (reports_typeExpr left (h.2 _ (by simp))).bind fun _ =>
      (reports_typeExpr right (h.2 _ (by simp))).bind fun _ => reports_withType _ fun _ =>
        reports_withType _ fun _ => reports_typeBinary op _ _ h.1.span
  | .access place kind object member, h => by
    rw [Expr.tree, Tree.liesIn_node] at h
    exact reports_noting _ <| (reports_typeExpr object (h.2 _ (by simp))).bind fun _ =>
      reports_withType _ fun type => reports_typeAccess type h.1
  | .call place callee arguments, h => by
    rw [Expr.tree, Tree.liesIn_node, List.forall_mem_cons] at h
    exact reports_noting _ <| (reports_typeExpr callee h.2.1).bind fun _ =>
      (reports_typeExprs arguments h.2.2).bind fun _ => reports_withType _ fun _ =>
        reports_typeCall _ _ h.1.span (Expr.span_of_liesIn h.2.1)
  | .cast place operand target, h => by
    rw [Expr.tree, Tree.liesIn_node] at h
    exact reports_noting _ <| (reports_typeExpr operand (h.2 _ (by simp))).bind fun _ =>
      reports_get.bind fun _ => reports_withType _ fun _ => reports_withType _ fun _ =>
        reports_typeCast _ _ h.1.span
  | .index place target subscript, h => by
    rw [Expr.tree, Tree.liesIn_node] at h
    exact reports_noting _ <| (reports_typeExpr target (h.2 _ (by simp))).bind fun _ =>
      (reports_typeExpr subscript (h.2 _ (by simp))).bind fun _ => reports_withType _ fun _ =>
        reports_withType _ fun _ => reports_typeIndex _ _ h.1.span

theorem reports_typeExprs : (es : List Expr) → (∀ t ∈ Expr.trees es, t.LiesIn (Covers S)) →
    (typeExprs es).Reports S
  | [], _ => reports_pure []
  | e :: es, h => by
    rw [Expr.trees, List.forall_mem_cons] at h
    exact (reports_typeExpr e h.1).bind fun _ =>
      (reports_typeExprs es h.2).bind fun _ => reports_pure _

end

/-! ## Statements -/

theorem reports_mismatch (expected : SymbolId) (found : Option SymbolId) (h : Covers S span) :
    (mismatch expected found span).Reports S :=
  reports_get.bind fun _ => reports_report (h _ rfl rfl)

theorem reports_compareInitializer (expected : Option SymbolId) {e : Expr}
    (found : Option SymbolId) (h : Covers S e.span) :
    (compareInitializer expected e found).Reports S := by
  refine reports_get.bind fun c => ?_
  split
  · split
    · exact reports_mismatch _ _ h
    · exact reports_pure ()
  · exact reports_pure ()

theorem reports_compareCondition {e : Expr} (found : Option SymbolId) (h : Covers S e.span) :
    (compareCondition e found).Reports S := by
  cases found with
  | none => exact reports_pure ()
  | some type =>
    refine reports_get.bind fun c => ?_
    split
    · exact reports_pure ()
    · exact reports_report (h _ rfl rfl)

theorem reports_compareReturn {place : Place} {value : Option Expr} (found : Option SymbolId)
    (h : Covers S place.span) (hvalue : ∀ e ∈ value, Covers S e.span) :
    (compareReturn place value found).Reports S := by
  refine reports_get.bind fun c => ?_
  split
  · split
    · exact reports_pure ()
    · exact reports_mismatch _ _ h
  · split
    · exact reports_mismatch _ _ (hvalue _ rfl)
    · exact reports_pure ()
  · exact reports_pure ()

theorem reports_checkGoto {place : Place} {label : Ident} (h : Covers S label.span) :
    (checkGoto place label).Reports S := by
  refine (reports_visit _ _).bind fun _ => reports_get.bind fun c => ?_
  dsimp only
  split
  · exact reports_annotate _
  · exact reports_report (h _ rfl rfl)

theorem reports_checkLoopControl {place : Place} (h : Covers S place.span) :
    (checkLoopControl place).Reports S := by
  refine (reports_visit _ _).bind fun _ => reports_get.bind fun c => ?_
  split
  · exact reports_pure ()
  · exact reports_report (h _ rfl rfl)

theorem reports_declareLocal (node : NodeId) (name : Ident) :
    (declareLocal node name).Reports S := by
  refine reports_get.bind fun c => ?_
  split
  · exact reports_modify fun _ => rfl
  · exact reports_pure ()

theorem reports_checkVariable {d : VariableDecl} (h : d.tree.LiesIn (Covers S)) :
    (checkVariable d).Reports S := by
  rw [VariableDecl.tree, Tree.liesIn_node, List.forall_mem_cons] at h
  refine (reports_visit _ _).bind fun _ => reports_get.bind fun _ =>
    (reports_forM _ fun e he => ?_).bind fun _ => reports_declareLocal _ _
  have he := Expr.liesIn_of_option h.2.2 e (Option.mem_toList.1 he)
  rw [checkInitializer_eq]
  exact (reports_typeExpr e he).bind fun found =>
    reports_compareInitializer _ found (Expr.span_of_liesIn he)

theorem reports_checkCondition {e : Expr} (h : e.tree.LiesIn (Covers S)) :
    (checkCondition e).Reports S := by
  rw [checkCondition_eq]
  exact (reports_typeExpr e h).bind fun found =>
    reports_compareCondition found (Expr.span_of_liesIn h)

theorem reports_checkReturn {place : Place} {value : Option Expr} (h : Covers S place.span)
    (hvalue : ∀ e ∈ value, e.tree.LiesIn (Covers S)) : (checkReturn place value).Reports S := by
  rw [checkReturn_eq]
  have hoption : (typeOption value).Reports S := by
    cases value with
    | none => exact reports_pure _
    | some e => exact reports_typeExpr e (hvalue e rfl)
  exact (reports_visit _ _).bind fun _ => hoption.bind fun found =>
    reports_compareReturn found h fun e he => Expr.span_of_liesIn (hvalue e he)

theorem reports_checkInit {init : ForInit} (h : ∀ t ∈ init.trees, t.LiesIn (Covers S)) :
    (checkInit init).Reports S := by
  match init with
  | .nothing => exact reports_pure ()
  | .variable d => exact reports_checkVariable (h _ (List.mem_singleton_self _))
  | .expr e =>
    exact (reports_typeExpr e (h _ (List.mem_singleton_self _))).bind fun _ => reports_pure ()

mutual

theorem reports_checkStmt : (s : Stmt) → s.tree.LiesIn (Covers S) → (checkStmt s).Reports S
  | .label place _, _ => reports_visit _ place.id
  | .goto place label, h => by
    rw [Stmt.tree, Tree.liesIn_node] at h
    exact reports_checkGoto (h.1.names label (List.mem_singleton_self label))
  | .returns place value, h => by
    rw [Stmt.tree, Tree.liesIn_node] at h
    exact reports_checkReturn h.1.span (Expr.liesIn_of_option h.2)
  | .breakLoop place, h | .continueLoop place, h => by
    rw [Stmt.tree, Tree.liesIn_node] at h
    exact reports_checkLoopControl h.1.span
  | .variable d, h => reports_checkVariable h
  | .expr e, h => (reports_typeExpr e h).bind fun _ => reports_pure ()
  | .branch b, h => reports_checkBranch b h
  | .whileLoop _ condition body, h => by
    rw [Stmt.tree, Tree.liesIn_node, List.forall_mem_cons, List.forall_mem_singleton] at h
    exact (reports_visit _ _).bind fun _ => (reports_checkCondition h.2.1).bind fun _ =>
      (reports_checkScope body h.2.2).inScope _ _ _
  | .forLoop _ init condition step body, h => by
    rw [Stmt.tree, Tree.liesIn_node, List.forall_mem_append, List.forall_mem_append,
      List.forall_mem_append, List.forall_mem_singleton] at h
    obtain ⟨-, ⟨⟨hinit, hcondition⟩, hstep⟩, hbody⟩ := h
    exact (reports_visit _ _).bind fun _ => Reports.inScope ((reports_checkInit hinit).bind fun _ =>
      (reports_forM _ fun e he => reports_checkCondition
        (Expr.liesIn_of_option hcondition e (Option.mem_toList.1 he))).bind fun _ =>
      (reports_forM _ fun e he => (reports_typeExpr e
        (Expr.liesIn_of_option hstep e (Option.mem_toList.1 he))).bind fun _ =>
          reports_pure ()).bind fun _ => reports_checkScope body hbody) _ _ _

theorem reports_checkBranch : (b : Branch) → b.tree.LiesIn (Covers S) → (checkBranch b).Reports S
  | .mk _ condition body otherwise, h => by
    rw [Branch.tree, Tree.liesIn_node, List.forall_mem_cons, List.forall_mem_cons] at h
    exact (reports_visit _ _).bind fun _ => (reports_checkCondition h.2.1).bind fun _ =>
      (reports_checkScope body h.2.2.1).bind fun _ => reports_checkOtherwise otherwise h.2.2.2

theorem reports_checkOtherwise : (o : Otherwise) → (∀ t ∈ o.trees, t.LiesIn (Covers S)) →
    (checkOtherwise o).Reports S
  | .nothing, _ => reports_pure ()
  | .branch b, h => by
    rw [Otherwise.trees, List.forall_mem_singleton] at h
    exact reports_checkBranch b h
  | .scope s, h => by
    rw [Otherwise.trees, List.forall_mem_singleton] at h
    exact reports_checkScope s h

theorem reports_checkScope : (s : Scope) → s.tree.LiesIn (Covers S) → (checkScope s).Reports S
  | .mk _ statements, h => by
    rw [Scope.tree, Tree.liesIn_node] at h
    exact (reports_visit _ _).bind fun _ => (reports_checkStmts statements h.2).inScope _ _ _

theorem reports_checkStmts : (ss : List Stmt) → (∀ t ∈ Stmt.trees ss, t.LiesIn (Covers S)) →
    (checkStmts ss).Reports S
  | [], _ => reports_pure ()
  | s :: ss, h => by
    rw [Stmt.trees, List.forall_mem_cons] at h
    exact (reports_checkStmt s h.1).bind fun _ => reports_checkStmts ss h.2

end

/-! ## Declarations -/

theorem reports_checkFunction {d : FunctionDecl} (h : d.tree.LiesIn (Covers S)) :
    (checkFunction d).Reports S := by
  rw [FunctionDecl.tree, Tree.liesIn_node] at h
  exact (reports_visit _ _).bind fun _ => reports_get.bind fun _ =>
    Reports.inScope ((reports_forM _ fun _ _ => (reports_visit _ _).bind fun _ =>
        reports_declareLocal _ _).bind fun _ =>
      (reports_forM _ fun _ _ => reports_visit _ _).bind fun _ =>
        reports_checkScope d.body (h.2 _ (by simp))) _ _ _

theorem reports_checkMember {m : Member} (h : m.tree.LiesIn (Covers S)) :
    (checkMember m).Reports S := by
  match m with
  | .variable d => exact reports_checkVariable h
  | .function d => exact reports_checkFunction h

theorem reports_checkDeclaration {d : Declaration} (h : d.tree.LiesIn (Covers S)) :
    (checkDeclaration d).Reports S := by
  match d with
  | .classDecl d =>
    rw [Declaration.tree, ClassDecl.tree, Tree.liesIn_node] at h
    exact (reports_visit _ _).bind fun _ => reports_get.bind fun _ =>
      (reports_forM _ fun m hm => reports_checkMember
        (h.2 _ (List.mem_map_of_mem hm))).inScope _ _ _
  | .function d => exact reports_checkFunction h
  | .variable d => exact reports_checkVariable h

/-- What holds of the errors at the places of nodes and of names holds of all errors of the last
phase. -/
theorem reports_checkBlock {b : Block} (h : b.tree.LiesIn (Covers S)) :
    (checkBlock b).Reports S := by
  rw [Block.tree, Tree.liesIn_node] at h
  exact (reports_visit _ _).bind fun _ => reports_forM _ fun d hd => reports_checkDeclaration
    (h.2 _ (List.mem_map_of_mem hd))

end Analyzing

/-! ## Errors of an analysis -/

namespace Block

variable {b : Block} {deps : List Library} {target : Library} {P : Span → Prop}

/-- What holds of the places of all nodes and names holds of the places of all errors, if every
class can be made. -/
theorem Numbered.forall_mem_errors (hb : b.Numbered) (h : IsFresh deps target)
    (hclasses : ∀ d ∈ b.classes, Analyzing.CanMake (b.atStart deps target).library d)
    (hP : b.tree.LiesIn P) : ∀ e ∈ (b.analyze deps target).errors, P e.span := by
  have hcover : ∀ {span}, P span → SemanticError.Covers (fun e => P e.span) span := by
    rintro _ h e rfl -
    exact h
  have hcovers : b.tree.LiesIn (SemanticError.Covers fun e => P e.span) := fun n hn =>
    ⟨hcover (hP n hn).span, fun name hname => hcover ((hP n hn).names name hname)⟩
  have hname : ∀ {n : Node}, n ∈ b.tree.preorder → ∀ name ∈ n.head.names, P name.span :=
    fun hn => (hP _ hn).names
  have htypes : (Analyzing.resolveTypes b.tree).Reports fun e => P e.span := by
    refine reports_resolveTypes (fun t ht _ => ?_) fun d hd _ => ?_
    · obtain ⟨n, hn, hhead⟩ := mem_writtenTypes.1 ht
      exact hname hn t.name (by simp [hhead, Head.names])
    · exact hname (node_mem_preorder hd) d.name (by simp [FunctionDecl.node, Head.names])
  obtain ⟨checked, hchecked, hP₄⟩ :=
    Analyzing.reports_checkBlock hcovers (b.withSymbols deps target)
  obtain ⟨bound, hbound, hP₃⟩ := (hb.binds_withSymbols h).errors
  obtain ⟨resolved, hresolved, hP₂⟩ := htypes (b.withClasses deps target)
  obtain ⟨declared, hdeclared, hP₁⟩ := Analyzing.errors_declareClasses
    (c := b.atStart deps target) (Context.isApart_start h) b.classes hb.nodup_classes
    (fun _ _ => rfl) hclasses
  have hstart : (b.atStart deps target).errors = [] := rfl
  change (b.withTypes deps target).errors = _ at hresolved
  change (b.withClasses deps target).errors = _ at hdeclared
  rw [analyze_eq, hchecked, hbound, hresolved, hdeclared, hstart, List.nil_append,
    List.forall_mem_append, List.forall_mem_append, List.forall_mem_append]
  refine ⟨⟨⟨fun e he => ?_, hP₂⟩, fun e he => ?_⟩, hP₄⟩
  · obtain ⟨d, hd, heq⟩ := hP₁ e he
    exact heq ▸ hname (classNode_mem_preorder hd) d.name (List.mem_singleton_self d.name)
  · obtain ⟨n, hn, name, hmem, heq⟩ := hP₃ e he
    rw [← b.declarations_tree] at hn
    exact heq ▸ hname (List.mem_of_mem_filter hn) name hmem

/-- No class is called `*`, or no library within reach publishes a symbol without a name. -/
def CanDeclare (b : Block) (deps : List Library) : Prop :=
  (∀ d ∈ b.classes, d.name.name ≠ "*") ∨ ∀ dep ∈ Library.reachAll deps, dep.global? "" = none

/-- Then all classes can be made in a new library. -/
theorem CanDeclare.canMake {lexer : Lexer} {source : String} (h : b.CanDeclare deps)
    (hparse : Block.parse (lexer.tokenize source) source = .ok b) (id : LibraryId) (name : String) :
    ∀ d ∈ b.classes, Analyzing.CanMake (b.atStart deps (.new id name)).library d := by
  intro d hd
  have hmem : d.name ∈ b.tree.names :=
    List.mem_flatMap.2 ⟨_, classNode_mem_preorder hd, List.mem_singleton_self d.name⟩
  have htoken := token_mem_of_parse hparse hmem
  refine ⟨Lexer.ne_empty_of_mem_tokenize htoken, ?_⟩
  by_cases hstar : d.name.name = "*"
  · obtain ⟨dependencies, hsubset, heq⟩ := (Library.new id name).foldl_link_eq deps
    have hlibrary : (b.atStart deps (.new id name)).library =
        { Library.new id name with dependencies } := heq
    refine .inr ⟨hstar, ?_⟩
    rw [hlibrary, Library.lookupGlobal?_eq]
    refine List.findSome?_eq_none_iff.2 fun dep hdep => ?_
    exact (h.resolve_left fun h => h d hd hstar) dep (Library.reachAll_subset hsubset hdep)
  · exact .inl (Lexer.isPlainName_of_mem_tokenize htoken hstar)

end Block

end Sable
