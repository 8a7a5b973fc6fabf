import Sable.Proofs.Analysis.Sparing
import Sable.Proofs.Analysis.Walking

/-!
# Which step reports what

In front of the last phase nothing is reported but names, which are taken or unknown. In the last
phase a check reports what is wrong in its expressions, and at its place errors of its own sort.

## Main definitions

* `SemanticError.isOfName`: an error about a name.
* `Check.isOwn`: an error of the sort that a check reports besides its expressions.
* `Check.span`: where it reports them.

## Main statements

* `Block.isOfName_of_mem_errors`: what is reported in front of the last phase.
* `Block.Step.reports`: what a check reports.
-/
namespace Sable

/-! ## The first three phases -/

/-- A name is taken or unknown. -/
def SemanticError.isOfName : SemanticError → Bool
  | .sameName .. | .symbolNotFound .. => true
  | _ => false

namespace Library

variable {lib : Library} {x y : SymbolId} {e : SemanticError}

theorem isOfName_createType {name : String} {isGlobal : Bool} {span : Span}
    (h : (lib.createType name isGlobal span).1 = .error e) : e.isOfName = true := by
  unfold createType at h
  grind [SemanticError.isOfName]

theorem isOfName_addMember (h : (lib.addMember x y).1 = .error e) : e.isOfName = true := by
  unfold addMember unknown at h
  grind [SemanticError.isOfName]

theorem isOfName_addLocal (h : (lib.addLocal x y).1 = .error e) : e.isOfName = true := by
  unfold addLocal unknown at h
  grind [SemanticError.isOfName]

theorem isOfName_addLabel (h : (lib.addLabel x y).1 = .error e) : e.isOfName = true := by
  unfold addLabel unknown at h
  grind [SemanticError.isOfName, isOfName_addLocal]

end Library

namespace Analyzing

/-- The step reports nothing but names. -/
abbrev ReportsNames {α : Type} (m : Analyzing α) : Prop := m.Reports (·.isOfName = true)

theorem reportsNames_declareGlobal (name : String) (x : SymbolId) (span : Span) :
    (declareGlobal name x span).ReportsNames :=
  reports_declareGlobal name x span (fun _ _ => rfl) fun _ => rfl

theorem reportsNames_declareClass (d : ClassDecl) : (declareClass d).ReportsNames := by
  refine (reports_reporting fun _ _ => Library.isOfName_createType).bind fun created => ?_
  cases created with
  | none => exact reports_pure ()
  | some x => exact (reports_onLibrary _).bind fun _ => (reports_annotate _).bind fun _ =>
      reportsNames_declareGlobal _ _ _

theorem reportsNames_register (name : String) (x : SymbolId) (span : Span) :
    (register name x span).ReportsNames := by
  refine reports_get.bind fun c => ?_
  split
  · exact reportsNames_declareGlobal name x span
  · split
    · exact (reports_reporting fun _ _ => Library.isOfName_addLocal).bind fun _ => reports_pure ()
    · exact (reports_reporting fun _ _ => Library.isOfName_addMember).bind fun _ => reports_pure ()
    · exact reports_pure ()

theorem reportsNames_giveType (x : SymbolId) (type : Option SymbolId) :
    (giveType x type).ReportsNames := by
  cases type with
  | none => exact reports_pure ()
  | some _ => exact reports_onLibrary _

theorem reportsNames_declareAt (node : NodeId) (x : SymbolId) : (declareAt node x).ReportsNames :=
  (reports_onLibrary _).bind fun _ => reports_annotate _

theorem reportsNames_bindVariable (d : VariableDecl) : (bindVariable d).ReportsNames :=
  (reports_visit _ _).bind fun _ => (reports_onLibrary _).bind fun _ => reports_get.bind fun _ =>
    (reportsNames_giveType _ _).bind fun _ => (reportsNames_declareAt _ _).bind fun _ =>
      reportsNames_register _ _ _

theorem reportsNames_bindParameter (f : SymbolId) (p : Parameter) :
    (bindParameter f p).ReportsNames :=
  (reports_visit _ _).bind fun _ => (reports_onLibrary _).bind fun _ => reports_get.bind fun _ =>
    (reportsNames_giveType _ _).bind fun _ => (reportsNames_declareAt _ _).bind fun _ =>
      (reports_reporting fun _ _ => Library.isOfName_addLocal).bind fun _ => reports_pure ()

theorem reportsNames_bindLabel (place : Place) (name : Ident) :
    (bindLabel place name).ReportsNames := by
  refine (reports_visit _ _).bind fun _ => (reports_onLibrary _).bind fun _ =>
    (reportsNames_declareAt _ _).bind fun _ => reports_get.bind fun c => ?_
  split
  · exact (reports_reporting fun _ _ => Library.isOfName_addLabel).bind fun _ => reports_pure ()
  · exact reportsNames_register _ _ _

theorem reportsNames_passExpr (e : Expr) : (passExpr e).ReportsNames :=
  reports_forM _ fun _ _ => reports_visit _ _

theorem reportsNames_passOption (e : Option Expr) : (passOption e).ReportsNames :=
  reports_forM _ fun e _ => reportsNames_passExpr e

theorem reportsNames_bindInit (init : ForInit) : (bindInit init).ReportsNames := by
  match init with
  | .nothing => exact reports_pure ()
  | .variable d => exact reportsNames_bindVariable d
  | .expr e => exact reportsNames_passExpr e

mutual

theorem reportsNames_bindStmt : (s : Stmt) → (bindStmt s).ReportsNames
  | .label place name => reportsNames_bindLabel place name
  | .goto .. | .breakLoop _ | .continueLoop _ => reports_visit _ _
  | .returns _ value => (reports_visit _ _).bind fun _ => reportsNames_passOption value
  | .variable d => reportsNames_bindVariable d
  | .expr e => reportsNames_passExpr e
  | .branch b => reportsNames_bindBranch b
  | .whileLoop _ condition body => (reports_visit _ _).bind fun _ =>
    (reportsNames_passExpr condition).bind fun _ => reportsNames_bindScope body
  | .forLoop _ init condition step body => (reports_visit _ _).bind fun _ =>
    (reportsNames_bindInit init).bind fun _ => (reportsNames_passOption condition).bind fun _ =>
      (reportsNames_passOption step).bind fun _ => reportsNames_bindScope body

theorem reportsNames_bindBranch : (b : Branch) → (bindBranch b).ReportsNames
  | .mk _ condition body otherwise => (reports_visit _ _).bind fun _ =>
    (reportsNames_passExpr condition).bind fun _ => (reportsNames_bindScope body).bind fun _ =>
      reportsNames_bindOtherwise otherwise

theorem reportsNames_bindOtherwise : (o : Otherwise) → (bindOtherwise o).ReportsNames
  | .nothing => reports_pure ()
  | .branch b => reportsNames_bindBranch b
  | .scope s => reportsNames_bindScope s

theorem reportsNames_bindScope : (s : Scope) → (bindScope s).ReportsNames
  | .mk _ statements => (reports_visit _ _).bind fun _ =>
    (reportsNames_bindStmts statements).inScope _ _ _

theorem reportsNames_bindStmts : (ss : List Stmt) → (bindStmts ss).ReportsNames
  | [] => reports_pure ()
  | s :: ss => (reportsNames_bindStmt s).bind fun _ => reportsNames_bindStmts ss

end

theorem reportsNames_bindFunction (d : FunctionDecl) : (bindFunction d).ReportsNames :=
  (reports_visit _ _).bind fun _ => (reports_onLibrary _).bind fun _ => reports_get.bind fun _ =>
    (reportsNames_giveType _ _).bind fun _ => (reportsNames_declareAt _ _).bind fun _ =>
      (Reports.inScope ((reports_forM _ fun p _ => reportsNames_bindParameter _ p).bind fun _ =>
        reportsNames_bindScope d.body) _ _ _).bind fun _ => reportsNames_register _ _ _

theorem reportsNames_bindMember (m : Member) : (bindMember m).ReportsNames := by
  match m with
  | .variable d => exact reportsNames_bindVariable d
  | .function d => exact reportsNames_bindFunction d

theorem reportsNames_bindDeclaration (d : Declaration) : (bindDeclaration d).ReportsNames := by
  match d with
  | .classDecl d => exact (reports_visit _ _).bind fun _ => reports_get.bind fun _ =>
      (reports_forM _ fun m _ => reportsNames_bindMember m).inScope _ _ _
  | .function d => exact reportsNames_bindFunction d
  | .variable d => exact reportsNames_bindVariable d

end Analyzing

namespace Block

open Analyzing

/-- In front of the last phase only names are reported. -/
theorem isOfName_of_mem_errors (b : Block) (deps : List Library) (target : Library) :
    ∀ e ∈ (b.withSymbols deps target).errors, e.isOfName = true := by
  have hclasses : (declareClasses b).ReportsNames :=
    reports_forM _ fun d _ => reportsNames_declareClass d
  have htypes : (resolveTypes b.tree).ReportsNames :=
    reports_resolveTypes (fun _ _ _ => rfl) fun _ _ _ => rfl
  have hsymbols : (bindBlock b).ReportsNames :=
    (reports_visit _ _).bind fun _ => reports_forM _ fun d _ => reportsNames_bindDeclaration d
  have hall := hclasses.bind fun _ => htypes.bind fun _ => hsymbols
  obtain ⟨es, heq, hes⟩ := hall (b.atStart deps target)
  have herrors : (b.withSymbols deps target).errors = es := heq
  rwa [herrors]

/-- Errors of other sorts are reported in the last phase only. -/
theorem filter_errors_withSymbols {p : SemanticError → Bool} (h : ∀ e, e.isOfName = true → p e = false)
    (b : Block) (deps : List Library) (target : Library) :
    (b.withSymbols deps target).errors.filter p = [] :=
  List.filter_eq_nil_iff.2 fun e he => by simp [h e (b.isOfName_of_mem_errors deps target e he)]

end Block

/-! ## The last phase -/

/-- Where a check reports what is wrong besides its expressions. -/
def Check.span : Check → Span
  | .expr _ e | .condition _ e | .initializer _ _ e | .returns _ _ _ (some e) => e.span
  | .returns place _ _ none | .loopControl place _ => place.span
  | .goto _ _ label => label.span

/-- What a check reports besides its expressions. -/
def Check.isOwn : Check → SemanticError → Bool
  | .condition .., .conditionExpectedBooleanOrPointer .. => true
  | .initializer .., .typeMismatch .. | .returns .., .typeMismatch .. => true
  | .loopControl .., .breakContinueOutsideLoop _ => true
  | .goto .., .symbolNotFound .. => true
  | _, _ => false

/-- An error of an expression, or one of the sort of a check, at its place. -/
def Check.CanReport (k : Check) (e : SemanticError) : Prop :=
  e.isOfExpression = true ∨ k.isOwn e = true ∧ e.span = k.span

namespace Analyzing

variable {k : Check}

theorem reports_typeExpr_of_check (k : Check) (e : Expr) : (typeExpr e).Reports k.CanReport :=
  (reports_ofExpression e).mono fun _ => .inl

theorem reports_mismatch_of_check (hk : ∀ x y, k.isOwn (.typeMismatch x y k.span) = true)
    (expected : SymbolId) (found : Option SymbolId) :
    (mismatch expected found k.span).Reports k.CanReport :=
  reports_get.bind fun _ => reports_report (.inr ⟨hk _ _, rfl⟩)

theorem reports_checkInitializer_of_check (Γ : Locals) (τ : Ty) (expected : Option SymbolId)
    (e : Expr) : (checkInitializer expected e).Reports (Check.initializer Γ τ e).CanReport := by
  refine (reports_typeExpr_of_check _ e).bind fun found => reports_get.bind fun c => ?_
  split
  · split
    · exact reports_mismatch_of_check (k := .initializer Γ τ e) (fun _ _ => rfl) _ _
    · exact reports_pure ()
  · exact reports_pure ()

theorem reports_checkCondition_of_check (Γ : Locals) (e : Expr) :
    (checkCondition e).Reports (Check.condition Γ e).CanReport := by
  refine (reports_typeExpr_of_check _ e).bind fun found => ?_
  split
  · exact reports_pure ()
  · refine reports_get.bind fun c => ?_
    split
    · exact reports_pure ()
    · exact reports_report (.inr ⟨rfl, rfl⟩)

theorem reports_checkReturn_of_check (place : Place) (Γ : Locals) (τ : Ty) (value : Option Expr) :
    (checkReturn place value).Reports (Check.returns place Γ τ value).CanReport := by
  have htype : (typeOption value).Reports (Check.returns place Γ τ value).CanReport := by
    cases value with
    | none => exact reports_pure none
    | some e => exact reports_typeExpr_of_check _ e
  rw [checkReturn_eq]
  refine (reports_visit _ _).bind fun _ => htype.bind fun found => reports_get.bind fun c => ?_
  split
  · split
    · exact reports_pure ()
    · exact reports_mismatch_of_check (k := .returns place Γ τ none) (fun _ _ => rfl) _ _
  · next _ e _ _ =>
    split
    · exact reports_mismatch_of_check (k := .returns place Γ τ (some e)) (fun _ _ => rfl) _ _
    · exact reports_pure ()
  · exact reports_pure ()

theorem reports_checkLoopControl_of_check (place : Place) (inLoop : Bool) :
    (checkLoopControl place).Reports (Check.loopControl place inLoop).CanReport := by
  refine (reports_visit _ _).bind fun _ => reports_get.bind fun c => ?_
  split
  · exact reports_pure ()
  · exact reports_report (.inr ⟨rfl, rfl⟩)

theorem reports_checkGoto_of_check (place : Place) (labels : List String) (label : Ident) :
    (checkGoto place label).Reports (Check.goto place labels label).CanReport := by
  refine (reports_visit _ _).bind fun _ => reports_get.bind fun c => ?_
  dsimp only
  split
  · exact reports_annotate _
  · exact reports_report (.inr ⟨rfl, rfl⟩)

end Analyzing

open Analyzing

/-- A check reports errors of its expressions and, at its place, errors of its own sort. -/
theorem Block.Step.reports {b : Block} {row : NodeId → Option SymbolId} {k : Check}
    {p : ScopeStack SymbolId → Prop} {m : Analyzing Unit} (h : b.Step row k p m) :
    m.Reports k.CanReport := by
  cases h with
  | expr Γ _ => exact (reports_typeExpr_of_check _ _).bind fun _ => reports_pure ()
  | condition Γ _ => exact reports_checkCondition_of_check Γ _
  | initializer Γ _ _ => exact reports_get.bind fun _ => reports_checkInitializer_of_check Γ _ _ _
  | returns Γ _ _ _ => exact reports_checkReturn_of_check _ Γ _ _
  | loopControl place inLoop => exact reports_checkLoopControl_of_check place inLoop
  | goto _ _ => exact reports_checkGoto_of_check _ _ _

/-- A check does not touch the errors of other sorts and of other places. -/
theorem Block.Step.filter_errors {b : Block} {row : NodeId → Option SymbolId} {k : Check}
    {p : ScopeStack SymbolId → Prop} {m : Analyzing Unit} (h : b.Step row k p m)
    {q : SemanticError → Bool} (hexpr : ∀ e, e.isOfExpression = true → q e = false)
    (hown : ∀ e, k.isOwn e = true → e.span = k.span → q e = false) (c : Context) :
    (m.run c).2.errors.filter q = c.errors.filter q :=
  (h.reports.mono fun e he => he.elim (hexpr e) fun he => hown e he.1 he.2).filter_errors c

end Sable
