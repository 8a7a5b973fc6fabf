import Sable.Analysis.Run
import Sable.Proofs.Analysis.Reporting
import Sable.Proofs.Symbol.Stable

/-!
# What an analysis does to its library

An analysis changes its target by library steps, and it does not empty the target on the way. So
the target keeps its number, its name and its links. If no declaration has made a symbol, nothing
was published either, so that a target without symbols is as it was before.

The only step that asks for more is to declare a name of the unit: the symbol that it stands for
must have been made before.

## Main definitions

* `Analyzing.Steps`: what a step makes of a library that has some symbols already.
* `ClassDecl.IsPlain`: a class whose name does not spell a pointer type.

## Main statements

* `Block.steps_analyze`, `Block.leads_analyze`: the whole analysis.
-/
namespace Sable

/-- The name of the class does not end in a star, so it spells no pointer type. -/
def ClassDecl.IsPlain (d : ClassDecl) : Prop := (Library.splitStars d.name.name).2 = 0

instance (d : ClassDecl) : Decidable d.IsPlain := inferInstanceAs (Decidable (_ = _))

namespace Analyzing

variable {α β : Type} {p : Prop} {n k : Nat}

/-- If the library has `n` symbols at least, or if names may be published without any, the step
changes the library by library steps. -/
def Steps (p : Prop) (n : Nat) (m : Analyzing α) : Prop :=
  ∀ c : Context, (p → n ≤ c.library.symbols.size) → c.library.Steps p (m.run c).2.library

/-! ## Combining steps -/

theorem steps_of_library_eq {m : Analyzing α} (h : ∀ c, (m.run c).2.library = c.library) :
    m.Steps p n := by
  intro c _
  rw [h]
  exact .refl

theorem Steps.bind {m : Analyzing α} {f : α → Analyzing β} (hm : m.Steps p n)
    (hf : ∀ x, (f x).Steps p n) : (m >>= f).Steps p n := by
  intro c hc
  have hfirst := hm c hc
  exact hfirst.trans (hf _ _ fun hp => Nat.le_trans (hc hp) (hfirst.leads hp).size_le)

/-- Behind a step that makes a symbol, there is one. -/
theorem Steps.bind_of_pos {m : Analyzing α} {f : α → Analyzing β} (hm : m.Steps p n)
    (hpos : p → ∀ c, 0 < (m.run c).2.library.symbols.size) (hf : ∀ x, (f x).Steps p 1) :
    (m >>= f).Steps p n := by
  intro c hc
  exact (hm c hc).trans (hf _ _ fun hp => hpos hp c)

theorem steps_pure (x : α) : (pure x : Analyzing α).Steps p n :=
  steps_of_library_eq fun _ => rfl

theorem steps_get : (get : Analyzing Context).Steps p n := steps_of_library_eq fun _ => rfl

theorem steps_report (e : SemanticError) : (report e).Steps p n :=
  steps_of_library_eq fun _ => rfl

theorem steps_annotate (f : Annotations → Annotations) : (annotate f).Steps p n :=
  steps_of_library_eq fun _ => rfl

theorem steps_visit (phase : Phase) (node : NodeId) : (visit phase node).Steps p n :=
  steps_of_library_eq fun _ => rfl

theorem steps_onLibrary {f : Library → α × Library}
    (h : ∀ lib : Library, lib.Steps p (f lib).2) : (onLibrary f).Steps p n :=
  fun c _ => h c.library

theorem Steps.map {m : Analyzing α} (h : m.Steps p n) (f : α → β) : (f <$> m).Steps p n :=
  h.bind fun x => steps_pure (f x)

theorem library_reporting (f : Library → Except SemanticError α × Library) (c : Context) :
    ((reporting f).run c).2.library = (f c.library).2 := by
  rw [run_reporting]

/-- What a step on the library comes to, with or without an error. -/
theorem steps_reporting {f : Library → Except SemanticError α × Library}
    (h : ∀ lib : Library, (p → n ≤ lib.symbols.size) → lib.Steps p (f lib).2) :
    (reporting f).Steps p n := by
  refine Steps.bind (fun c hc => h c.library hc) fun x => ?_
  split
  · exact steps_pure _
  · exact (steps_report _).bind fun _ => steps_pure _

theorem steps_forM {f : α → Analyzing Unit} (xs : List α) (h : ∀ x ∈ xs, (f x).Steps p n) :
    (xs.forM f).Steps p n := by
  induction xs with
  | nil => exact steps_pure ()
  | cons x xs ih =>
    change Steps p n (f x >>= fun _ => xs.forM f)
    exact (h x List.mem_cons_self).bind fun _ => ih fun y hy => h y (List.mem_cons_of_mem x hy)

theorem steps_mapM {f : α → Analyzing β} (xs : List α) (h : ∀ x, (f x).Steps p n) :
    (xs.mapM f).Steps p n := by
  induction xs with
  | nil =>
    rw [List.mapM_nil]
    exact steps_pure []
  | cons x xs ih =>
    rw [List.mapM_cons]
    exact (h x).bind fun _ => ih.bind fun _ => steps_pure _

theorem Steps.inScope {step : Analyzing Unit} (h : step.Steps p n) (kind : ScopeKind)
    (owner : NodeId) (symbol : Option SymbolId) : (inScope kind owner symbol step).Steps p n :=
  (steps_of_library_eq fun _ => rfl).bind fun _ => h.bind fun _ => steps_of_library_eq fun _ => rfl

theorem steps_builtin (name : String) (span : Span) : (builtin name span).Steps p n := by
  refine steps_get.bind fun c => ?_
  split
  · exact steps_pure _
  · exact (steps_report _).bind fun _ => steps_pure _

/-! ## Classes and written types -/

theorem steps_declareGlobal (name : String) (id : SymbolId) (span : Span) :
    (declareGlobal name id span).Steps p 1 := by
  refine steps_get.bind fun c => ?_
  split
  · exact steps_report _
  · exact (steps_of_library_eq fun _ => rfl).bind fun _ =>
      (steps_reporting fun _ h => .registerGlobal h id).bind fun _ =>
        steps_pure _

theorem steps_declareClass {d : ClassDecl} (h : p → d.IsPlain) :
    (declareClass d).Steps p n := by
  refine Steps.bind_of_pos (steps_reporting fun lib _ => lib.steps_createType _ _ _)
    (fun hp c => ?_) fun created => ?_
  · rw [library_reporting]
    exact c.library.size_createType_pos (h hp) d.name.span
  · split
    · exact steps_pure ()
    · exact (steps_onLibrary fun lib => lib.steps_setDeclaration _ _).bind fun _ =>
        (steps_annotate _).bind fun _ => steps_declareGlobal _ _ _

theorem steps_resolveType (t : WrittenType) : (resolveType t).Steps p n := by
  refine steps_get.bind fun c => ?_
  split
  · exact steps_pure _
  · refine (steps_of_library_eq fun _ => rfl).bind fun _ => ?_
    split
    · exact (steps_report _).bind fun _ => steps_pure _
    · exact (steps_onLibrary fun lib => lib.steps_pointerType _ _).bind fun _ =>
        (steps_annotate _).bind fun _ => steps_pure _

theorem steps_resolveResult (name : Ident) (returns : Option WrittenType) :
    (resolveResult name returns).Steps p n := by
  cases returns with
  | none => exact steps_builtin _ _
  | some t => exact steps_resolveType t

theorem steps_noteSignature (node : NodeId) (parameters : Option (List SymbolId))
    (returns : Option SymbolId) : (noteSignature node parameters returns).Steps p n := by
  unfold noteSignature
  split
  · exact (steps_onLibrary fun lib => lib.steps_functionType _ _).bind fun _ => steps_annotate _
  · exact steps_pure ()

theorem steps_resolveTypes (t : Tree) : (resolveTypes t).Steps p n := by
  refine steps_forM _ fun m _ => ?_
  unfold resolveNode
  split
  · exact (steps_resolveType _).bind fun _ => steps_pure ()
  · rw [resolveSignature_eq]
    exact (steps_mapM _ fun _ => steps_resolveType _).bind fun _ =>
      (steps_resolveResult _ _).bind fun _ => steps_noteSignature _ _ _
  · exact steps_pure ()

/-! ## Binding -/

theorem steps_declareAt (node : NodeId) (id : SymbolId) : (declareAt node id).Steps p n :=
  (steps_onLibrary fun lib => lib.steps_setDeclaration _ _).bind fun _ => steps_annotate _

theorem steps_giveType (id : SymbolId) (type : Option SymbolId) : (giveType id type).Steps p n := by
  cases type with
  | none => exact steps_pure ()
  | some type => exact steps_onLibrary fun lib => lib.steps_setType _ _

theorem steps_register (name : String) (id : SymbolId) (span : Span) :
    (register name id span).Steps p 1 := by
  refine steps_get.bind fun c => ?_
  split
  · exact steps_declareGlobal _ _ _
  · split
    · exact (steps_reporting fun lib _ => lib.steps_addLocal _ _).bind fun _ => steps_pure _
    · exact (steps_reporting fun lib _ => lib.steps_addMember _ _).bind fun _ => steps_pure _
    · exact steps_pure ()

/-- A new symbol, and what is done with it. -/
theorem steps_create {f : SymbolId → Analyzing Unit} {s : Symbol}
    (hs : ∀ lib : Library, lib.Steps p (lib.alloc s).2) (h : ∀ id, (f id).Steps p 1) :
    (onLibrary (·.alloc s) >>= f).Steps p n :=
  (steps_onLibrary hs).bind_of_pos (fun _ c => c.library.size_alloc_pos s) h

theorem steps_bindVariable (d : VariableDecl) : (bindVariable d).Steps p n :=
  (steps_visit _ _).bind fun _ => steps_create (fun lib => lib.steps_createVariable _ _ _) fun _ =>
    steps_get.bind fun _ => (steps_giveType _ _).bind fun _ => (steps_declareAt _ _).bind fun _ =>
      steps_register _ _ _

theorem steps_bindParameter (function : SymbolId) (d : Parameter) :
    (bindParameter function d).Steps p n :=
  (steps_visit _ _).bind fun _ => steps_create (fun lib => lib.steps_createVariable _ _ _) fun _ =>
    steps_get.bind fun _ => (steps_giveType _ _).bind fun _ => (steps_declareAt _ _).bind fun _ =>
      (steps_reporting fun lib _ => lib.steps_addLocal _ _).bind fun _ => steps_pure _

theorem steps_bindLabel (place : Place) (name : Ident) : (bindLabel place name).Steps p n := by
  refine (steps_visit _ _).bind fun _ => steps_create (fun lib => lib.steps_createLabel _ _)
    fun _ => (steps_declareAt _ _).bind fun _ => steps_get.bind fun c => ?_
  split
  · exact (steps_reporting fun lib _ => lib.steps_addLabel _ _).bind fun _ => steps_pure _
  · exact steps_register _ _ _

theorem steps_passExpr (e : Expr) : (passExpr e).Steps p n :=
  steps_forM _ fun _ _ => steps_visit _ _

theorem steps_passOption (e : Option Expr) : (passOption e).Steps p n :=
  steps_forM _ fun e _ => steps_passExpr e

theorem steps_bindInit (init : ForInit) : (bindInit init).Steps p n := by
  cases init with
  | nothing => exact steps_pure ()
  | «variable» d => exact steps_bindVariable d
  | expr e => exact steps_passExpr e

mutual

theorem steps_bindStmt : (s : Stmt) → (bindStmt s).Steps p n
  | .label place name => steps_bindLabel place name
  | .goto place _ | .breakLoop place | .continueLoop place => steps_visit _ place.id
  | .returns _ value => (steps_visit _ _).bind fun _ => steps_passOption value
  | .variable d => steps_bindVariable d
  | .expr e => steps_passExpr e
  | .branch b => steps_bindBranch b
  | .whileLoop _ condition body => (steps_visit _ _).bind fun _ =>
      (steps_passExpr condition).bind fun _ => steps_bindScope body
  | .forLoop _ init condition step body => (steps_visit _ _).bind fun _ =>
      (steps_bindInit init).bind fun _ => (steps_passOption condition).bind fun _ =>
        (steps_passOption step).bind fun _ => steps_bindScope body

theorem steps_bindBranch : (b : Branch) → (bindBranch b).Steps p n
  | .mk _ condition body otherwise => (steps_visit _ _).bind fun _ =>
      (steps_passExpr condition).bind fun _ => (steps_bindScope body).bind fun _ =>
        steps_bindOtherwise otherwise

theorem steps_bindOtherwise : (o : Otherwise) → (bindOtherwise o).Steps p n
  | .nothing => steps_pure ()
  | .branch b => steps_bindBranch b
  | .scope s => steps_bindScope s

theorem steps_bindScope : (s : Scope) → (bindScope s).Steps p n
  | .mk _ statements => (steps_visit _ _).bind fun _ =>
      (steps_bindStmts statements).inScope _ _ _

theorem steps_bindStmts : (ss : List Stmt) → (bindStmts ss).Steps p n
  | [] => steps_pure ()
  | s :: ss => (steps_bindStmt s).bind fun _ => steps_bindStmts ss

end

theorem steps_bindFunction (d : FunctionDecl) : (bindFunction d).Steps p n :=
  (steps_visit _ _).bind fun _ => steps_create (fun lib => lib.steps_createFunction _ _) fun id =>
    steps_get.bind fun _ => (steps_giveType _ _).bind fun _ => (steps_declareAt _ _).bind fun _ =>
      (((steps_forM _ fun p _ => steps_bindParameter id p).bind fun _ =>
        steps_bindScope d.body).inScope _ _ _).bind fun _ => steps_register _ _ _

theorem steps_bindDeclaration (d : Declaration) : (bindDeclaration d).Steps p n := by
  match d with
  | .classDecl d =>
    refine (steps_visit _ _).bind fun _ => steps_get.bind fun _ =>
      (steps_forM _ fun m _ => ?_).inScope _ _ _
    match m with
    | .variable d => exact steps_bindVariable d
    | .function d => exact steps_bindFunction d
  | .function d => exact steps_bindFunction d
  | .variable d => exact steps_bindVariable d

/-! ## Typing -/

theorem steps_pointerTo (pointee : SymbolId) :
    (some <$> onLibrary (·.pointerTo pointee)).Steps p n :=
  (steps_onLibrary fun lib => lib.steps_pointerTo pointee).map _

theorem steps_resultType (result : OperatorResult) (span : Span) :
    (resultType result span).Steps p n := by
  cases result with
  | same type => exact steps_pure _
  | builtin name => exact steps_builtin name span
  | pointerTo type => exact steps_pointerTo type

theorem steps_pointerToBuiltin (name : String) (span : Span) :
    (pointerToBuiltin name span).Steps p n := by
  refine (steps_builtin name span).bind fun type => ?_
  split
  · exact steps_pointerTo _
  · exact steps_pure _

theorem steps_typeValue (place : Place) (v : Value) : (typeValue place v).Steps p n := by
  cases v with
  | integer | float | boolean | character => exact steps_builtin _ _
  | string | null => exact steps_pointerToBuiltin _ _
  | identifier name =>
    refine steps_get.bind fun c => ?_
    split
    · split
      · exact (steps_annotate _).bind fun _ => steps_pure _
      · exact (steps_report _).bind fun _ => steps_pure _
    · exact (steps_report _).bind fun _ => steps_pure _

/-- A rule that gives a type or reports. -/
theorem steps_typeUnary (span : Span) (op : UnaryOp) (operand : SymbolId) :
    (typeUnary span op operand).Steps p n := by
  refine steps_get.bind fun c => ?_
  split
  · exact steps_resultType _ _
  · exact (steps_report _).bind fun _ => steps_pure _

theorem steps_typeBinary (span : Span) (op : BinaryOp) (left right : SymbolId) :
    (typeBinary span op left right).Steps p n := by
  rw [typeBinary_eq]
  refine steps_get.bind fun c => Steps.bind ?_ fun type => ?_
  · unfold operatorResult
    split
    · exact steps_resultType _ _
    · exact steps_pure _
  · unfold binaryResult
    split
    · exact steps_pure _
    · exact (steps_report _).bind fun _ => steps_pure _

theorem steps_typeAccess (place : Place) (kind : AccessKind) (object : SymbolId) (member : Ident) :
    (typeAccess place kind object member).Steps p n := by
  rw [typeAccess_eq]
  refine steps_get.bind fun c => ?_
  unfold noteAccess
  split
  · exact (steps_report _).bind fun _ => steps_pure _
  · split
    · exact (steps_report _).bind fun _ => steps_pure _
    · exact (steps_annotate _).bind fun _ => steps_pure _

theorem steps_typeCall (span calleeSpan : Span) (callee : SymbolId)
    (arguments : List (Option SymbolId)) :
    (typeCall span calleeSpan callee arguments).Steps p n := by
  rw [typeCall_eq]
  refine steps_get.bind fun c => ?_
  split
  · refine Steps.bind ?_ fun _ => steps_pure _
    unfold compareArguments
    split
    · split
      · exact steps_report _
      · exact steps_pure _
    · exact steps_pure _
  · exact (steps_report _).bind fun _ => steps_pure _

theorem steps_typeCast (span : Span) (source target : SymbolId) :
    (typeCast span source target).Steps p n := by
  refine steps_get.bind fun c => ?_
  split
  · exact steps_pure _
  · exact (steps_report _).bind fun _ => steps_pure _

theorem steps_typeIndex (span : Span) (target subscript : SymbolId) :
    (typeIndex span target subscript).Steps p n := by
  refine steps_get.bind fun c => ?_
  split
  · exact steps_pure _
  · exact (steps_report _).bind fun _ => steps_pure _

theorem steps_noting (node : NodeId) {rule : Analyzing (Option SymbolId)} (h : rule.Steps p n) :
    (noting node rule).Steps p n := by
  refine (steps_visit _ _).bind fun _ => h.bind fun type => ?_
  split
  · exact (steps_annotate _).bind fun _ => steps_pure _
  · exact steps_pure _

theorem steps_withType (operand : Option SymbolId)
    {rule : SymbolId → Analyzing (Option SymbolId)} (h : ∀ type, (rule type).Steps p n) :
    (withType operand rule).Steps p n := by
  cases operand with
  | none => exact steps_pure _
  | some type => exact h type

mutual

theorem steps_typeExpr : (e : Expr) → (typeExpr e).Steps p n
  | .value place v => steps_noting _ (steps_typeValue place v)
  | .unary _ op operand => steps_noting _ <| (steps_typeExpr operand).bind fun _ =>
      steps_withType _ fun _ => steps_typeUnary _ op _
  | .binary _ op left right => steps_noting _ <| (steps_typeExpr left).bind fun _ =>
      (steps_typeExpr right).bind fun _ => steps_withType _ fun _ => steps_withType _ fun _ =>
        steps_typeBinary _ op _ _
  | .access place kind object member => steps_noting _ <| (steps_typeExpr object).bind fun _ =>
      steps_withType _ fun _ => steps_typeAccess place kind _ member
  | .call _ callee arguments => steps_noting _ <| (steps_typeExpr callee).bind fun _ =>
      (steps_typeExprs arguments).bind fun _ => steps_withType _ fun _ => steps_typeCall _ _ _ _
  | .cast _ operand _ => steps_noting _ <| (steps_typeExpr operand).bind fun _ =>
      steps_get.bind fun _ => steps_withType _ fun _ => steps_withType _ fun _ =>
        steps_typeCast _ _ _
  | .index _ target subscript => steps_noting _ <| (steps_typeExpr target).bind fun _ =>
      (steps_typeExpr subscript).bind fun _ => steps_withType _ fun _ => steps_withType _ fun _ =>
        steps_typeIndex _ _ _

theorem steps_typeExprs : (es : List Expr) → (typeExprs es).Steps p n
  | [] => steps_pure []
  | e :: es => (steps_typeExpr e).bind fun _ => (steps_typeExprs es).bind fun _ => steps_pure _

end

theorem steps_declareLocal (node : NodeId) (name : Ident) : (declareLocal node name).Steps p n := by
  refine steps_get.bind fun c => ?_
  split
  · exact steps_of_library_eq fun _ => rfl
  · exact steps_pure ()

theorem steps_mismatch (expected : SymbolId) (found : Option SymbolId) (span : Span) :
    (mismatch expected found span).Steps p n :=
  steps_get.bind fun _ => steps_report _

theorem steps_checkInitializer (expected : Option SymbolId) (e : Expr) :
    (checkInitializer expected e).Steps p n := by
  refine (steps_typeExpr e).bind fun found => steps_get.bind fun c => ?_
  split
  · split
    · exact steps_mismatch _ _ _
    · exact steps_pure ()
  · exact steps_pure ()

theorem steps_checkVariable (d : VariableDecl) : (checkVariable d).Steps p n :=
  (steps_visit _ _).bind fun _ => steps_get.bind fun _ =>
    (steps_forM _ fun e _ => steps_checkInitializer _ e).bind fun _ => steps_declareLocal _ _

theorem steps_checkCondition (e : Expr) : (checkCondition e).Steps p n := by
  refine (steps_typeExpr e).bind fun type => ?_
  split
  · exact steps_pure ()
  · refine steps_get.bind fun c => ?_
    split
    · exact steps_pure ()
    · exact steps_report _

theorem steps_checkGoto (place : Place) (label : Ident) : (checkGoto place label).Steps p n := by
  refine (steps_visit _ _).bind fun _ => steps_get.bind fun c => ?_
  dsimp only
  split
  · exact steps_annotate _
  · exact steps_report _

theorem steps_checkReturn (place : Place) (value : Option Expr) :
    (checkReturn place value).Steps p n := by
  rw [checkReturn_eq]
  refine (steps_visit _ _).bind fun _ => Steps.bind ?_ fun found => steps_get.bind fun c => ?_
  · cases value with
    | none => exact steps_pure _
    | some e => exact steps_typeExpr e
  · split
    · split
      · exact steps_pure ()
      · exact steps_mismatch _ _ _
    · split
      · exact steps_mismatch _ _ _
      · exact steps_pure ()
    · exact steps_pure ()

theorem steps_checkLoopControl (place : Place) : (checkLoopControl place).Steps p n := by
  refine (steps_visit _ _).bind fun _ => steps_get.bind fun c => ?_
  split
  · exact steps_pure ()
  · exact steps_report _

theorem steps_checkInit (init : ForInit) : (checkInit init).Steps p n := by
  cases init with
  | nothing => exact steps_pure ()
  | «variable» d => exact steps_checkVariable d
  | expr e => exact (steps_typeExpr e).bind fun _ => steps_pure ()

mutual

theorem steps_checkStmt : (s : Stmt) → (checkStmt s).Steps p n
  | .label place _ => steps_visit _ place.id
  | .goto place label => steps_checkGoto place label
  | .returns place value => steps_checkReturn place value
  | .breakLoop place | .continueLoop place => steps_checkLoopControl place
  | .variable d => steps_checkVariable d
  | .expr e => (steps_typeExpr e).bind fun _ => steps_pure ()
  | .branch b => steps_checkBranch b
  | .whileLoop _ condition body => (steps_visit _ _).bind fun _ =>
      (steps_checkCondition condition).bind fun _ => (steps_checkScope body).inScope _ _ _
  | .forLoop _ init _ _ body => (steps_visit _ _).bind fun _ =>
      Steps.inScope ((steps_checkInit init).bind fun _ =>
        (steps_forM _ fun _ _ => steps_checkCondition _).bind fun _ =>
          (steps_forM _ fun _ _ => (steps_typeExpr _).bind fun _ => steps_pure ()).bind fun _ =>
            steps_checkScope body) _ _ _

theorem steps_checkBranch : (b : Branch) → (checkBranch b).Steps p n
  | .mk _ condition body otherwise => (steps_visit _ _).bind fun _ =>
      (steps_checkCondition condition).bind fun _ => (steps_checkScope body).bind fun _ =>
        steps_checkOtherwise otherwise

theorem steps_checkOtherwise : (o : Otherwise) → (checkOtherwise o).Steps p n
  | .nothing => steps_pure ()
  | .branch b => steps_checkBranch b
  | .scope s => steps_checkScope s

theorem steps_checkScope : (s : Scope) → (checkScope s).Steps p n
  | .mk _ statements => (steps_visit _ _).bind fun _ => (steps_checkStmts statements).inScope _ _ _

theorem steps_checkStmts : (ss : List Stmt) → (checkStmts ss).Steps p n
  | [] => steps_pure ()
  | s :: ss => (steps_checkStmt s).bind fun _ => steps_checkStmts ss

end

theorem steps_checkFunction (d : FunctionDecl) : (checkFunction d).Steps p n :=
  (steps_visit _ _).bind fun _ => steps_get.bind fun _ =>
    Steps.inScope ((steps_forM _ fun _ _ => (steps_visit _ _).bind fun _ =>
      steps_declareLocal _ _).bind fun _ => (steps_forM _ fun _ _ => steps_visit _ _).bind fun _ =>
        steps_checkScope d.body) _ _ _

theorem steps_checkDeclaration (d : Declaration) : (checkDeclaration d).Steps p n := by
  match d with
  | .classDecl d =>
    refine (steps_visit _ _).bind fun _ => steps_get.bind fun _ =>
      (steps_forM _ fun m _ => ?_).inScope _ _ _
    match m with
    | .variable d => exact steps_checkVariable d
    | .function d => exact steps_checkFunction d
  | .function d => exact steps_checkFunction d
  | .variable d => exact steps_checkVariable d

/-! ## All phases -/

theorem steps_unit {b : Block} (h : p → ∀ d ∈ b.classes, d.IsPlain) : (unit b).Steps p n :=
  (steps_of_library_eq fun _ => rfl).bind fun _ =>
    (steps_forM _ fun d hd => steps_declareClass fun hp => h hp d hd).bind fun _ =>
      (steps_resolveTypes _).bind fun _ =>
        ((steps_visit _ _).bind fun _ => steps_forM _ fun d _ => steps_bindDeclaration d).bind
          fun _ => (steps_visit _ _).bind fun _ => steps_forM _ fun d _ => steps_checkDeclaration d

end Analyzing

/-- Whatever is wrong with the unit, its analysis consists of library steps. -/
theorem Block.steps_analyze (b : Block) (deps : List Library) (target : Library) :
    (Context.start deps target).library.Steps False (b.analyze deps target).library :=
  have hsteps := Analyzing.steps_unit (n := 0) (False.elim (C := ∀ d ∈ b.classes, d.IsPlain))
  hsteps _ False.elim

/-- The links of a library are those that it has when its analysis begins. -/
theorem Block.links_analyze (b : Block) (deps : List Library) (target : Library) :
    (b.analyze deps target).library.id = (Context.start deps target).library.id ∧
      (b.analyze deps target).library.dependencies =
        (Context.start deps target).library.dependencies :=
  (b.steps_analyze deps target).keeps
    (P := fun lib => lib.id = (Context.start deps target).library.id ∧
      lib.dependencies = (Context.start deps target).library.dependencies) ⟨rfl, rfl⟩
    fun lib s _ h => ⟨(lib.step_links s).1.trans h.1, (lib.step_links s).2.trans h.2⟩

/-- Whatever is wrong with the unit, its analysis leads the library on. -/
theorem Block.leads_analyze {b : Block} (h : ∀ d ∈ b.classes, d.IsPlain) (deps : List Library)
    (target : Library) :
    (Context.start deps target).library.Leads (b.analyze deps target).library :=
  have hsteps := Analyzing.steps_unit (fun _ => h) (.start deps target) fun _ => Nat.zero_le _
  hsteps.leads trivial

end Sable
