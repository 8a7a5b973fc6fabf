import Sable.Proofs.Analysis.Reporting
import Sable.Proofs.Symbol.Moving

/-!
# Analyses of moved units

No phase of an analysis looks at a span but to report it. So the analysis of a unit that is written
elsewhere goes the same way, and its errors are the moved errors.

## Main definitions

* `Context.move`: a state after a relocation.
* `Analyzing.Moves`: what a step does to a moved state is what the other does, moved.

## Main statements

* `Block.analyze_move`: the analysis of a moved unit.
-/
namespace Sable

namespace Context

variable (φ : Relocation) (c : Context)

def move : Context :=
  { c with
    library := c.library.move φ
    parents := c.parents.move φ
    errors := c.errors.map (SemanticError.move φ) }

@[simp] theorem move_library : (c.move φ).library = c.library.move φ := rfl

@[simp] theorem move_globals : (c.move φ).globals = c.globals := rfl

@[simp] theorem move_parents : (c.move φ).parents = c.parents.move φ := rfl

@[simp] theorem move_scopes : (c.move φ).scopes = c.scopes := rfl

@[simp] theorem move_annotations : (c.move φ).annotations = c.annotations := rfl

@[simp] theorem move_attempted : (c.move φ).attempted = c.attempted := rfl

theorem symbol?_move (id : SymbolId) :
    (c.move φ).symbol? id = (c.symbol? id).map (Symbol.move φ) := c.library.symbol?_move φ id

@[simp] theorem type?_move (id : SymbolId) : (c.move φ).type? id = c.type? id :=
  c.library.type?_move φ id

@[simp] theorem nameOf_move (id : SymbolId) : (c.move φ).nameOf id = c.nameOf id :=
  c.library.nameOf_move φ id

@[simp] theorem pointee?_move (id : SymbolId) : (c.move φ).pointee? id = c.pointee? id := by
  simp [pointee?]

@[simp] theorem accessed?_move (kind : AccessKind) (type : SymbolId) :
    (c.move φ).accessed? kind type = c.accessed? kind type := by
  cases kind with
  | dot => rfl
  | arrow => exact c.pointee?_move φ type

@[simp] theorem globalType?_move (name : String) :
    (c.move φ).globalType? name = c.globalType? name := by
  simp [globalType?]

@[simp] theorem lookup?_move (name : String) : (c.move φ).lookup? name = c.lookup? name := rfl

@[simp] theorem isBuiltin_move (id : SymbolId) (name : String) :
    (c.move φ).isBuiltin id name = c.isBuiltin id name := rfl

@[simp] theorem isPointer_move (id : SymbolId) : (c.move φ).isPointer id = c.isPointer id := by
  simp [isPointer, mode?]

@[simp] theorem isInteger_move (id : SymbolId) : (c.move φ).isInteger id = c.isInteger id := rfl

@[simp] theorem isBooleanOrPointer_move (id : SymbolId) :
    (c.move φ).isBooleanOrPointer id = c.isBooleanOrPointer id := by
  simp [isBooleanOrPointer]

@[simp] theorem isNullPointer_move (id : SymbolId) :
    (c.move φ).isNullPointer id = c.isNullPointer id := by
  simp only [isNullPointer, pointee?_move]
  rfl

@[simp] theorem binaryType?_move (op : BinaryOp) (left right : SymbolId) :
    (c.move φ).binaryType? op left right = c.binaryType? op left right := by
  have hnumeric : (c.move φ).sameNumeric left right = c.sameNumeric left right := rfl
  have hfunction : (c.move φ).isFunction right = c.isFunction right := by
    simp [isFunction, mode?]
  cases op <;> simp only [binaryType?, hnumeric, hfunction, isPointer_move, isInteger_move,
    isBooleanOrPointer_move]

@[simp] theorem unaryType?_move (op : UnaryOp) (operand : SymbolId) :
    (c.move φ).unaryType? op operand = c.unaryType? op operand := by
  have hnumeric : (c.move φ).isNumeric operand = c.isNumeric operand := rfl
  cases op <;> simp only [unaryType?, hnumeric, pointee?_move, isPointer_move,
    isBooleanOrPointer_move]

@[simp] theorem castIsValid_move (source target : SymbolId) :
    (c.move φ).castIsValid source target = c.castIsValid source target := by
  simp [castIsValid, isFunction, isValue, mode?]

end Context

namespace Analyzing

variable {α β : Type} {φ : Relocation} {c : Context}

/-- In the state `c`, the other step does to the moved state what the step does. -/
def MovesAt (φ : Relocation) (m m' : Analyzing α) (c : Context) : Prop :=
  m'.run (c.move φ) = ((m.run c).1, (m.run c).2.move φ)

def Moves (φ : Relocation) (m m' : Analyzing α) : Prop := ∀ c, MovesAt φ m m' c

theorem MovesAt.bind {m m' : Analyzing α} {f f' : α → Analyzing β} (hm : MovesAt φ m m' c)
    (hf : MovesAt φ (f (m.run c).1) (f' (m.run c).1) (m.run c).2) :
    MovesAt φ (m >>= f) (m' >>= f') c := by
  change (f' (m'.run (c.move φ)).1).run (m'.run (c.move φ)).2 = _
  rw [hm]
  exact hf

theorem Moves.bind {m m' : Analyzing α} {f f' : α → Analyzing β} (hm : Moves φ m m')
    (hf : ∀ x, Moves φ (f x) (f' x)) : Moves φ (m >>= f) (m' >>= f') :=
  fun c => (hm c).bind (hf _ _)

theorem moves_pure (x : α) : Moves φ (pure x) (pure x) := fun _ => rfl

/-- What depends on the state may depend on the moved state in the same way. -/
theorem moves_get_bind {f f' : Context → Analyzing α}
    (h : ∀ c, MovesAt φ (f c) (f' (c.move φ)) c) : Moves φ (get >>= f) (get >>= f') := h

theorem Moves.map {m m' : Analyzing α} (h : Moves φ m m') (f : α → β) :
    Moves φ (f <$> m) (f <$> m') := h.bind fun x => moves_pure (f x)

theorem moves_modify {f f' : Context → Context} (h : ∀ c, f' (c.move φ) = (f c).move φ) :
    Moves φ (modify f) (modify f') := fun c => congrArg (Prod.mk ()) (h c)

theorem moves_report (e : SemanticError) : Moves φ (report e) (report (e.move φ)) :=
  moves_modify fun c => by simp [Context.move]

theorem moves_onLibrary {f f' : Library → α × Library}
    (h : ∀ lib : Library, f' (lib.move φ) = ((f lib).1, (f lib).2.move φ)) :
    Moves φ (onLibrary f) (onLibrary f') := by
  intro c
  change ((f' (c.library.move φ)).1, { c.move φ with library := (f' (c.library.move φ)).2 }) = _
  rw [h]
  rfl

theorem moves_reporting {f f' : Library → Except SemanticError α × Library}
    (h : ∀ lib : Library, f' (lib.move φ) =
      ((f lib).1.mapError (SemanticError.move φ), (f lib).2.move φ)) :
    Moves φ (reporting f) (reporting f') := by
  intro c
  rw [MovesAt, run_reporting, run_reporting, Context.move_library, h]
  simp only [Context.move, List.map_append]
  cases (f c.library).1 <;> rfl

theorem moves_annotate (f : Annotations → Annotations) : Moves φ (annotate f) (annotate f) :=
  fun _ => rfl

theorem moves_visit (phase : Phase) (node : NodeId) :
    Moves φ (visit phase node) (visit phase node) := fun _ => rfl

theorem moves_scopes (f : ScopeStack SymbolId → ScopeStack SymbolId) :
    Moves φ (modify fun c => { c with scopes := f c.scopes })
      (modify fun c => { c with scopes := f c.scopes }) := fun _ => rfl

theorem moves_attempted (node : NodeId) :
    Moves φ (modify fun c => { c with attempted := node :: c.attempted })
      (modify fun c => { c with attempted := node :: c.attempted }) := fun _ => rfl

theorem Moves.inScope {step step' : Analyzing Unit} (h : Moves φ step step') (kind : ScopeKind)
    (owner : NodeId) (symbol : Option SymbolId) :
    Moves φ (inScope kind owner symbol step) (inScope kind owner symbol step') :=
  (moves_scopes (·.push kind owner symbol)).bind fun _ => h.bind fun _ =>
    moves_scopes ScopeStack.pop

theorem moves_forM {f : α → Analyzing Unit} {f' : β → Analyzing Unit} {g : α → β}
    (h : ∀ x, Moves φ (f x) (f' (g x))) (xs : List α) :
    Moves φ (xs.forM f) ((xs.map g).forM f') := by
  induction xs with
  | nil => exact moves_pure ()
  | cons x xs ih => exact (h x).bind fun _ => ih

theorem moves_mapM {γ : Type} {f : α → Analyzing γ} {f' : β → Analyzing γ} {g : α → β}
    (h : ∀ x, Moves φ (f x) (f' (g x))) (xs : List α) :
    Moves φ (xs.mapM f) ((xs.map g).mapM f') := by
  induction xs with
  | nil => exact moves_pure []
  | cons x xs ih =>
    rw [List.map_cons, List.mapM_cons, List.mapM_cons]
    exact (h x).bind fun _ => ih.bind fun _ => moves_pure _

theorem moves_builtin (name : String) (span : Span) :
    Moves φ (builtin name span) (builtin name (φ.span span)) := by
  refine moves_get_bind fun c => ?_
  rw [Context.globalType?_move]
  cases c.globalType? name with
  | none => exact (moves_report _).bind (fun _ => moves_pure _) c
  | some id => exact moves_pure _ c

variable (hφ : φ.IsRelayout)
include hφ

theorem moves_declareGlobal (name : String) (id : SymbolId) (span : Span) :
    Moves φ (declareGlobal name id span) (declareGlobal name id (φ.span span)) := by
  refine moves_get_bind fun c => ?_
  rw [Context.move_globals]
  split
  · exact moves_report _ c
  · have hregister : Moves φ (reporting (·.registerGlobal id)) (reporting (·.registerGlobal id)) :=
      moves_reporting fun lib => lib.registerGlobal_move hφ id
    have hinsert : Moves φ (modify fun c => { c with globals := c.globals.insert name id })
        (modify fun c => { c with globals := c.globals.insert name id }) := fun _ => rfl
    exact hinsert.bind (fun _ => hregister.bind fun _ => moves_pure ()) c

/-! ## Classes and written types -/

omit hφ in
theorem moves_setDeclaration (id : SymbolId) (node : NodeId) :
    Moves φ (onLibrary fun lib => ((), lib.setDeclaration id node))
      (onLibrary fun lib => ((), lib.setDeclaration id node)) :=
  moves_onLibrary fun lib => congrArg (Prod.mk ()) (lib.setDeclaration_move φ id node)

theorem moves_declareClass (d : ClassDecl) :
    Moves φ (declareClass d) (declareClass (d.move φ)) := by
  refine (moves_reporting fun lib => lib.createType_move hφ _ _ _).bind fun created => ?_
  cases created with
  | none => exact moves_pure _
  | some id =>
    simp only [ClassDecl.move, Place.move_id, hφ.shift_eq, Nat.add_zero]
    exact (moves_setDeclaration _ _).bind fun _ => (moves_annotate _).bind fun _ =>
      moves_declareGlobal hφ _ _ _

theorem moves_declareClasses (b : Block) :
    Moves φ (declareClasses b) (declareClasses (b.move φ)) := by
  rw [declareClasses, declareClasses, Block.classes_move]
  exact moves_forM (moves_declareClass hφ) _

theorem moves_resolveType (t : WrittenType) :
    Moves φ (resolveType t) (resolveType (t.move φ)) := by
  refine moves_get_bind fun c => ?_
  simp only [WrittenType.move_place, Place.move_id, hφ.shift_eq, Nat.add_zero,
    Context.move_attempted, Context.move_annotations, Context.globalType?_move,
    WrittenType.move_name, Ident.move_name, WrittenType.move_stars]
  split
  · exact moves_pure _ c
  · refine (moves_attempted _).bind (fun _ => ?_) c
    cases c.globalType? t.name.name with
    | none => exact (moves_report _).bind fun _ => moves_pure _
    | some base => exact (moves_onLibrary fun lib => lib.pointerType_move hφ _ _).bind fun _ =>
        (moves_annotate _).bind fun _ => moves_pure _

theorem moves_resolveResult (name : Ident) (result : Option WrittenType) :
    Moves φ (resolveResult name result)
      (resolveResult (name.move φ) (result.map (WrittenType.move φ))) := by
  cases result with
  | none => exact moves_builtin _ _
  | some t => exact moves_resolveType hφ t

theorem moves_noteSignature (node : NodeId) (parameters : Option (List SymbolId))
    (result : Option SymbolId) :
    Moves φ (noteSignature node parameters result) (noteSignature node parameters result) := by
  unfold noteSignature
  split
  · exact (moves_onLibrary fun lib => lib.functionType_move hφ _ _).bind fun _ => moves_annotate _
  · exact moves_pure _

theorem moves_resolveSignature (node : NodeId) (name : Ident) (parameters : List Parameter)
    (result : Option WrittenType) : Moves φ (resolveSignature node name parameters result)
      (resolveSignature node (name.move φ) (parameters.map (Parameter.move φ))
        (result.map (WrittenType.move φ))) := by
  have hparameters : Moves φ (parameters.mapM fun p => resolveType p.type)
      ((parameters.map (Parameter.move φ)).mapM fun p => resolveType p.type) := by
    refine moves_mapM ?_ parameters
    exact fun p => moves_resolveType hφ p.type
  rw [resolveSignature_eq, resolveSignature_eq]
  exact hparameters.bind fun _ => (moves_resolveResult hφ _ _).bind fun _ =>
    moves_noteSignature hφ _ _ _

theorem moves_resolveNode (n : Node) : Moves φ (resolveNode n) (resolveNode (n.move φ)) := by
  obtain ⟨place, head⟩ := n
  cases head with
  | type t => exact (moves_resolveType hφ t).bind fun _ => moves_pure _
  | function name parameters result =>
    have := moves_resolveSignature hφ place.id name parameters result
    simpa only [resolveNode, Node.move, Head.move, Node.id, Place.move_id, hφ.shift_eq,
      Nat.add_zero] using this
  | _ => exact moves_pure _

theorem moves_resolveTypes (t : Tree) : Moves φ (resolveTypes t) (resolveTypes (t.move φ)) := by
  rw [resolveTypes, resolveTypes, Tree.preorder_move]
  exact moves_forM (moves_resolveNode hφ) _

/-! ## Binding -/

theorem moves_register (name : String) (id : SymbolId) (span : Span) :
    Moves φ (register name id span) (register name id (φ.span span)) := by
  refine moves_get_bind fun c => ?_
  rw [Context.move_scopes]
  cases c.scopes.registrationTarget? with
  | none => exact moves_declareGlobal hφ name id span c
  | some target =>
    dsimp only
    split
    · exact ((moves_reporting fun lib => lib.addLocal_move hφ _ id).bind fun _ => moves_pure ()) c
    · exact ((moves_reporting fun lib => lib.addMember_move hφ _ id).bind fun _ => moves_pure ()) c
    · exact moves_pure () c

omit hφ in
theorem moves_declareAt (node : NodeId) (id : SymbolId) :
    Moves φ (declareAt node id) (declareAt node id) :=
  (moves_setDeclaration id node).bind fun _ => moves_annotate _

omit hφ in
theorem moves_giveType (id : SymbolId) (type : Option SymbolId) :
    Moves φ (giveType id type) (giveType id type) := by
  cases type with
  | none => exact moves_pure _
  | some type =>
    have hset : Moves φ (onLibrary fun lib => ((), lib.setType id type))
        (onLibrary fun lib => ((), lib.setType id type)) :=
      moves_onLibrary fun lib => congrArg (Prod.mk ()) (lib.setType_move φ id type)
    exact hset

theorem moves_bindVariable (d : VariableDecl) :
    Moves φ (bindVariable d) (bindVariable (d.move φ)) := by
  simp only [bindVariable, VariableDecl.move, Place.move_id, hφ.shift_eq, Nat.add_zero,
    Ident.move_name, Ident.move_span, WrittenType.move_place]
  exact (moves_visit _ _).bind fun _ => (moves_onLibrary fun lib => lib.createVariable_move φ _ _ _).bind
    fun id => moves_get_bind fun c => (moves_giveType id _).bind (fun _ =>
      (moves_declareAt _ id).bind fun _ => moves_register hφ _ id _) c

theorem moves_bindParameter (function : SymbolId) (p : Parameter) :
    Moves φ (bindParameter function p) (bindParameter function (p.move φ)) := by
  simp only [bindParameter, Parameter.move, Place.move_id, hφ.shift_eq, Nat.add_zero,
    Ident.move_name, Ident.move_span, WrittenType.move_place]
  exact (moves_visit _ _).bind fun _ => (moves_onLibrary fun lib => lib.createVariable_move φ _ _ _).bind
    fun id => moves_get_bind fun c => (moves_giveType id _).bind (fun _ =>
      (moves_declareAt _ id).bind fun _ =>
        (moves_reporting fun lib => lib.addLocal_move hφ function id).bind
          fun _ => moves_pure ()) c

theorem moves_bindLabel (place : Place) (name : Ident) :
    Moves φ (bindLabel place name) (bindLabel (place.move φ) (name.move φ)) := by
  simp only [bindLabel, Place.move_id, hφ.shift_eq, Nat.add_zero, Ident.move_name,
    Ident.move_span]
  refine (moves_visit _ _).bind fun _ => (moves_onLibrary fun lib => lib.createLabel_move φ _ _).bind
    fun id => (moves_declareAt _ id).bind fun _ => moves_get_bind fun c => ?_
  rw [Context.move_scopes]
  cases c.scopes.nearestFunction? with
  | some function =>
    exact ((moves_reporting fun lib => lib.addLabel_move hφ function id).bind
      fun _ => moves_pure ()) c
  | none => exact moves_register hφ _ id _ c

theorem moves_passExpr (e : Expr) : Moves φ (passExpr e) (passExpr (e.move φ)) := by
  rw [passExpr, passExpr, Expr.tree_move, Tree.preorder_move]
  refine moves_forM (fun n => ?_) _
  rw [Node.move_id, hφ.shift_eq, Nat.add_zero]
  exact moves_visit _ _

theorem moves_passOption : (e : Option Expr) →
    Moves φ (passOption e) (passOption (e.map (Expr.move φ)))
  | none => moves_pure ()
  | some e => (moves_passExpr hφ e).bind fun _ => moves_pure ()

theorem moves_bindInit : (init : ForInit) → Moves φ (bindInit init) (bindInit (init.move φ))
  | .nothing => moves_pure ()
  | .variable d => moves_bindVariable hφ d
  | .expr e => moves_passExpr hφ e

omit hφ

mutual

theorem moves_bindStmt (hφ : φ.IsRelayout) : (s : Stmt) → Moves φ (bindStmt s) (bindStmt (s.move φ))
  | .label place name => by
    rw [Stmt.move, bindStmt, bindStmt]
    exact moves_bindLabel hφ place name
  | .goto place _ | .breakLoop place | .continueLoop place => by
    simp only [Stmt.move, bindStmt, Place.move_id, hφ.shift_eq, Nat.add_zero]
    exact moves_visit _ _
  | .returns place value => by
    simp only [Stmt.move, bindStmt, Place.move_id, hφ.shift_eq, Nat.add_zero]
    exact (moves_visit _ _).bind fun _ => moves_passOption hφ value
  | .variable d => by
    rw [Stmt.move, bindStmt, bindStmt]
    exact moves_bindVariable hφ d
  | .expr e => by
    rw [Stmt.move, bindStmt, bindStmt]
    exact moves_passExpr hφ e
  | .branch b => by
    rw [Stmt.move, bindStmt, bindStmt]
    exact moves_bindBranch hφ b
  | .whileLoop place condition body => by
    simp only [Stmt.move, bindStmt, Place.move_id, hφ.shift_eq, Nat.add_zero]
    exact (moves_visit _ _).bind fun _ => (moves_passExpr hφ condition).bind fun _ =>
      moves_bindScope hφ body
  | .forLoop place init condition step body => by
    simp only [Stmt.move, bindStmt, Place.move_id, hφ.shift_eq, Nat.add_zero]
    exact (moves_visit _ _).bind fun _ => (moves_bindInit hφ init).bind fun _ =>
      (moves_passOption hφ condition).bind fun _ => (moves_passOption hφ step).bind fun _ =>
        moves_bindScope hφ body

theorem moves_bindBranch (hφ : φ.IsRelayout) : (b : Branch) → Moves φ (bindBranch b) (bindBranch (b.move φ))
  | .mk place condition body otherwise => by
    simp only [Branch.move, bindBranch, Place.move_id, hφ.shift_eq, Nat.add_zero]
    exact (moves_visit _ _).bind fun _ => (moves_passExpr hφ condition).bind fun _ =>
      (moves_bindScope hφ body).bind fun _ => moves_bindOtherwise hφ otherwise

theorem moves_bindOtherwise (hφ : φ.IsRelayout) : (o : Otherwise) →
    Moves φ (bindOtherwise o) (bindOtherwise (o.move φ))
  | .nothing => by
    rw [Otherwise.move]
    exact moves_pure ()
  | .branch b => by
    rw [Otherwise.move, bindOtherwise, bindOtherwise]
    exact moves_bindBranch hφ b
  | .scope s => by
    rw [Otherwise.move, bindOtherwise, bindOtherwise]
    exact moves_bindScope hφ s

theorem moves_bindScope (hφ : φ.IsRelayout) : (s : Scope) → Moves φ (bindScope s) (bindScope (s.move φ))
  | .mk place statements => by
    simp only [Scope.move, bindScope, Place.move_id, hφ.shift_eq, Nat.add_zero]
    exact (moves_visit _ _).bind fun _ => (moves_bindStmts hφ statements).inScope _ _ _

theorem moves_bindStmts (hφ : φ.IsRelayout) : (ss : List Stmt) →
    Moves φ (bindStmts ss) (bindStmts (Stmt.moveAll φ ss))
  | [] => by
    rw [Stmt.moveAll]
    exact moves_pure ()
  | s :: ss => by
    rw [Stmt.moveAll, bindStmts, bindStmts]
    exact (moves_bindStmt hφ s).bind fun _ => moves_bindStmts hφ ss

end

include hφ


theorem moves_bindFunction (d : FunctionDecl) :
    Moves φ (bindFunction d) (bindFunction (d.move φ)) := by
  simp only [bindFunction, FunctionDecl.move, Place.move_id, hφ.shift_eq, Nat.add_zero,
    Ident.move_name, Ident.move_span]
  exact (moves_visit _ _).bind fun _ => (moves_onLibrary fun lib => lib.createFunction_move φ _ _).bind
    fun id => moves_get_bind fun c => (moves_giveType id _).bind (fun _ =>
      (moves_declareAt _ id).bind fun _ =>
        (((moves_forM (moves_bindParameter hφ id) _).bind fun _ =>
          moves_bindScope hφ d.body).inScope _ _ _).bind fun _ => moves_register hφ _ id _) c

theorem moves_bindMember : (m : Member) → Moves φ (bindMember m) (bindMember (m.move φ))
  | .variable d => moves_bindVariable hφ d
  | .function d => moves_bindFunction hφ d

theorem moves_bindClass (d : ClassDecl) : Moves φ (bindClass d) (bindClass (d.move φ)) := by
  simp only [bindClass, ClassDecl.move, Place.move_id, hφ.shift_eq, Nat.add_zero]
  exact (moves_visit _ _).bind fun _ => moves_get_bind fun c =>
    (moves_forM (moves_bindMember hφ) _).inScope _ _ _ c

theorem moves_bindDeclaration : (d : Declaration) →
    Moves φ (bindDeclaration d) (bindDeclaration (d.move φ))
  | .classDecl d => moves_bindClass hφ d
  | .function d => moves_bindFunction hφ d
  | .variable d => moves_bindVariable hφ d

theorem moves_bindBlock (b : Block) : Moves φ (bindBlock b) (bindBlock (b.move φ)) := by
  simp only [bindBlock, Block.move, Place.move_id, hφ.shift_eq, Nat.add_zero]
  exact (moves_visit _ _).bind fun _ => moves_forM (moves_bindDeclaration hφ) _

/-! ## Typing -/

theorem moves_pointerTo (p : SymbolId) :
    Moves φ (some <$> onLibrary (·.pointerTo p)) (some <$> onLibrary (·.pointerTo p)) :=
  (moves_onLibrary fun lib => lib.pointerTo_move hφ p).map some

theorem moves_resultType (result : OperatorResult) (span : Span) :
    Moves φ (resultType result span) (resultType result (φ.span span)) := by
  cases result with
  | same type => exact moves_pure _
  | builtin name => exact moves_builtin name span
  | pointerTo type => exact moves_pointerTo hφ type

theorem moves_pointerToBuiltin (name : String) (span : Span) :
    Moves φ (pointerToBuiltin name span) (pointerToBuiltin name (φ.span span)) := by
  refine (moves_builtin name span).bind fun type => ?_
  cases type with
  | none => exact moves_pure _
  | some id => exact moves_pointerTo hφ id

omit hφ in
theorem moves_typeIdentifier (node : NodeId) (name : Ident) :
    Moves φ (typeIdentifier node name) (typeIdentifier node (name.move φ)) := by
  refine moves_get_bind fun c => ?_
  have hfailed : Moves φ (do report (.symbolNotFound name.name name.span); return none)
      (do report (.symbolNotFound name.name (φ.span name.span)); return none :
        Analyzing (Option SymbolId)) := (moves_report _).bind fun _ => moves_pure none
  simp only [Ident.move_name, Ident.move_span, Context.lookup?_move, Context.symbol?_move]
  cases c.lookup? name.name with
  | none => exact hfailed c
  | some id =>
    cases hsymbol : c.symbol? id with
    | none => simpa only [Option.bind_some, hsymbol, Option.map_none] using hfailed c
    | some symbol =>
      by_cases hvalue : symbol.isValue = true
      · simp only [Option.bind_some, hsymbol, Option.map_some, Symbol.move_isValue,
          Symbol.move_type, hvalue, if_true]
        exact (moves_annotate _).bind (fun _ => moves_pure _) c
      · simp only [Option.bind_some, hsymbol, Option.map_some, Symbol.move_isValue, hvalue,
          Bool.false_eq_true, if_false]
        exact hfailed c

theorem moves_typeValue (place : Place) (v : Value) :
    Moves φ (typeValue place v) (typeValue (place.move φ) (v.move φ)) := by
  cases v with
  | string _ | null => exact moves_pointerToBuiltin hφ _ _
  | identifier name =>
    simp only [Value.move, typeValue, Place.move_id, hφ.shift_eq, Nat.add_zero]
    exact moves_typeIdentifier place.id name
  | _ => exact moves_builtin _ _

theorem moves_typeUnary (span : Span) (op : UnaryOp) (operand : SymbolId) :
    Moves φ (typeUnary span op operand) (typeUnary (φ.span span) op operand) := by
  refine moves_get_bind fun c => ?_
  rw [Context.unaryType?_move, Context.nameOf_move]
  cases c.unaryType? op operand with
  | some result => exact moves_resultType hφ result span c
  | none => exact (moves_report _).bind (fun _ => moves_pure none) c

theorem moves_typeBinary (span : Span) (op : BinaryOp) (left right : SymbolId) :
    Moves φ (typeBinary span op left right) (typeBinary (φ.span span) op left right) := by
  rw [typeBinary_eq, typeBinary_eq]
  refine moves_get_bind fun c => ?_
  rw [Context.binaryType?_move]
  have hrest (type : Option SymbolId) : Moves φ (binaryResult c span op left right type)
      (binaryResult (c.move φ) (φ.span span) op left right type) := by
    rw [binaryResult, binaryResult, Context.nameOf_move, Context.nameOf_move]
    split
    · exact moves_pure _
    · exact (moves_report _).bind fun _ => moves_pure none
  cases c.binaryType? (op.compound?.getD op) left right with
  | some result => exact (moves_resultType hφ result span).bind hrest c
  | none => exact (moves_pure none).bind hrest c

theorem moves_noteAccess (c : Context) (place : Place) (kind : AccessKind) (object : SymbolId)
    (member : Ident) (type : Option TypeSymbol) :
    Moves φ (noteAccess c place kind object member type)
      (noteAccess (c.move φ) (place.move φ) kind object (member.move φ) type) := by
  have htype (id : SymbolId) : ((c.move φ).symbol? id).bind (·.type) =
      (c.symbol? id).bind (·.type) := by
    rw [Context.symbol?_move]
    cases c.symbol? id <;> rfl
  simp only [noteAccess, Context.nameOf_move, Ident.move_name, Ident.move_span, Place.move_id,
    Place.move_span, hφ.shift_eq, Nat.add_zero, htype]
  cases type with
  | none => exact (moves_report _).bind fun _ => moves_pure none
  | some type =>
    dsimp only
    cases type.members.get? member.name with
    | none => exact (moves_report _).bind fun _ => moves_pure none
    | some id => exact (moves_annotate _).bind fun _ => moves_pure _

theorem moves_typeAccess (place : Place) (kind : AccessKind) (object : SymbolId)
    (member : Ident) : Moves φ (typeAccess place kind object member)
      (typeAccess (place.move φ) kind object (member.move φ)) := by
  rw [typeAccess_eq, typeAccess_eq]
  refine moves_get_bind fun c => ?_
  have htype : (c.move φ).type? = c.type? := funext (c.type?_move φ)
  rw [htype, Context.accessed?_move]
  exact moves_noteAccess hφ c place kind object member _ c

omit hφ in
theorem moves_typeCall (span calleeSpan : Span) (callee : SymbolId)
    (arguments : List (Option SymbolId)) :
    Moves φ (typeCall span calleeSpan callee arguments)
      (typeCall (φ.span span) (φ.span calleeSpan) callee arguments) := by
  refine moves_get_bind fun c => ?_
  have hname : (c.move φ).nameOf = c.nameOf := funext (c.nameOf_move φ)
  rw [Context.type?_move, hname]
  rcases (c.type? callee).map TypeSymbol.form with _ | _ | _ | _ | ⟨parameters, result⟩
  case some.function =>
    dsimp only
    cases arguments.mapM id with
    | none => exact moves_pure _ c
    | some arguments =>
      dsimp only
      split
      · exact (moves_report _).bind (fun _ => moves_pure _) c
      · exact moves_pure _ c
  all_goals exact (moves_report _).bind (fun _ => moves_pure none) c

omit hφ in
theorem moves_typeCast (span : Span) (source target : SymbolId) :
    Moves φ (typeCast span source target) (typeCast (φ.span span) source target) := by
  refine moves_get_bind fun c => ?_
  rw [Context.castIsValid_move, Context.nameOf_move, Context.nameOf_move]
  split
  · exact moves_pure _ c
  · exact (moves_report _).bind (fun _ => moves_pure none) c

omit hφ in
theorem moves_typeIndex (span : Span) (target subscript : SymbolId) :
    Moves φ (typeIndex span target subscript) (typeIndex (φ.span span) target subscript) := by
  refine moves_get_bind fun c => ?_
  rw [Context.pointee?_move, Context.isInteger_move, Context.nameOf_move, Context.nameOf_move]
  split
  · exact moves_pure _ c
  · exact (moves_report _).bind (fun _ => moves_pure none) c

omit hφ in
theorem Moves.noting {rule rule' : Analyzing (Option SymbolId)} (h : Moves φ rule rule')
    (node : NodeId) : Moves φ (noting node rule) (noting node rule') := by
  refine (moves_visit _ _).bind fun _ => h.bind fun type => ?_
  cases type with
  | none => exact moves_pure none
  | some type => exact (moves_annotate _).bind fun _ => moves_pure _

omit hφ in
theorem moves_withType {rule rule' : SymbolId → Analyzing (Option SymbolId)}
    (h : ∀ type, Moves φ (rule type) (rule' type)) (operand : Option SymbolId) :
    Moves φ (withType operand rule) (withType operand rule') := by
  cases operand with
  | none => exact moves_pure none
  | some type => exact h type

omit hφ

mutual

theorem moves_typeExpr (hφ : φ.IsRelayout) : (e : Expr) →
    Moves φ (typeExpr e) (typeExpr (e.move φ))
  | .value place v => by
    simp only [Expr.move, typeExpr, Place.move_id, hφ.shift_eq, Nat.add_zero]
    exact (moves_typeValue hφ place v).noting _
  | .unary place op operand => by
    simp only [Expr.move, typeExpr, Place.move_id, hφ.shift_eq, Nat.add_zero]
    exact ((moves_typeExpr hφ operand).bind fun type =>
      moves_withType (moves_typeUnary hφ _ op) type).noting _
  | .binary place op left right => by
    simp only [Expr.move, typeExpr, Place.move_id, hφ.shift_eq, Nat.add_zero]
    exact ((moves_typeExpr hφ left).bind fun leftType => (moves_typeExpr hφ right).bind
      fun rightType => moves_withType (fun left =>
        moves_withType (moves_typeBinary hφ _ op left) rightType) leftType).noting _
  | .access place kind object member => by
    simp only [Expr.move, typeExpr, Place.move_id, hφ.shift_eq, Nat.add_zero]
    exact ((moves_typeExpr hφ object).bind fun type =>
      moves_withType (fun object => moves_typeAccess hφ place kind object member) type).noting _
  | .call place callee arguments => by
    simp only [Expr.move, typeExpr, Place.move_id, hφ.shift_eq, Nat.add_zero, Expr.move_span]
    exact ((moves_typeExpr hφ callee).bind fun type => (moves_typeExprs hφ arguments).bind
      fun types => moves_withType (fun callee => moves_typeCall _ _ callee types) type).noting _
  | .cast place operand target => by
    simp only [Expr.move, typeExpr, Place.move_id, hφ.shift_eq, Nat.add_zero,
      WrittenType.move_place]
    exact ((moves_typeExpr hφ operand).bind fun source => moves_get_bind fun c =>
      moves_withType (fun source => moves_withType (moves_typeCast _ source) _) source c).noting _
  | .index place target subscript => by
    simp only [Expr.move, typeExpr, Place.move_id, hφ.shift_eq, Nat.add_zero]
    exact ((moves_typeExpr hφ target).bind fun targetType => (moves_typeExpr hφ subscript).bind
      fun subscriptType => moves_withType (fun target =>
        moves_withType (moves_typeIndex _ target) subscriptType) targetType).noting _

theorem moves_typeExprs (hφ : φ.IsRelayout) : (es : List Expr) →
    Moves φ (typeExprs es) (typeExprs (Expr.moveAll φ es))
  | [] => moves_pure []
  | e :: es => by
    rw [Expr.moveAll, typeExprs, typeExprs]
    exact (moves_typeExpr hφ e).bind fun _ => (moves_typeExprs hφ es).bind fun _ => moves_pure _

end

theorem moves_mismatch (expected : SymbolId) (found : Option SymbolId) (span : Span) :
    Moves φ (mismatch expected found span) (mismatch expected found (φ.span span)) := by
  refine moves_get_bind fun c => ?_
  have hname : (c.move φ).nameOf = c.nameOf := funext (c.nameOf_move φ)
  rw [hname]
  exact moves_report _ c

include hφ

omit hφ in
theorem moves_declareLocal (node : NodeId) (name : Ident) :
    Moves φ (declareLocal node name) (declareLocal node (name.move φ)) := by
  refine moves_get_bind fun c => ?_
  rw [Context.move_annotations]
  cases c.annotations.symbols.get? node with
  | none => exact moves_pure () c
  | some symbol => exact moves_scopes (·.declare name.name symbol) c

theorem moves_checkInitializer (expected : Option SymbolId) (e : Expr) :
    Moves φ (checkInitializer expected e) (checkInitializer expected (e.move φ)) := by
  refine (moves_typeExpr hφ e).bind fun found => moves_get_bind fun c => ?_
  cases expected with
  | none => exact moves_pure () c
  | some expected =>
    cases found with
    | none => exact moves_pure () c
    | some found =>
      simp only [Context.isPointer_move, Context.isNullPointer_move, Expr.move_span]
      split
      · exact moves_mismatch _ _ _ c
      · exact moves_pure () c

omit hφ in
theorem moves_optionForM {f f' : Expr → Analyzing Unit}
    (h : ∀ e, Moves φ (f e) (f' (e.move φ))) : (e : Option Expr) →
    Moves φ (e.toList.forM f) ((e.map (Expr.move φ)).toList.forM f')
  | none => moves_pure ()
  | some e => (h e).bind fun _ => moves_pure ()

theorem moves_checkVariable (d : VariableDecl) :
    Moves φ (checkVariable d) (checkVariable (d.move φ)) := by
  simp only [checkVariable, VariableDecl.move, Place.move_id, hφ.shift_eq, Nat.add_zero,
    WrittenType.move_place]
  exact (moves_visit _ _).bind fun _ => moves_get_bind fun c =>
    (moves_optionForM (moves_checkInitializer hφ _) d.initializer).bind
      (fun _ => moves_declareLocal _ d.name) c

theorem moves_checkCondition (e : Expr) :
    Moves φ (checkCondition e) (checkCondition (e.move φ)) := by
  refine (moves_typeExpr hφ e).bind fun type => ?_
  cases type with
  | none => exact moves_pure ()
  | some type =>
    refine moves_get_bind fun c => ?_
    simp only [Context.isBooleanOrPointer_move, Context.nameOf_move, Expr.move_span]
    split
    · exact moves_pure () c
    · exact moves_report _ c

theorem moves_checkGoto (place : Place) (label : Ident) :
    Moves φ (checkGoto place label) (checkGoto (place.move φ) (label.move φ)) := by
  simp only [checkGoto, Place.move_id, hφ.shift_eq, Nat.add_zero]
  refine (moves_visit _ _).bind fun _ => moves_get_bind fun c => ?_
  have hfunction : ((c.scopes.nearestFunction?).bind (c.move φ).symbol?).bind Symbol.function? =
      ((c.scopes.nearestFunction?).bind c.symbol?).bind Symbol.function? := by
    cases c.scopes.nearestFunction? with
    | none => rfl
    | some id =>
      rw [Option.bind_some, Option.bind_some, Context.symbol?_move]
      cases c.symbol? id <;> rfl
  rw [Context.move_scopes, hfunction, Ident.move_name]
  split
  · exact moves_annotate _ c
  · exact moves_report _ c

omit hφ in
theorem expectedReturn?_move (hφ : φ.IsRelayout) (c : Context) (node : NodeId) :
    expectedReturn? (c.move φ) node = expectedReturn? c node := by
  have henclosing := c.parents.enclosingFunction?_move φ node
  rw [hφ.shift_eq, Nat.add_zero] at henclosing
  rw [expectedReturn?, expectedReturn?, Context.move_parents, henclosing]
  rcases c.parents.enclosingFunction? node with _ | ⟨place, head⟩
  · rfl
  · cases head with
    | function name parameters result =>
      cases result with
      | none => exact c.globalType?_move φ _
      | some t =>
        simp only [Option.map_some, Node.move_head, Head.move, WrittenType.move_place,
          Place.move_id, hφ.shift_eq, Nat.add_zero, Context.move_annotations]
    | _ => rfl

theorem moves_checkReturn (place : Place) (value : Option Expr) :
    Moves φ (checkReturn place value) (checkReturn (place.move φ) (value.map (Expr.move φ))) := by
  simp only [checkReturn, Place.move_id, hφ.shift_eq, Nat.add_zero]
  refine (moves_visit _ _).bind fun _ => ?_
  cases value with
  | none =>
    refine (moves_pure none).bind fun found => moves_get_bind fun c => ?_
    rw [expectedReturn?_move hφ]
    cases expectedReturn? c place.id with
    | none => exact moves_pure () c
    | some expected =>
      dsimp only [Option.map_none]
      by_cases hvoid : c.isBuiltin expected Library.voidName = true
      · simp only [Context.isBuiltin_move, hvoid, if_true]
        exact moves_pure () c
      · simp only [Context.isBuiltin_move, hvoid, Bool.false_eq_true, if_false]
        exact moves_mismatch _ _ _ c
  | some e =>
    refine (moves_typeExpr hφ e).bind fun found => moves_get_bind fun c => ?_
    rw [expectedReturn?_move hφ]
    cases expectedReturn? c place.id with
    | none => exact moves_pure () c
    | some expected =>
      cases found with
      | none => exact moves_pure () c
      | some found =>
        simp only [Option.map_some, Expr.move_span]
        split
        · exact moves_mismatch _ _ _ c
        · exact moves_pure () c

theorem moves_checkLoopControl (place : Place) :
    Moves φ (checkLoopControl place) (checkLoopControl (place.move φ)) := by
  simp only [checkLoopControl, Place.move_id, hφ.shift_eq, Nat.add_zero]
  refine (moves_visit _ _).bind fun _ => moves_get_bind fun c => ?_
  rw [Context.move_scopes]
  split
  · exact moves_pure () c
  · exact moves_report _ c

theorem moves_checkInit : (init : ForInit) → Moves φ (checkInit init) (checkInit (init.move φ))
  | .nothing => moves_pure ()
  | .variable d => moves_checkVariable hφ d
  | .expr e => (moves_typeExpr hφ e).bind fun _ => moves_pure ()

omit hφ

mutual

theorem moves_checkStmt (hφ : φ.IsRelayout) : (s : Stmt) →
    Moves φ (checkStmt s) (checkStmt (s.move φ))
  | .label place _ => by
    simp only [Stmt.move, checkStmt, Place.move_id, hφ.shift_eq, Nat.add_zero]
    exact moves_visit _ _
  | .goto place label => by
    rw [Stmt.move, checkStmt, checkStmt]
    exact moves_checkGoto hφ place label
  | .returns place value => by
    rw [Stmt.move, checkStmt, checkStmt]
    exact moves_checkReturn hφ place value
  | .breakLoop place | .continueLoop place => by
    rw [Stmt.move, checkStmt, checkStmt]
    exact moves_checkLoopControl hφ place
  | .variable d => by
    rw [Stmt.move, checkStmt, checkStmt]
    exact moves_checkVariable hφ d
  | .expr e => by
    rw [Stmt.move, checkStmt, checkStmt]
    exact (moves_typeExpr hφ e).bind fun _ => moves_pure ()
  | .branch b => by
    rw [Stmt.move, checkStmt, checkStmt]
    exact moves_checkBranch hφ b
  | .whileLoop place condition body => by
    simp only [Stmt.move, checkStmt, Place.move_id, hφ.shift_eq, Nat.add_zero]
    exact (moves_visit _ _).bind fun _ => (moves_checkCondition hφ condition).bind fun _ =>
      (moves_checkScope hφ body).inScope _ _ _
  | .forLoop place init condition step body => by
    simp only [Stmt.move, checkStmt, Place.move_id, hφ.shift_eq, Nat.add_zero]
    exact (moves_visit _ _).bind fun _ => Moves.inScope ((moves_checkInit hφ init).bind fun _ =>
      (moves_optionForM (moves_checkCondition hφ) condition).bind fun _ =>
        (moves_optionForM (fun e => (moves_typeExpr hφ e).bind fun _ => moves_pure ())
          step).bind fun _ => moves_checkScope hφ body) _ _ _

theorem moves_checkBranch (hφ : φ.IsRelayout) : (b : Branch) →
    Moves φ (checkBranch b) (checkBranch (b.move φ))
  | .mk place condition body otherwise => by
    simp only [Branch.move, checkBranch, Place.move_id, hφ.shift_eq, Nat.add_zero]
    exact (moves_visit _ _).bind fun _ => (moves_checkCondition hφ condition).bind fun _ =>
      (moves_checkScope hφ body).bind fun _ => moves_checkOtherwise hφ otherwise

theorem moves_checkOtherwise (hφ : φ.IsRelayout) : (o : Otherwise) →
    Moves φ (checkOtherwise o) (checkOtherwise (o.move φ))
  | .nothing => by
    rw [Otherwise.move]
    exact moves_pure ()
  | .branch b => by
    rw [Otherwise.move, checkOtherwise, checkOtherwise]
    exact moves_checkBranch hφ b
  | .scope s => by
    rw [Otherwise.move, checkOtherwise, checkOtherwise]
    exact moves_checkScope hφ s

theorem moves_checkScope (hφ : φ.IsRelayout) : (s : Scope) →
    Moves φ (checkScope s) (checkScope (s.move φ))
  | .mk place statements => by
    simp only [Scope.move, checkScope, Place.move_id, hφ.shift_eq, Nat.add_zero]
    exact (moves_visit _ _).bind fun _ => (moves_checkStmts hφ statements).inScope _ _ _

theorem moves_checkStmts (hφ : φ.IsRelayout) : (ss : List Stmt) →
    Moves φ (checkStmts ss) (checkStmts (Stmt.moveAll φ ss))
  | [] => by
    rw [Stmt.moveAll]
    exact moves_pure ()
  | s :: ss => by
    rw [Stmt.moveAll, checkStmts, checkStmts]
    exact (moves_checkStmt hφ s).bind fun _ => moves_checkStmts hφ ss

end

include hφ

theorem moves_checkFunction (d : FunctionDecl) :
    Moves φ (checkFunction d) (checkFunction (d.move φ)) := by
  have hparameter (p : Parameter) : Moves φ (checkParameter p) (checkParameter (p.move φ)) := by
    simp only [checkParameter, Parameter.move, Place.move_id, hφ.shift_eq, Nat.add_zero]
    exact (moves_visit _ _).bind fun _ => moves_declareLocal _ p.name
  have hreturns (t : Option WrittenType) :
      Moves φ (t.toList.forM fun t => visit .typing t.place.id)
        ((t.map (WrittenType.move φ)).toList.forM fun t => visit .typing t.place.id) := by
    cases t with
    | none => exact moves_pure ()
    | some t =>
      refine Moves.bind ?_ fun _ => moves_pure ()
      simp only [WrittenType.move_place, Place.move_id, hφ.shift_eq, Nat.add_zero]
      exact moves_visit _ _
  simp only [checkFunction, FunctionDecl.move, Place.move_id, hφ.shift_eq, Nat.add_zero]
  exact (moves_visit _ _).bind fun _ => moves_get_bind fun c => Moves.inScope
    ((moves_forM hparameter _).bind fun _ => (hreturns _).bind fun _ =>
      moves_checkScope hφ d.body) _ _ _ c

theorem moves_checkMember : (m : Member) → Moves φ (checkMember m) (checkMember (m.move φ))
  | .variable d => moves_checkVariable hφ d
  | .function d => moves_checkFunction hφ d

theorem moves_checkClass (d : ClassDecl) : Moves φ (checkClass d) (checkClass (d.move φ)) := by
  simp only [checkClass, ClassDecl.move, Place.move_id, hφ.shift_eq, Nat.add_zero]
  exact (moves_visit _ _).bind fun _ => moves_get_bind fun c =>
    (moves_forM (moves_checkMember hφ) _).inScope _ _ _ c

theorem moves_checkDeclaration : (d : Declaration) →
    Moves φ (checkDeclaration d) (checkDeclaration (d.move φ))
  | .classDecl d => moves_checkClass hφ d
  | .function d => moves_checkFunction hφ d
  | .variable d => moves_checkVariable hφ d

theorem moves_checkBlock (b : Block) : Moves φ (checkBlock b) (checkBlock (b.move φ)) := by
  simp only [checkBlock, Block.move, Place.move_id, hφ.shift_eq, Nat.add_zero]
  exact (moves_visit _ _).bind fun _ => moves_forM (moves_checkDeclaration hφ) _

/-! ## Whole units -/

theorem moves_unit (b : Block) : Moves φ (unit b) (unit (b.move φ)) := by
  refine Moves.bind (moves_modify fun c => ?_) fun _ => (moves_declareClasses hφ b).bind fun _ =>
    ?_
  · rw [Block.tree_move, ParentMap.build_move]
    rfl
  · rw [Block.tree_move]
    exact (moves_resolveTypes hφ b.tree).bind fun _ => (moves_bindBlock hφ b).bind fun _ =>
      moves_checkBlock hφ b

end Analyzing

theorem Library.publishedNames_move (φ : Relocation) (libs : List Library) :
    publishedNames (libs.map (move φ)) = publishedNames libs := by
  simp [publishedNames, List.foldl_map]

theorem Context.start_move (φ : Relocation) (deps : List Library) (target : Library) :
    Context.start (deps.map (Library.move φ)) (target.move φ) =
      (Context.start deps target).move φ := by
  have hlink (lib : Library) : (deps.map (Library.move φ)).foldl Library.link (lib.move φ) =
      (deps.foldl Library.link lib).move φ := by
    induction deps generalizing lib with
    | nil => rfl
    | cons dep deps ih => rw [List.map_cons, List.foldl_cons, List.foldl_cons, ← ih,
        Library.link_move]
  have htarget : (if (target.move φ).symbols.isEmpty then target.move φ
      else (target.move φ).reset) =
        (if target.symbols.isEmpty then target else target.reset).move φ := by
    have hempty : (target.move φ).symbols.isEmpty = target.symbols.isEmpty := by
      simp [Array.isEmpty]
    rw [hempty]
    split
    · rfl
    · simp [Library.reset, Library.move_eq]
  rw [Context.start, Context.start, Library.publishedNames_move]
  simp only [htarget, hlink]
  rfl

/-- The analysis of a unit that is written elsewhere, in libraries that are called otherwise. -/
theorem Block.analyze_move {φ : Relocation} (hφ : φ.IsRelayout) (b : Block)
    (deps : List Library) (target : Library) :
    (b.move φ).analyze (deps.map (Library.move φ)) (target.move φ) =
      (b.analyze deps target).move φ := by
  rw [analyze, analyze, Context.start_move, Analyzing.moves_unit hφ b]

end Sable
