import Sable.Proofs.Analysis.Resolving

/-!
# What the last phase reports

The rules of expressions and the comparisons in statements report what they are about, but never
that a name is taken. A name that is unknown is reported at the place where it is looked up. All of
them but the rule of identifiers leave the symbols of nodes as they are.

## Main definitions

* `Context.Keeps`: what changes when an expression gets its type.
* `Analyzing.Quiet`: a step that keeps the context so, and reports no taken names.

## Main statements

* `Analyzing.quiet_typeUnary` and so on: the rules of expressions.
-/
namespace Sable

/-- An error of this kind is about no taken name, and about no unknown name but at these spans. -/
def SemanticError.IsOther (P : Span → Prop) : SemanticError → Prop
  | .sameName .. => False
  | .symbolNotFound _ span => P span
  | _ => True

/-! ## Quiet steps -/

/-- The library, the visits, the errors and what is known of expressions are all that changes, and
the library gets no symbols but interned types. -/
structure Context.Keeps (c c' : Context) : Prop where
  eq : ∃ library visits errors resolvedTypes members labels, c' = { c with
    library, visits, errors, annotations := { c.annotations with resolvedTypes, members, labels } }
  interns : c.library.Interns c'.library

theorem Context.Keeps.trans {c c' c'' : Context} (h : c.Keeps c') (h' : c'.Keeps c'') :
    c.Keeps c'' where
  eq := by
    obtain ⟨_, _, _, _, _, _, rfl⟩ := h.eq
    obtain ⟨_, _, _, _, _, _, rfl⟩ := h'.eq
    exact ⟨_, _, _, _, _, _, rfl⟩
  interns := h.interns.trans h'.interns

theorem Context.Keeps.scopes_eq {c c' : Context} (h : c.Keeps c') : c'.scopes = c.scopes := by
  obtain ⟨_, _, _, _, _, _, rfl⟩ := h.eq
  rfl

/-- The type whose members are accessed. -/
def Context.accessed? (c : Context) (kind : AccessKind) (type : SymbolId) : Option SymbolId :=
  match kind with
  | .dot => some type
  | .arrow => c.pointee? type

/-- The label that a jump leads to. -/
def Context.jump? (c : Context) (name : String) : Option SymbolId :=
  (((c.scopes.nearestFunction?).bind c.symbol?).bind Symbol.function?).bind (·.labels.get? name)

namespace Analyzing

variable {α β : Type}

/-- Whatever the context is, the step keeps it so. -/
def Keeps (m : Analyzing α) : Prop := ∀ c : Context, c.library.IsApart → c.Keeps (m.run c).2

/-- The step keeps the context, and all that it reports is about other things than taken names, and
about unknown names only at some spans. -/
structure Quiet (P : Span → Prop) (m : Analyzing α) : Prop where
  keeps : m.Keeps
  reports : m.Reports (·.IsOther P)

section Quiet

variable {P : Span → Prop}

/-- A step that only takes notes of expressions. -/
theorem quiet_of_eq {m : Analyzing α} (h : ∀ c : Context, ∃ visits resolvedTypes members labels,
    (m.run c).2 = { c with visits, annotations := { c.annotations with
      resolvedTypes, members, labels } }) : m.Quiet P := by
  refine ⟨fun c _ => ?_, reports_of_errors_eq fun c => ?_⟩
  · obtain ⟨_, _, _, _, heq⟩ := h c
    rw [heq]
    exact ⟨⟨_, _, _, _, _, _, rfl⟩, .refl _⟩
  · obtain ⟨_, _, _, _, heq⟩ := h c
    rw [heq]

theorem quiet_pure (x : α) : (pure x : Analyzing α).Quiet P :=
  quiet_of_eq fun _ => ⟨_, _, _, _, rfl⟩

theorem quiet_get : (get : Analyzing Context).Quiet P := quiet_of_eq fun _ => ⟨_, _, _, _, rfl⟩

theorem quiet_visit (phase : Phase) (node : NodeId) : (visit phase node).Quiet P :=
  quiet_of_eq fun _ => ⟨_, _, _, _, rfl⟩

theorem quiet_resolvedTypes (n : NodeId) (x : SymbolId) :
    (annotate fun a => { a with resolvedTypes := a.resolvedTypes.insert n x }).Quiet P :=
  quiet_of_eq fun _ => ⟨_, _, _, _, rfl⟩

theorem quiet_members (n : NodeId) (x : SymbolId) :
    (annotate fun a => { a with members := a.members.insert n x }).Quiet P :=
  quiet_of_eq fun _ => ⟨_, _, _, _, rfl⟩

theorem quiet_labels (n : NodeId) (x : SymbolId) :
    (annotate fun a => { a with labels := a.labels.insert n x }).Quiet P :=
  quiet_of_eq fun _ => ⟨_, _, _, _, rfl⟩

theorem quiet_report {e : SemanticError} (h : e.IsOther P) : (report e).Quiet P :=
  ⟨fun _ _ => ⟨⟨_, _, _, _, _, _, rfl⟩, .refl _⟩, reports_report h⟩

theorem quiet_pointerTo (p : SymbolId) : (some <$> onLibrary (·.pointerTo p)).Quiet P :=
  ⟨fun _ hc => ⟨⟨_, _, _, _, _, _, rfl⟩, hc.interns_pointerTo p⟩, (reports_onLibrary _).map _⟩

theorem Quiet.bind {m : Analyzing α} {f : α → Analyzing β} (hm : m.Quiet P)
    (hf : ∀ x, (f x).Quiet P) : (m >>= f).Quiet P := by
  refine ⟨fun c hc => ?_, hm.reports.bind fun x => (hf x).reports⟩
  have hfirst := hm.keeps c hc
  exact hfirst.trans ((hf _).keeps _ (hfirst.interns.isApart hc))

theorem quiet_builtin (name : String) {span : Span} (h : P span) : (builtin name span).Quiet P := by
  refine quiet_get.bind fun c => ?_
  split
  · exact quiet_pure _
  · exact Quiet.bind (quiet_report h) fun _ => quiet_pure _

end Quiet

/-! ## Rules of expressions -/

section Rules

variable {P : Span → Prop} {span : Span}

theorem quiet_resultType (result : OperatorResult) (h : P span) :
    (resultType result span).Quiet P := by
  unfold resultType
  split
  · exact quiet_pure _
  · exact quiet_builtin _ h
  · exact quiet_pointerTo _

theorem quiet_pointerToBuiltin (name : String) (h : P span) :
    (pointerToBuiltin name span).Quiet P := by
  refine (quiet_builtin name h).bind fun type => ?_
  split
  · exact quiet_pointerTo _
  · exact quiet_pure _

/-- A literal is unknown if its type is. -/
theorem quiet_typeLiteral {place : Place} {v : Value} (hv : ∀ name, v ≠ .identifier name)
    (h : P place.span) : (typeValue place v).Quiet P := by
  cases v with
  | integer | float | boolean | character => exact quiet_builtin _ h
  | string | null => exact quiet_pointerToBuiltin _ h
  | identifier name => exact absurd rfl (hv name)

theorem quiet_typeUnary (op : UnaryOp) (operand : SymbolId) (h : P span) :
    (typeUnary span op operand).Quiet P := by
  refine quiet_get.bind fun c => ?_
  split
  · exact quiet_resultType _ h
  · exact Quiet.bind (quiet_report trivial) fun _ => quiet_pure _

/-- What a binary operator gives, if the types of its operands go together. -/
def binaryResult (c : Context) (span : Span) (op : BinaryOp) (left right : SymbolId)
    (type : Option SymbolId) : Analyzing (Option SymbolId) := do
  match type.filter fun type => op.compound?.isNone || type == left with
  | some type => return some type
  | none => do
    report (.invalidBinaryOperator op (c.nameOf left) (c.nameOf right) span)
    return none

def operatorResult (result : Option OperatorResult) (span : Span) : Analyzing (Option SymbolId) :=
  match result with
  | some result => resultType result span
  | none => pure none

theorem typeBinary_eq (span : Span) (op : BinaryOp) (left right : SymbolId) :
    typeBinary span op left right = (do
      let c ← get
      let type ← operatorResult (c.binaryType? (op.compound?.getD op) left right) span
      binaryResult c span op left right type) := by
  unfold typeBinary
  congr 1
  funext c
  cases c.binaryType? (op.compound?.getD op) left right <;> rfl

theorem quiet_typeBinary (op : BinaryOp) (left right : SymbolId) (h : P span) :
    (typeBinary span op left right).Quiet P := by
  rw [typeBinary_eq]
  refine quiet_get.bind fun c => ?_
  have hresult : (operatorResult (c.binaryType? (op.compound?.getD op) left right)
      span).Quiet P := by
    unfold operatorResult
    split
    · exact quiet_resultType _ h
    · exact quiet_pure _
  refine hresult.bind fun type => ?_
  unfold binaryResult
  split
  · exact quiet_pure _
  · exact Quiet.bind (quiet_report trivial) fun _ => quiet_pure _

/-- The member of this name is noted, and its type is that of the access. -/
def noteAccess (c : Context) (place : Place) (kind : AccessKind) (object : SymbolId)
    (member : Ident) : Option TypeSymbol → Analyzing (Option SymbolId)
  | none => do
    report (.invalidMemberAccess kind (c.nameOf object) place.span)
    return none
  | some type =>
    match type.members.get? member.name with
    | none => do
      report (.symbolNotFound member.name member.span)
      return none
    | some id => do
      annotate fun a => { a with members := a.members.insert place.id id }
      return (c.symbol? id).bind (·.type)

theorem typeAccess_eq (place : Place) (kind : AccessKind) (object : SymbolId) (member : Ident) :
    typeAccess place kind object member = (do
      let c ← get
      noteAccess c place kind object member
        (((c.accessed? kind object).bind c.type?).filter (·.mode == .classType))) := by
  unfold typeAccess
  congr 1

theorem quiet_typeAccess (place : Place) (kind : AccessKind) (object : SymbolId) {member : Ident}
    (h : P member.span) : (typeAccess place kind object member).Quiet P := by
  rw [typeAccess_eq]
  refine quiet_get.bind fun c => ?_
  unfold noteAccess
  split
  · exact Quiet.bind (quiet_report trivial) fun _ => quiet_pure _
  · split
    · exact Quiet.bind (quiet_report h) fun _ => quiet_pure _
    · exact (quiet_members _ _).bind fun _ => quiet_pure _

/-- The arguments of a call are compared with the parameters, if all have types. -/
def compareArguments (c : Context) (span : Span) (callee : SymbolId)
    (arguments : List (Option SymbolId)) (parameters : List SymbolId) : Analyzing Unit :=
  match arguments.mapM id with
  | some arguments =>
    if arguments ≠ parameters then
      report (.invalidCall (c.nameOf callee) (arguments.map c.nameOf) span)
    else pure ()
  | none => pure ()

theorem typeCall_eq (span calleeSpan : Span) (callee : SymbolId)
    (arguments : List (Option SymbolId)) : typeCall span calleeSpan callee arguments = (do
      let c ← get
      match (c.type? callee).map TypeSymbol.form with
      | some (.function parameters returns) => do
        compareArguments c span callee arguments parameters
        return some returns
      | _ => do
        report (.nonCallableType (c.nameOf callee) calleeSpan)
        return none) := by
  unfold typeCall compareArguments
  congr 1
  funext c
  generalize (c.type? callee).map TypeSymbol.form = form
  rcases form with _ | form
  · rfl
  cases form with
  | function parameters returns =>
    cases arguments.mapM id with
    | none => rfl
    | some arguments =>
      dsimp only
      split <;> rfl
  | _ => rfl

theorem quiet_typeCall (span calleeSpan : Span) (callee : SymbolId)
    (arguments : List (Option SymbolId)) :
    (typeCall span calleeSpan callee arguments).Quiet P := by
  rw [typeCall_eq]
  refine quiet_get.bind fun c => ?_
  split
  · refine Quiet.bind ?_ fun _ => quiet_pure _
    unfold compareArguments
    split
    · split
      · exact quiet_report trivial
      · exact quiet_pure _
    · exact quiet_pure _
  · exact Quiet.bind (quiet_report trivial) fun _ => quiet_pure _

theorem quiet_typeCast (span : Span) (source target : SymbolId) :
    (typeCast span source target).Quiet P := by
  refine quiet_get.bind fun c => ?_
  split
  · exact quiet_pure _
  · exact Quiet.bind (quiet_report trivial) fun _ => quiet_pure _

theorem quiet_typeIndex (span : Span) (target subscript : SymbolId) :
    (typeIndex span target subscript).Quiet P := by
  refine quiet_get.bind fun c => ?_
  split
  · exact quiet_pure _
  · exact Quiet.bind (quiet_report trivial) fun _ => quiet_pure _

end Rules

/-- What is noted when a rule is done. -/
def noteType (node : NodeId) : Option SymbolId → Analyzing (Option SymbolId)
  | some type => do
    annotate fun a => { a with resolvedTypes := a.resolvedTypes.insert node type }
    return some type
  | none => return none

theorem noting_eq (node : NodeId) (rule : Analyzing (Option SymbolId)) : noting node rule = (do
    visit .typing node
    let type ← rule
    noteType node type) := by
  unfold noting
  congr 1

theorem quiet_noteType {P : Span → Prop} (node : NodeId) (type : Option SymbolId) :
    (noteType node type).Quiet P := by
  cases type with
  | none => exact quiet_pure _
  | some type => exact (quiet_resolvedTypes _ _).bind fun _ => quiet_pure _

theorem quiet_withType {P : Span → Prop} (operand : Option SymbolId)
    {rule : SymbolId → Analyzing (Option SymbolId)} (h : ∀ type, (rule type).Quiet P) :
    (withType operand rule).Quiet P := by
  cases operand with
  | none => exact quiet_pure _
  | some type => exact h type

/-! ## Comparisons

Checks of statements compare the type of an expression with what is expected. -/

def compareInitializer (expected : Option SymbolId) (e : Expr) (found : Option SymbolId) :
    Analyzing Unit := do
  let c ← get
  match expected, found with
  | some expected, some found =>
    if found ≠ expected ∧ !(c.isPointer expected && c.isNullPointer found) then
      mismatch expected found e.span
  | _, _ => return

def compareCondition (e : Expr) : Option SymbolId → Analyzing Unit
  | none => return
  | some type => do
    let c ← get
    unless c.isBooleanOrPointer type do
      report (.conditionExpectedBooleanOrPointer (c.nameOf type) e.span)

def compareReturn (place : Place) (value : Option Expr) (found : Option SymbolId) :
    Analyzing Unit := do
  let c ← get
  match expectedReturn? c place.id, value, found with
  | some expected, none, _ =>
    unless c.isBuiltin expected Library.voidName do
      mismatch expected none place.span
  | some expected, some e, some found =>
    if found ≠ expected then
      mismatch expected found e.span
  | _, _, _ => return

/-- The label is noted where the jump stands. -/
def noteLabel (place : Place) (label : Ident) : Option SymbolId → Analyzing Unit
  | some id => annotate fun a => { a with labels := a.labels.insert place.id id }
  | none => report (.symbolNotFound label.name label.span)

def typeOption : Option Expr → Analyzing (Option SymbolId)
  | some e => typeExpr e
  | none => pure none

theorem checkGoto_eq (place : Place) (label : Ident) : checkGoto place label = (do
    visit .typing place.id
    let c ← get
    noteLabel place label (c.jump? label.name)) := rfl

theorem checkInitializer_eq (expected : Option SymbolId) (e : Expr) :
    checkInitializer expected e = (do
      let found ← typeExpr e
      compareInitializer expected e found) := rfl

theorem checkCondition_eq (e : Expr) : checkCondition e = (do
    let found ← typeExpr e
    compareCondition e found) := by
  unfold checkCondition
  congr 1

theorem checkReturn_eq (place : Place) (value : Option Expr) : checkReturn place value = (do
    visit .typing place.id
    let found ← typeOption value
    compareReturn place value found) := by
  cases value <;> rfl

section Comparing

variable {P : Span → Prop}

theorem quiet_mismatch (expected : SymbolId) (found : Option SymbolId) (span : Span) :
    (mismatch expected found span).Quiet P :=
  quiet_get.bind fun _ => quiet_report trivial

theorem quiet_compareInitializer (expected : Option SymbolId) (e : Expr)
    (found : Option SymbolId) : (compareInitializer expected e found).Quiet P := by
  refine quiet_get.bind fun c => ?_
  split
  · split
    · exact quiet_mismatch _ _ _
    · exact quiet_pure ()
  · exact quiet_pure ()

theorem quiet_compareCondition (e : Expr) (found : Option SymbolId) :
    (compareCondition e found).Quiet P := by
  cases found with
  | none => exact quiet_pure ()
  | some type =>
    refine quiet_get.bind fun c => ?_
    split
    · exact quiet_pure ()
    · exact quiet_report trivial

theorem quiet_compareReturn (place : Place) (value : Option Expr) (found : Option SymbolId) :
    (compareReturn place value found).Quiet P := by
  refine quiet_get.bind fun c => ?_
  split
  · split
    · exact quiet_pure ()
    · exact quiet_mismatch _ _ _
  · split
    · exact quiet_mismatch _ _ _
    · exact quiet_pure ()
  · exact quiet_pure ()

theorem quiet_checkGoto (place : Place) {label : Ident} (h : P label.span) :
    (checkGoto place label).Quiet P := by
  rw [checkGoto_eq]
  refine (quiet_visit _ _).bind fun _ => quiet_get.bind fun c => ?_
  unfold noteLabel
  split
  · exact quiet_labels _ _
  · exact quiet_report h

theorem quiet_checkLoopControl (place : Place) : (checkLoopControl place).Quiet P := by
  refine (quiet_visit _ _).bind fun _ => quiet_get.bind fun c => ?_
  split
  · exact quiet_pure ()
  · exact quiet_report trivial

end Comparing

end Analyzing

end Sable
