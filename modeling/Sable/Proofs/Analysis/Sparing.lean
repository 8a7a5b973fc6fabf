import Sable.Proofs.Analysis.Reporting

/-!
# One mistake is reported once

The rule of an expression is applied behind its operands. It reports at most one error, and none if
the type of an operand is not known, since that was reported there. Only a binary operator that
gives a built-in type says twice that this type is missing.

## Main definitions

* `SemanticError.isOfExpression`: the errors that rules of expressions report.
* `Expr.operands`: the expressions whose types a rule takes.
* `Analyzing.typeOperands`, `Analyzing.applyRule`: the two parts of the typing of an expression.
* `Analyzing.Adds`: a step that reports so many errors at most.

## Main statements

* `Analyzing.typeExpr_eq`: an expression is typed by its rule, behind its operands.
* `Analyzing.reports_ofExpression`: what an expression with all its parts can report.
* `Analyzing.own_errors_typeExpr`: what the rule of an expression reports.
-/
namespace Sable

/-- Names that are taken, conditions, jumps and initializers are no concern of an expression. -/
def SemanticError.isOfExpression : SemanticError → Bool
  | .symbolNotFound .. | .invalidIndexer .. | .invalidMemberAccess .. | .invalidBinaryOperator ..
  | .invalidUnaryOperator .. | .nonCallableType .. | .invalidCall .. | .invalidCast .. => true
  | .sameName .. | .conditionExpectedBooleanOrPointer .. | .breakContinueOutsideLoop _
  | .typeMismatch .. => false

namespace Expr

/-- The expressions whose types the rule of an expression takes. -/
def operands : Expr → List Expr
  | .value .. => []
  | .unary _ _ operand => [operand]
  | .binary _ _ left right => [left, right]
  | .access _ _ object _ => [object]
  | .call _ callee arguments => callee :: arguments
  | .cast _ operand _ => [operand]
  | .index _ target subscript => [target, subscript]

/-- Operators, accesses and casts take the types of all their operands. -/
def isOperation : Expr → Bool
  | .unary .. | .binary .. | .access .. | .cast .. | .index .. => true
  | .value .. | .call .. => false

theorem listParts_eq (es : List Expr) : listParts es = es.flatMap parts := by
  induction es with
  | nil => rfl
  | cons e es ih => rw [listParts, ih, List.flatMap_cons]

/-- The parts of an expression are itself and those of its operands. -/
theorem parts_eq_operands (e : Expr) : e.parts = e :: e.operands.flatMap parts := by
  cases e <;> simp [parts, operands, listParts_eq]

theorem mem_parts (e : Expr) : e ∈ e.parts := by
  rw [e.parts_eq_operands]
  exact List.mem_cons_self

theorem parts_subset_of_mem_operands {e o : Expr} (h : o ∈ e.operands) : o.parts ⊆ e.parts := by
  rw [e.parts_eq_operands]
  exact List.subset_cons_of_subset _ fun _ hpart => List.mem_flatMap.2 ⟨o, h, hpart⟩

theorem sizeOf_lt_of_mem_operands {e operand : Expr} (h : operand ∈ e.operands) :
    sizeOf operand < sizeOf e := by
  cases e with
  | value => simp [operands] at h
  | unary | access | cast =>
    obtain rfl := List.mem_singleton.1 h
    simp only [unary.sizeOf_spec, access.sizeOf_spec, cast.sizeOf_spec]
    omega
  | binary | index =>
    simp only [binary.sizeOf_spec, index.sizeOf_spec]
    rcases List.mem_pair.1 h with rfl | rfl <;> omega
  | call place callee arguments =>
    simp only [call.sizeOf_spec]
    rcases List.mem_cons.1 h with rfl | h
    · omega
    · have := List.sizeOf_lt_of_mem h
      omega

/-- What holds of an expression if it holds of its operands holds of all expressions. -/
@[elab_as_elim]
theorem inductionOn {P : Expr → Prop} (h : ∀ e : Expr, (∀ o ∈ e.operands, P o) → P e) (e : Expr) :
    P e :=
  h e fun o _ => inductionOn h o
termination_by sizeOf e
decreasing_by exact sizeOf_lt_of_mem_operands ‹_›

end Expr

namespace Analyzing

variable {α β : Type} {m : Analyzing α}

/-! ## Operands and rules -/

/-- What comes in front of the rule of an expression. -/
def typeOperands (e : Expr) : Analyzing (List (Option SymbolId)) := do
  visit .typing e.id
  typeExprs e.operands

/-- The rule of an expression, for the types of its operands. -/
def applyRule : Expr → List (Option SymbolId) → Analyzing (Option SymbolId)
  | .value place v, _ => typeValue place v
  | .unary place op _, [operand] => withType operand fun operand => typeUnary place.span op operand
  | .binary place op _ _, [left, right] =>
    withType left fun left => withType right fun right => typeBinary place.span op left right
  | .access place kind _ member, [object] =>
    withType object fun object => typeAccess place kind object member
  | .call place callee _, type :: arguments =>
    withType type fun type => typeCall place.span callee.span type arguments
  | .cast place _ target, [source] => do
    let target := (← get).annotations.declaredTypes.get? target.place.id
    withType source fun source => withType target fun target => typeCast place.span source target
  | .index place _ _, [target, subscript] =>
    withType target fun target => withType subscript fun subscript =>
      typeIndex place.span target subscript
  | _, _ => return none

theorem typeExpr_eq (e : Expr) : typeExpr e = (do
    let types ← typeOperands e
    let type ← applyRule e types
    noteType e.id type) := by
  cases e <;> rw [typeExpr, noting_eq] <;> rfl

/-! ## How much is reported -/

/-- Behind `c`, the step adds errors that satisfy `S`, and it notes nothing but symbols and
members. -/
def AddsAt (c : Context) (S : List SemanticError → Prop) (m : Analyzing α) : Prop :=
  ∃ es, (m.run c).2.errors = c.errors ++ es ∧ S es ∧
    ∃ symbols members, (m.run c).2.annotations = { c.annotations with symbols, members }

/-- So many errors at most, and all of them of expressions. -/
def AreFew (n : Nat) (es : List SemanticError) : Prop :=
  es.length ≤ n ∧ ∀ e ∈ es, e.isOfExpression = true

/-- The step adds at most `n` errors of expressions, and it notes nothing but symbols and
members. -/
def Adds (n : Nat) (m : Analyzing α) : Prop := ∀ c, m.AddsAt c (AreFew n)

theorem AddsAt.mono {c : Context} {S S' : List SemanticError → Prop} (h : m.AddsAt c S)
    (hS : ∀ es, S es → S' es) : m.AddsAt c S' := by
  obtain ⟨es, heq, hes, htypes⟩ := h
  exact ⟨es, heq, hS es hes, htypes⟩

theorem adds_of_eq (h : ∀ c : Context, (m.run c).2.errors = c.errors ∧
    ∃ symbols members, (m.run c).2.annotations = { c.annotations with symbols, members }) (n : Nat) :
    m.Adds n :=
  fun c => ⟨[], by rw [(h c).1, List.append_nil], ⟨n.zero_le, by simp⟩, (h c).2⟩

theorem adds_pure (x : α) (n : Nat) : (pure x : Analyzing α).Adds n :=
  adds_of_eq (fun _ => ⟨rfl, _, _, rfl⟩) n

theorem adds_get_bind {n : Nat} {f : Context → Analyzing α} (h : ∀ c, (f c).Adds n) :
    (get >>= f).Adds n := fun c => h c c

theorem adds_report_bind {e : SemanticError} (h : e.isOfExpression = true) (x : α) :
    (do report e; return x : Analyzing α).Adds 1 :=
  fun _ => ⟨[e], rfl, ⟨Nat.le_refl 1, by simpa using h⟩, _, _, rfl⟩

theorem adds_onLibrary_map (f : Library → SymbolId × Library) (n : Nat) :
    (some <$> onLibrary f).Adds n :=
  adds_of_eq (fun _ => ⟨rfl, _, _, rfl⟩) n

theorem adds_builtin (name : String) (span : Span) : (builtin name span).Adds 1 := by
  refine adds_get_bind fun c => ?_
  split
  · exact adds_pure _ 1
  · exact adds_report_bind rfl _

theorem Adds.bind {n k : Nat} (h : m.Adds n) {f : α → Analyzing β} (hf : ∀ x, (f x).Adds k) :
    (m >>= f).Adds (n + k) := by
  intro c
  obtain ⟨es, heq, ⟨hlength, hes⟩, symbols, members, hnotes⟩ := h c
  obtain ⟨es', heq', ⟨hlength', hes'⟩, symbols', members', hnotes'⟩ := hf (m.run c).1 (m.run c).2
  refine ⟨es ++ es', ?_, ⟨?_, List.forall_mem_append.2 ⟨hes, hes'⟩⟩, symbols', members', ?_⟩
  · rw [run_bind, heq', heq, List.append_assoc]
  · rw [List.length_append]
    exact Nat.add_le_add hlength hlength'
  · rw [run_bind, hnotes', hnotes]

theorem adds_pointerToBuiltin (name : String) (span : Span) :
    (pointerToBuiltin name span).Adds 1 := by
  refine (adds_builtin name span).bind (k := 0) fun type => ?_
  split
  · exact adds_onLibrary_map _ 0
  · exact adds_pure _ 0

theorem adds_resultType (result : OperatorResult) (span : Span) :
    (resultType result span).Adds 1 := by
  unfold resultType
  split
  · exact adds_pure _ 1
  · exact adds_builtin _ span
  · exact adds_onLibrary_map _ 1

/-! ## The rules -/

theorem adds_typeIdentifier (node : NodeId) (name : Ident) : (typeIdentifier node name).Adds 1 := by
  refine adds_get_bind fun c => ?_
  split
  · split
    · exact adds_of_eq (fun _ => ⟨rfl, _, _, rfl⟩) 1
    · exact adds_report_bind rfl _
  · exact adds_report_bind rfl _

theorem adds_typeValue (place : Place) (v : Value) : (typeValue place v).Adds 1 := by
  cases v with
  | integer | float | boolean | character => exact adds_builtin _ _
  | string | null => exact adds_pointerToBuiltin _ _
  | identifier name => exact adds_typeIdentifier _ name

theorem adds_typeUnary (span : Span) (op : UnaryOp) (operand : SymbolId) :
    (typeUnary span op operand).Adds 1 := by
  refine adds_get_bind fun c => ?_
  split
  · exact adds_resultType _ span
  · exact adds_report_bind rfl _

theorem adds_typeAccess (place : Place) (kind : AccessKind) (object : SymbolId) (member : Ident) :
    (typeAccess place kind object member).Adds 1 := by
  rw [typeAccess_eq]
  refine adds_get_bind fun c => ?_
  unfold noteAccess
  split
  · exact adds_report_bind rfl _
  · split
    · exact adds_report_bind rfl _
    · exact adds_of_eq (fun _ => ⟨rfl, _, _, rfl⟩) 1

theorem adds_typeCall (span calleeSpan : Span) (callee : SymbolId)
    (arguments : List (Option SymbolId)) : (typeCall span calleeSpan callee arguments).Adds 1 := by
  refine adds_get_bind fun c => ?_
  split
  · split
    · split
      · exact adds_report_bind rfl _
      · exact adds_pure _ 1
    · exact adds_pure _ 1
  · exact adds_report_bind rfl _

theorem adds_typeCast (span : Span) (source target : SymbolId) :
    (typeCast span source target).Adds 1 := by
  refine adds_get_bind fun c => ?_
  split
  · exact adds_pure _ 1
  · exact adds_report_bind rfl _

theorem adds_typeIndex (span : Span) (target subscript : SymbolId) :
    (typeIndex span target subscript).Adds 1 := by
  refine adds_get_bind fun c => ?_
  split
  · exact adds_pure _ 1
  · exact adds_report_bind rfl _

theorem adds_binaryResult (c : Context) (span : Span) (op : BinaryOp) (left right : SymbolId)
    (type : Option SymbolId) : (binaryResult c span op left right type).Adds 1 := by
  unfold binaryResult
  split
  · exact adds_pure _ 1
  · exact adds_report_bind rfl _

end Analyzing

/-- The errors of a binary operator between operands whose types go together, if the built-in type
that it gives is missing. -/
def Context.Lacks (c : Context) (e : Expr) (es : List SemanticError) : Prop :=
  ∃ place op left right x y name, e = .binary place op left right ∧
    c.binaryType? (op.compound?.getD op) x y = some (.builtin name) ∧ c.globalType? name = none ∧
    es = [.symbolNotFound name place.span,
      .invalidBinaryOperator op (c.nameOf x) (c.nameOf y) place.span]

/-- What an expression with operands of these types is reported for. -/
structure Context.IsOwn (c : Context) (e : Expr) (types : List (Option SymbolId))
    (es : List SemanticError) : Prop where
  ofExpression : ∀ error ∈ es, error.isOfExpression = true
  single : es.length ≤ 1 ∨ c.Lacks e es
  typed : e.isOperation = true → es ≠ [] → ∀ type ∈ types, type.isSome = true

namespace Analyzing

variable {c : Context}

theorem addsAt_typeBinary (place : Place) (op : BinaryOp) (left right : Expr) (x y : SymbolId) :
    (typeBinary place.span op x y).AddsAt c fun es => (∀ e ∈ es, e.isOfExpression = true) ∧
      (es.length ≤ 1 ∨ c.Lacks (.binary place op left right) es) := by
  -- behind a step that reports nothing, only the operator is reported
  have hsilent : ∀ {m : Analyzing (Option SymbolId)}, m.Adds 0 →
      (m >>= binaryResult c place.span op x y).AddsAt c fun es =>
        (∀ e ∈ es, e.isOfExpression = true) ∧
          (es.length ≤ 1 ∨ c.Lacks (.binary place op left right) es) :=
    fun hm => (hm.bind (adds_binaryResult c place.span op x y) c).mono fun _ h => ⟨h.2, .inl h.1⟩
  have hrun : (typeBinary place.span op x y).run c =
      (operatorResult (c.binaryType? (op.compound?.getD op) x y) place.span >>=
        binaryResult c place.span op x y).run c := by
    rw [typeBinary_eq]
    rfl
  rw [AddsAt, hrun]
  cases hresult : c.binaryType? (op.compound?.getD op) x y with
  | none => exact hsilent (adds_pure _ 0)
  | some result =>
    match result with
    | .same _ => exact hsilent (adds_pure _ 0)
    | .pointerTo _ => exact hsilent (adds_onLibrary_map _ 0)
    | .builtin name =>
      rw [operatorResult, resultType, run_bind, run_builtin]
      cases hname : c.globalType? name with
      | some type =>
        exact (adds_binaryResult c place.span op x y (some type) c).mono fun _ h => ⟨h.2, .inl h.1⟩
      | none =>
        exact ⟨_, List.append_assoc ..,
          ⟨by simp [SemanticError.isOfExpression],
            .inr ⟨_, _, _, _, _, _, _, rfl, hresult, hname, rfl⟩⟩, _, _, rfl⟩

/-- Operands of no type are no concern of a rule. -/
theorem addsAt_withType {S : List SemanticError → Prop} (hS : S []) {operand : Option SymbolId}
    {rule : SymbolId → Analyzing (Option SymbolId)}
    (h : ∀ x, operand = some x → (rule x).AddsAt c S) : (withType operand rule).AddsAt c S := by
  cases operand with
  | none => exact ⟨[], (List.append_nil _).symm, hS, _, _, rfl⟩
  | some x => exact h x rfl

theorem Adds.isOwn {m : Analyzing α} (h : m.Adds 1) {e : Expr} {types : List (Option SymbolId)}
    (htypes : e.isOperation = true → ∀ type ∈ types, type.isSome = true) :
    m.AddsAt c (c.IsOwn e types) :=
  (h c).mono fun _ hes => ⟨hes.2, .inl hes.1, fun he _ => htypes he⟩

/-- What a rule reports. -/
theorem addsAt_applyRule (e : Expr) (types : List (Option SymbolId))
    (hlength : types.length = e.operands.length) :
    (applyRule e types).AddsAt c (c.IsOwn e types) := by
  have hnil : c.IsOwn e types [] := ⟨by simp, .inl (Nat.zero_le 1), fun _ h => absurd rfl h⟩
  match e, types, hlength with
  | .value place v, [], _ => exact (adds_typeValue place v).isOwn (by simp)
  | .unary place op _, [_], _ =>
    refine addsAt_withType hnil fun x hx => ?_
    exact (adds_typeUnary place.span op x).isOwn (by simp [hx])
  | .binary place op left right, [_, _], _ =>
    refine addsAt_withType hnil fun x hx => addsAt_withType hnil fun y hy => ?_
    exact (addsAt_typeBinary place op left right x y).mono fun _ h => ⟨h.1, h.2, by simp [hx, hy]⟩
  | .access place kind _ member, [_], _ =>
    refine addsAt_withType hnil fun x hx => ?_
    exact (adds_typeAccess place kind x member).isOwn (by simp [hx])
  | .call place callee _, type :: arguments, _ =>
    refine addsAt_withType hnil fun x _ => ?_
    exact (adds_typeCall place.span callee.span x arguments).isOwn (by simp [Expr.isOperation])
  | .cast place _ target, [_], _ =>
    refine addsAt_withType hnil fun x hx => addsAt_withType hnil fun y _ => ?_
    exact (adds_typeCast place.span x y).isOwn (by simp [hx])
  | .index place _ _, [_, _], _ =>
    refine addsAt_withType hnil fun x hx => addsAt_withType hnil fun y hy => ?_
    exact (adds_typeIndex place.span x y).isOwn (by simp [hx, hy])

/-! ## Types that are noted -/

theorem noteType_effect (node : NodeId) (type : Option SymbolId) (c : Context) :
    ((noteType node type).run c).1 = type ∧ ((noteType node type).run c).2.errors = c.errors ∧
      (∀ n, (c.annotations.resolvedTypes.get? n).isSome = true →
        (((noteType node type).run c).2.annotations.resolvedTypes.get? n).isSome = true) ∧
      (type.isSome = true →
        (((noteType node type).run c).2.annotations.resolvedTypes.get? node).isSome = true) := by
  cases type with
  | none => exact ⟨rfl, rfl, fun _ h => h, by simp⟩
  | some x =>
    refine ⟨rfl, rfl, fun n hn => ?_, fun _ => ?_⟩
    · change ((c.annotations.resolvedTypes.insert node x).get? n).isSome = true
      rw [OrderedMap.get?_insert]
      split
      · rfl
      · exact hn
    · change ((c.annotations.resolvedTypes.insert node x).get? node).isSome = true
      rw [OrderedMap.get?_insert, if_pos rfl]
      rfl

/-- Types that are noted stay so, and an expression for which there is a type has it noted. -/
def NotesType (e : Expr) : Prop :=
  ∀ c : Context, (∀ n, (c.annotations.resolvedTypes.get? n).isSome = true →
      (((typeExpr e).run c).2.annotations.resolvedTypes.get? n).isSome = true) ∧
    (((typeExpr e).run c).1.isSome = true →
      (((typeExpr e).run c).2.annotations.resolvedTypes.get? e.id).isSome = true)

theorem notesTypes_typeExprs (es : List Expr) (h : ∀ e ∈ es, NotesType e) (c : Context) :
    (∀ n, (c.annotations.resolvedTypes.get? n).isSome = true →
      (((typeExprs es).run c).2.annotations.resolvedTypes.get? n).isSome = true) ∧
    ((∀ type ∈ ((typeExprs es).run c).1, type.isSome = true) → ∀ e ∈ es,
      (((typeExprs es).run c).2.annotations.resolvedTypes.get? e.id).isSome = true) := by
  induction es generalizing c with
  | nil => exact ⟨fun _ h => h, by simp⟩
  | cons e es ih =>
    rw [List.forall_mem_cons] at h
    obtain ⟨hkeep, htype⟩ := h.1 c
    obtain ⟨hkeep', htypes⟩ := ih h.2 ((typeExpr e).run c).2
    have hrun : (typeExprs (e :: es)).run c = (((typeExpr e).run c).1 ::
        ((typeExprs es).run ((typeExpr e).run c).2).1,
        ((typeExprs es).run ((typeExpr e).run c).2).2) := by
      rw [typeExprs]
      rfl
    rw [hrun]
    refine ⟨fun n hn => hkeep' n (hkeep n hn), fun hsome => ?_⟩
    rw [List.forall_mem_cons] at hsome ⊢
    exact ⟨hkeep' _ (htype hsome.1), htypes hsome.2⟩

theorem length_typeExprs (es : List Expr) (c : Context) :
    ((typeExprs es).run c).1.length = es.length := by
  induction es generalizing c with
  | nil => rfl
  | cons e es ih =>
    rw [typeExprs]
    exact congrArg (· + 1) (ih _)

/-- An expression is typed behind its operands: its rule reports what is its own, and then its type
is noted. -/
theorem run_typeExpr (e : Expr) (c : Context) :
    let operands := (typeOperands e).run c
    let applied := (applyRule e operands.1).run operands.2
    (typeExpr e).run c = (noteType e.id applied.1).run applied.2 := by
  rw [typeExpr_eq]
  rfl

theorem notesType (e : Expr) : NotesType e := by
  induction e using Expr.inductionOn with
  | h e ih =>
    intro c
    obtain ⟨hkeep, -⟩ := notesTypes_typeExprs e.operands ih
      { c with visits := ⟨.typing, e.id, c.scopes.entries⟩ :: c.visits }
    obtain ⟨_, -, -, _, _, hnotes⟩ := addsAt_applyRule e ((typeOperands e).run c).1
      (length_typeExprs ..) (c := ((typeOperands e).run c).2)
    obtain ⟨hanswer, -, hstay, hnote⟩ := noteType_effect e.id
      ((applyRule e ((typeOperands e).run c).1).run ((typeOperands e).run c).2).1
      ((applyRule e ((typeOperands e).run c).1).run ((typeOperands e).run c).2).2
    rw [run_typeExpr]
    refine ⟨fun n hn => hstay n ?_, fun htype => hnote ?_⟩
    · rw [hnotes]
      exact hkeep n hn
    · rwa [hanswer] at htype

theorem reports_operands {S : SemanticError → Prop} {es : List Expr}
    (h : ∀ e ∈ es, (typeExpr e).Reports S) : (typeExprs es).Reports S := by
  induction es with
  | nil => exact reports_pure _
  | cons e es ih =>
    rw [List.forall_mem_cons] at h
    rw [typeExprs]
    exact h.1.bind fun _ => (ih h.2).bind fun _ => reports_pure _

/-- What an expression with all its parts can report. -/
theorem reports_ofExpression (e : Expr) : (typeExpr e).Reports (·.isOfExpression = true) := by
  induction e using Expr.inductionOn with
  | h e ih =>
    intro c
    obtain ⟨es, heq, hes⟩ := reports_operands ih
      { c with visits := ⟨.typing, e.id, c.scopes.entries⟩ :: c.visits }
    obtain ⟨own, hown, hofExpression, -⟩ := addsAt_applyRule e
      ((typeOperands e).run c).1 (length_typeExprs ..) (c := ((typeOperands e).run c).2)
    obtain ⟨-, hnote, -⟩ := noteType_effect e.id
      ((applyRule e ((typeOperands e).run c).1).run ((typeOperands e).run c).2).1
      ((applyRule e ((typeOperands e).run c).1).run ((typeOperands e).run c).2).2
    refine ⟨es ++ own, ?_, List.forall_mem_append.2 ⟨hes, hofExpression.ofExpression⟩⟩
    rw [run_typeExpr, hnote, hown, ← List.append_assoc, ← heq]
    rfl

/-- Behind its operands, an expression is reported once at most, and an operator only if all its
operands have types. Only if the built-in type that a binary operator gives is missing, this is
reported and the operator as well. -/
theorem own_errors_typeExpr (e : Expr) (c : Context) :
    let before := ((typeOperands e).run c).2
    let after := ((typeExpr e).run c).2
    ∃ own, after.errors = before.errors ++ own ∧ (own.length ≤ 1 ∨ before.Lacks e own) ∧
      (e.isOperation = true → own ≠ [] →
        ∀ operand ∈ e.operands, (after.annotations.resolvedTypes.get? operand.id).isSome = true) := by
  intro before after
  obtain ⟨own, herrors, hown, _, _, hnotes⟩ := addsAt_applyRule e ((typeOperands e).run c).1
    (length_typeExprs ..) (c := before)
  obtain ⟨-, hnote, hstay, -⟩ := noteType_effect e.id
    ((applyRule e ((typeOperands e).run c).1).run before).1
    ((applyRule e ((typeOperands e).run c).1).run before).2
  have hafter : after = ((noteType e.id ((applyRule e ((typeOperands e).run c).1).run before).1).run
      ((applyRule e ((typeOperands e).run c).1).run before).2).2 := by
    rw [← run_typeExpr]
  refine ⟨own, ?_, hown.single, fun he hne operand hoperand => ?_⟩
  · rw [hafter, hnote, herrors]
  · obtain ⟨-, hoperands⟩ := notesTypes_typeExprs e.operands (fun e _ => notesType e)
      { c with visits := ⟨.typing, e.id, c.scopes.entries⟩ :: c.visits }
    rw [hafter]
    refine hstay _ ?_
    rw [hnotes]
    exact hoperands (hown.typed he hne) operand hoperand

end Analyzing

/-- Against a library that has integers but no truth values, the one comparison of a unit is reported
twice. -/
theorem Block.analyze_without_boolean :
    let numbers := ((Library.new 0 "numbers").createType Library.integerName true .dummy).2
    let one : Expr := .value ⟨1, ⟨18, 19, 0⟩⟩ (.integer 1)
    let two : Expr := .value ⟨2, ⟨22, 23, 0⟩⟩ (.integer 2)
    let less : Expr := .binary ⟨3, ⟨18, 23, 0⟩⟩ .less one two
    let x : VariableDecl := ⟨⟨4, ⟨0, 24, 0⟩⟩, ⟨"x", ⟨4, 5, 0⟩⟩,
      ⟨⟨0, ⟨8, 15, 0⟩⟩, ⟨Library.integerName, ⟨8, 15, 0⟩⟩, 0⟩, some less⟩
    let unit : Block := ⟨⟨5, ⟨0, 24, 0⟩⟩, [.variable x]⟩
    let errors := [.symbolNotFound Library.booleanName less.span,
      .invalidBinaryOperator .less Library.integerName Library.integerName less.span]
    (unit.analyze [numbers] (.new 1 "unit")).errors = errors ∧
      ((Analyzing.typeOperands less).run (.start [numbers] (.new 1 "unit"))).2.errors = [] ∧
      ((Analyzing.typeExpr less).run (.start [numbers] (.new 1 "unit"))).2.errors = errors := by
  decide +kernel

end Sable
