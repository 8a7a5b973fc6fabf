import Sable.Proofs.Analysis.Integrity
import Sable.Proofs.Symbol.Starring

/-!
# Pointer types in an analysis

An analysis points to known types only. So it names its pointer types after what they lead to, in
whatever phase it makes them and whether or not it reports errors.

## Main definitions

* `Context.IsStarred`: the library is starred, and what is known by name is known to it.
* `Analyzing.Furthers`: a step that keeps a context starred.

## Main statements

* `Analyzing.furthers_declareClasses`: the first phase.
* `Analyzing.furthers_typeExpr`, `Block.Step.furthers`: the last phase.
-/
namespace Sable

open SymbolSort

/-- The library names its pointer types after what they lead to, and knows what the unit can name
and what its written types stand for. -/
structure Context.IsStarred (c : Context) : Prop where
  library : c.library.IsStarred
  globals : ∀ name x, c.globals.get? name = some x → c.library.Knows Any x
  declaredTypes : ∀ n x, c.annotations.declaredTypes.get? n = some x → c.library.Knows IsType x

namespace Context.IsStarred

variable {c : Context} {lib : Library}

theorem evolve (h : c.IsStarred) (hlib : c.library.Furthers lib) :
    { c with library := lib }.IsStarred where
  library := hlib.isStarred
  globals name x hx := hlib.knows (h.globals name x hx)
  declaredTypes n x hx := hlib.knows (h.declaredTypes n x hx)

end Context.IsStarred

namespace Analyzing

variable {α β : Type} {lib : Library}

/-- A starred context with this library is starred behind the step, and the library has more. Of the
result and the library then `Q` holds. -/
def Furthers (lib : Library) (m : Analyzing α) (Q : α → Library → Prop) : Prop :=
  ∀ ⦃c : Context⦄, c.IsStarred → c.library = lib →
    (m.run c).2.IsStarred ∧ lib.Extends (m.run c).2.library ∧ Q (m.run c).1 (m.run c).2.library

/-- The type that a step finds, if it finds one, is known. -/
def Known (r : Option SymbolId) (lib : Library) : Prop := ∀ x, r = some x → lib.Knows IsType x

theorem known_none : Known none lib := nofun

theorem known_some {x : SymbolId} (h : lib.Knows IsType x) : Known (some x) lib :=
  fun _ hx => Option.some.inj hx ▸ h

theorem Known.extends {lib' : Library} {r : Option SymbolId} (h : Known r lib)
    (hext : lib.Extends lib') : Known r lib' := fun x hx => hext.knows (h x hx)

/-! ## Combining steps -/

section Combining

variable {m : Analyzing α} {P Q : α → Library → Prop} {R : β → Library → Prop}

theorem Furthers.bind {f : α → Analyzing β} (hm : Furthers lib m P)
    (hf : ∀ x lib', lib.Extends lib' → P x lib' → Furthers lib' (f x) R) :
    Furthers lib (m >>= f) R := by
  intro c hc hlib
  obtain ⟨hc', hext, hP⟩ := hm hc hlib
  obtain ⟨hc'', hext', hR⟩ := hf _ _ hext hP hc' rfl
  exact ⟨hc'', hext.trans hext', hR⟩

theorem furthers_pure {x : α} (h : Q x lib) : Furthers lib (pure x) Q := by
  rintro c hc rfl
  exact ⟨hc, .refl _, h⟩

/-- A step that asks about the context first. -/
theorem furthers_get_bind {f : Context → Analyzing β}
    (hf : ∀ c : Context, c.IsStarred → c.library = lib → Furthers lib (f c) R) :
    Furthers lib (get >>= f) R :=
  fun c hc hlib => hf c hc hlib hc hlib

/-- A step that touches neither the library nor what is known to it. -/
theorem furthers_modify {f : Context → Context} (h : ∀ c, (f c).library = c.library ∧
    (f c).globals = c.globals ∧ (f c).annotations.declaredTypes = c.annotations.declaredTypes) :
    Furthers lib (modify f) fun _ _ => True := by
  rintro c hc rfl
  obtain ⟨hlib, hglobals, hdeclared⟩ := h c
  change (f c).IsStarred ∧ c.library.Extends (f c).library ∧ True
  refine ⟨⟨hlib ▸ hc.library, fun name x hx => ?_, fun n x hx => ?_⟩, hlib ▸ .refl _, trivial⟩
  · rw [hlib]
    exact hc.globals name x (hglobals ▸ hx)
  · rw [hlib]
    exact hc.declaredTypes n x (hdeclared ▸ hx)

theorem furthers_report (e : SemanticError) : Furthers lib (report e) fun _ _ => True :=
  furthers_modify fun _ => ⟨rfl, rfl, rfl⟩

theorem furthers_visit (phase : Phase) (n : NodeId) :
    Furthers lib (visit phase n) fun _ _ => True :=
  furthers_modify fun _ => ⟨rfl, rfl, rfl⟩

theorem furthers_annotate {f : Annotations → Annotations}
    (h : ∀ a, (f a).declaredTypes = a.declaredTypes) :
    Furthers lib (annotate f) fun _ _ => True :=
  furthers_modify fun c => ⟨rfl, rfl, h c.annotations⟩

/-- Whatever is reported, nothing is found. -/
theorem furthers_none (e : SemanticError) : Furthers lib (do
    report e
    return none) Known :=
  (furthers_report e).bind fun _ _ _ _ => furthers_pure known_none

theorem furthers_some {x : SymbolId} (h : lib.Knows IsType x) :
    Furthers lib (pure (some x)) Known :=
  furthers_pure (known_some h)

theorem furthers_onLibrary {f : Library → α × Library}
    (h : lib.IsStarred → lib.Furthers (f lib).2 ∧ Q (f lib).1 (f lib).2) :
    Furthers lib (onLibrary f) Q := by
  rintro c hc rfl
  obtain ⟨hstep, hQ⟩ := h hc.library
  exact ⟨hc.evolve hstep, hstep.toExtends, hQ⟩

theorem furthers_reporting {f : Library → Except SemanticError α × Library}
    (h : lib.IsStarred → lib.Furthers (f lib).2 ∧ ∀ x, (f lib).1 = .ok x → Q x (f lib).2) :
    Furthers lib (reporting f) fun r lib' => ∀ x, r = some x → Q x lib' := by
  refine (furthers_onLibrary (Q := fun r lib' => ∀ x, r = .ok x → Q x lib') h).bind
    fun r lib' _ hr => ?_
  cases r with
  | ok x => exact furthers_pure fun y hy => Option.some.inj hy ▸ hr x rfl
  | error e => exact (furthers_report e).bind fun _ _ _ _ => furthers_pure nofun

theorem furthers_forM {f : β → Analyzing Unit} {xs : List β}
    (h : ∀ x ∈ xs, ∀ lib', Furthers lib' (f x) fun _ _ => True) :
    Furthers lib (xs.forM f) fun _ _ => True := by
  induction xs generalizing lib with
  | nil => exact furthers_pure trivial
  | cons x xs ih =>
    rw [List.forall_mem_cons] at h
    change Furthers lib (f x >>= fun _ => xs.forM f) _
    exact (h.1 lib).bind fun _ _ _ _ => ih h.2

theorem furthers_of_remarks {m : Analyzing Unit} (h : Remarks m) :
    Furthers lib m fun _ _ => True := by
  rintro c hc rfl
  obtain ⟨visits, es, hrun⟩ := h c
  rw [hrun]
  exact ⟨⟨hc.library, hc.globals, hc.declaredTypes⟩, .refl _, trivial⟩

end Combining

theorem knows_of_globalType? {c : Context} {name : String} {x : SymbolId}
    (h : c.globalType? name = some x) : c.library.Knows IsType x := by
  obtain ⟨t, ht⟩ := Option.isSome_iff_exists.1 (Option.filter_eq_some_iff.1 h).2
  exact Library.knows_isType_of_type? ht

theorem furthers_builtin (name : String) (span : Span) : Furthers lib (builtin name span) Known := by
  refine furthers_get_bind fun c _ hlib => ?_
  split
  · next x hx => exact furthers_some (hlib ▸ knows_of_globalType? hx)
  · exact furthers_none _

/-! ## Classes -/

theorem furthers_declareGlobal (name : String) (span : Span) {x : SymbolId}
    (hx : lib.Knows IsType x) : Furthers lib (declareGlobal name x span) fun _ _ => True := by
  refine furthers_get_bind fun c _ _ => ?_
  split
  · exact furthers_report _
  · have hname : Furthers lib
        (modify fun c => { c with globals := c.globals.insert name x }) fun _ _ => True := by
      rintro c hc rfl
      exact ⟨⟨hc.library, Library.knows_insert hc.globals name hx.any, hc.declaredTypes⟩,
        .refl _, trivial⟩
    refine hname.bind fun _ lib' _ _ => (furthers_reporting (Q := fun _ _ => True) fun hlib =>
      ⟨hlib.registerGlobal x, fun _ _ => trivial⟩).bind fun _ _ _ _ => furthers_pure trivial

theorem furthers_declareClass (d : ClassDecl) :
    Furthers lib (declareClass d) fun _ _ => True := by
  refine (furthers_reporting (Q := fun x lib' => lib'.Knows IsType x)
    fun hlib => hlib.createType d.name.name d.name.span).bind fun created _ _ hcreated => ?_
  match created with
  | none => exact furthers_pure trivial
  | some x =>
    refine (furthers_onLibrary (Q := fun _ _ => True) fun hlib =>
      ⟨hlib.setDeclaration x d.place.id, trivial⟩).bind fun _ _ hext _ => ?_
    exact (furthers_annotate (by intro; rfl)).bind fun _ _ hext' _ =>
      furthers_declareGlobal _ _ (hext'.knows (hext.knows (hcreated x rfl)))

theorem furthers_declareClasses (b : Block) :
    Furthers lib (declareClasses b) fun _ _ => True :=
  furthers_forM fun d _ _ => furthers_declareClass d

/-! ## Rules of expressions -/

section Rules

variable {type : SymbolId}

theorem furthers_pointerTo (h : lib.Knows IsType type) :
    Furthers lib (some <$> onLibrary (·.pointerTo type)) Known := by
  rw [map_eq_pure_bind]
  refine (furthers_onLibrary (Q := fun x lib' => lib'.Knows IsType x) fun hlib => ?_).bind
    fun x _ _ hx => furthers_some hx
  obtain ⟨hstep, hknows⟩ := hlib.pointerTo h
  exact ⟨hstep, hknows.imp fun _ hs => hs ▸ trivial⟩

theorem furthers_pointerToBuiltin (name : String) (span : Span) :
    Furthers lib (pointerToBuiltin name span) Known := by
  refine (furthers_builtin name span).bind fun r lib' _ hr => ?_
  cases r with
  | none => exact furthers_pure known_none
  | some type => exact furthers_pointerTo (hr type rfl)

/-- Only variables and functions are used, and their types are known. -/
theorem furthers_typeIdentifier (node : NodeId) (name : Ident) :
    Furthers lib (typeIdentifier node name) Known := by
  refine furthers_get_bind fun c hc hlib => ?_
  split
  · next x s hx =>
    obtain ⟨y, -, hy⟩ := Option.bind_eq_some_iff.1 hx
    obtain ⟨s', hs, heq⟩ := Option.map_eq_some_iff.1 hy
    obtain ⟨rfl, rfl⟩ := Prod.mk.inj heq
    split
    · have htype : Known s'.type lib := fun t ht => hlib ▸ (hc.library.symbol hs).type t ht
      exact (furthers_annotate (by intro; rfl)).bind fun _ _ hext _ =>
        furthers_pure (htype.extends hext)
    · exact furthers_none _
  · exact furthers_none _

theorem furthers_typeValue (place : Place) (v : Value) :
    Furthers lib (typeValue place v) Known := by
  cases v with
  | integer | float | boolean | character => exact furthers_builtin _ _
  | string | null => exact furthers_pointerToBuiltin _ _
  | identifier name => exact furthers_typeIdentifier _ name

theorem furthers_resultType {c : Context} (hlib : c.library = lib) {result : OperatorResult}
    (h : result.IsSound c) (span : Span) : Furthers lib (resultType result span) Known := by
  subst hlib
  cases result with
  | same type => exact furthers_some h
  | builtin name => exact furthers_builtin name span
  | pointerTo type => exact furthers_pointerTo h

theorem furthers_typeUnary (h : lib.Knows IsType type) (op : UnaryOp) (span : Span) :
    Furthers lib (typeUnary span op type) Known := by
  refine furthers_get_bind fun c hc hlib => ?_
  split
  · next result hresult =>
    exact furthers_resultType hlib
      (Context.isSound_unaryType? hc.library.toIsSound (hlib ▸ h) hresult) span
  · exact furthers_none _

theorem furthers_typeBinary {left right : SymbolId} (hleft : lib.Knows IsType left)
    (hright : lib.Knows IsType right) (op : BinaryOp) (span : Span) :
    Furthers lib (typeBinary span op left right) Known := by
  rw [typeBinary_eq]
  refine furthers_get_bind fun c _ hlib => ?_
  have hoperator : Furthers lib
      (operatorResult (c.binaryType? (op.compound?.getD op) left right) span) Known := by
    unfold operatorResult
    split
    · next result hresult =>
      exact furthers_resultType hlib
        (Context.isSound_binaryType? (hlib ▸ hleft) (hlib ▸ hright) hresult) span
    · exact furthers_pure known_none
  refine hoperator.bind fun r _ _ hr => ?_
  unfold binaryResult
  split
  · next type htype => exact furthers_some (hr type (Option.filter_eq_some_iff.1 htype).1)
  · exact furthers_none _

/-- Members are variables and functions, and their types are known. -/
theorem furthers_typeAccess (place : Place) (kind : AccessKind) (object : SymbolId)
    (member : Ident) : Furthers lib (typeAccess place kind object member) Known := by
  rw [typeAccess_eq]
  refine furthers_get_bind fun c hc hlib => ?_
  unfold noteAccess
  split
  · exact furthers_none _
  · split
    · exact furthers_none _
    · next x _ =>
      have htype : Known ((c.symbol? x).bind Symbol.type) lib := fun t ht => by
        obtain ⟨s, hs, ht⟩ := Option.bind_eq_some_iff.1 ht
        exact hlib ▸ (hc.library.symbol hs).type t ht
      exact (furthers_annotate (by intro; rfl)).bind fun _ _ hext _ =>
        furthers_pure (htype.extends hext)

theorem furthers_compareArguments (c : Context) (span : Span) (callee : SymbolId)
    (arguments : List (Option SymbolId)) (parameters : List SymbolId) :
    Furthers lib (compareArguments c span callee arguments parameters) fun _ _ => True := by
  unfold compareArguments
  split
  · split
    · exact furthers_report _
    · exact furthers_pure trivial
  · exact furthers_pure trivial

theorem furthers_typeCall (span calleeSpan : Span) (callee : SymbolId)
    (arguments : List (Option SymbolId)) :
    Furthers lib (typeCall span calleeSpan callee arguments) Known := by
  rw [typeCall_eq]
  refine furthers_get_bind fun c hc hlib => ?_
  split
  · next parameters returns hform =>
    obtain ⟨t, ht, hform⟩ := Option.map_eq_some_iff.1 hform
    have hsound := hc.library.form ht
    rw [hform] at hsound
    exact (furthers_compareArguments c span callee arguments parameters).bind fun _ _ hext _ =>
      furthers_some (hext.knows (hlib ▸ hsound.2))
  · exact furthers_none _

theorem furthers_typeCast {target : SymbolId} (h : lib.Knows IsType target) (span : Span)
    (source : SymbolId) : Furthers lib (typeCast span source target) Known := by
  refine furthers_get_bind fun c _ _ => ?_
  split
  · exact furthers_some h
  · exact furthers_none _

theorem furthers_typeIndex (span : Span) (target subscript : SymbolId) :
    Furthers lib (typeIndex span target subscript) Known := by
  refine furthers_get_bind fun c hc hlib => ?_
  split
  · next p _ hp _ => exact furthers_some (hlib ▸ hc.library.pointee hp)
  · exact furthers_none _

theorem furthers_noting (node : NodeId) {rule : Analyzing (Option SymbolId)}
    (h : ∀ lib', lib.Extends lib' → Furthers lib' rule Known) :
    Furthers lib (noting node rule) Known := by
  rw [noting_eq]
  refine (furthers_visit _ _).bind fun _ lib' hext _ => (h lib' hext).bind fun r lib'' _ hr => ?_
  cases r with
  | none => exact furthers_pure known_none
  | some type =>
    exact (furthers_annotate (by intro; rfl)).bind fun _ _ hext _ =>
      furthers_pure (hr.extends hext)

theorem furthers_withType {operand : Option SymbolId} (hoperand : Known operand lib)
    {rule : SymbolId → Analyzing (Option SymbolId)}
    (h : ∀ type, lib.Knows IsType type → Furthers lib (rule type) Known) :
    Furthers lib (withType operand rule) Known := by
  cases operand with
  | none => exact furthers_pure known_none
  | some type => exact h type (hoperand type rfl)

end Rules

/-! ## Expressions -/

mutual

theorem furthers_typeExpr : (e : Expr) → ∀ lib, Furthers lib (typeExpr e) Known
  | .value place v, _ => furthers_noting _ fun _ _ => furthers_typeValue place v
  | .unary _ op operand, _ => furthers_noting _ fun lib _ =>
      (furthers_typeExpr operand lib).bind fun _ _ _ hr => furthers_withType hr fun _ htype =>
        furthers_typeUnary htype op _
  | .binary _ op left right, _ => furthers_noting _ fun lib _ =>
      (furthers_typeExpr left lib).bind fun _ lib' _ hl =>
        (furthers_typeExpr right lib').bind fun _ _ hext hr =>
          furthers_withType (hl.extends hext) fun _ hleft => furthers_withType hr fun _ hright =>
            furthers_typeBinary hleft hright op _
  | .access place kind object member, _ => furthers_noting _ fun lib _ =>
      (furthers_typeExpr object lib).bind fun _ _ _ hr => furthers_withType hr fun type _ =>
        furthers_typeAccess place kind type member
  | .call _ callee arguments, _ => furthers_noting _ fun lib _ =>
      (furthers_typeExpr callee lib).bind fun _ lib' _ hr =>
        (furthers_typeExprs arguments lib').bind fun _ _ hext _ =>
          furthers_withType (hr.extends hext) fun type _ => furthers_typeCall _ _ type _
  | .cast _ operand _, _ => furthers_noting _ fun lib _ =>
      (furthers_typeExpr operand lib).bind fun _ _ _ hr => furthers_get_bind fun _ hc hlib =>
        furthers_withType hr fun source _ =>
          furthers_withType (fun x hx => hlib ▸ hc.declaredTypes _ x hx) fun _ htarget =>
            furthers_typeCast htarget _ source
  | .index _ target subscript, _ => furthers_noting _ fun lib _ =>
      (furthers_typeExpr target lib).bind fun _ lib' _ hl =>
        (furthers_typeExpr subscript lib').bind fun _ _ hext hr =>
          furthers_withType (hl.extends hext) fun target _ => furthers_withType hr fun subscript _ =>
            furthers_typeIndex _ target subscript

theorem furthers_typeExprs : (es : List Expr) → ∀ lib, Furthers lib (typeExprs es) fun _ _ => True
  | [], _ => furthers_pure trivial
  | e :: es, lib => (furthers_typeExpr e lib).bind fun _ lib' _ _ =>
      (furthers_typeExprs es lib').bind fun _ _ _ _ => furthers_pure trivial

end

theorem furthers_checkGoto (place : Place) (label : Ident) :
    Furthers lib (checkGoto place label) fun _ _ => True := by
  refine (furthers_visit _ _).bind fun _ _ _ _ => furthers_get_bind fun c _ _ => ?_
  dsimp only
  split
  · exact furthers_modify fun _ => ⟨rfl, rfl, rfl⟩
  · exact furthers_report _

end Analyzing

open Analyzing

/-- Every check of the last phase keeps a context starred. -/
theorem Block.Step.furthers {b : Block} {row : NodeId → Option SymbolId} {k : Check}
    {p : ScopeStack SymbolId → Prop} {m : Analyzing Unit} (h : b.Step row k p m) (lib : Library) :
    Furthers lib m fun _ _ => True := by
  cases h with
  | @expr Γ e =>
    exact (furthers_typeExpr e lib).bind fun _ _ _ _ => furthers_pure trivial
  | @condition Γ e =>
    rw [checkCondition_eq]
    exact (furthers_typeExpr e lib).bind fun _ _ _ _ =>
      furthers_of_remarks (remarks_compareCondition _ _)
  | @initializer Γ d e =>
    refine furthers_get_bind fun c _ _ => ?_
    exact (furthers_typeExpr e lib).bind fun _ _ _ _ =>
      furthers_of_remarks (remarks_compareInitializer _ _ _)
  | @returns Γ place value =>
    rw [checkReturn_eq]
    refine (furthers_visit _ _).bind fun _ lib' _ _ => ?_
    cases value with
    | none => exact furthers_of_remarks (remarks_compareReturn place none none)
    | some e =>
      exact (furthers_typeExpr e lib').bind fun _ _ _ _ =>
        furthers_of_remarks (remarks_compareReturn _ _ _)
  | loopControl place => exact furthers_of_remarks (remarks_checkLoopControl place)
  | goto => exact furthers_checkGoto _ _

end Sable
