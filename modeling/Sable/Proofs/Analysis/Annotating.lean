import Sable.Proofs.Analysis.Reporting
import Sable.Proofs.Analysis.Upholding
import Sable.Proofs.Analysis.Walking

/-!
# What the last phase notes

The last phase notes types of expressions, symbols of identifiers, members and labels. All that it
notes is known, and it is about nodes that can have such a note. If an expression has no type, or
another note is missing, something was reported.

## Main definitions

* `Context.Accesses`: a symbol is a member of the class that is accessed.
* `Context.IsAnnotated`: all that is noted is right.
* `Context.IsComplete`: a node has all its notes.
* `Context.Advances`: notes are added.

## Main statements

* `Analyzing.annotates_typeExpr`: the notes of an expression.
* `Block.invariant_hasAnnotated`: the notes of the checks that are done.
-/
namespace Sable

open SymbolSort
open Library (Evolves)

/-! ## Notes -/

theorem Expr.parts_eq (e : Expr) : e.parts = e :: e.parts.tail := by
  cases e <;> simp [Expr.parts]

/-- The symbol is the member of this name of the class that the object has, or points to. -/
def Context.Accesses (c : Context) (kind : AccessKind) (object : Expr) (member : Ident)
    (x : SymbolId) : Prop :=
  ∃ type owner t, c.annotations.resolvedTypes.get? object.id = some type ∧
    c.accessed? kind type = some owner ∧ c.type? owner = some t ∧ t.mode = .classType ∧
      t.members.get? member.name = some x

/-- All that is noted is known and fits its node. -/
structure Context.IsAnnotated (b : Block) (typed : Prop) (c : Context) : Prop
    extends c.IsSound b typed typed where
  resolvedTypes : ∀ n x, c.annotations.resolvedTypes.get? n = some x →
    (∃ Γ e, (Γ, e) ∈ b.exprs ∧ e.id = n) ∧ c.library.Knows IsType x
  members : ∀ n x, c.annotations.members.get? n = some x → ∃ Γ place kind object member,
    (Γ, .access place kind object member) ∈ b.exprs ∧ place.id = n ∧ c.Accesses kind object member x
  labels : ∀ n x, c.annotations.labels.get? n = some x →
    (∃ m ∈ b.tree.preorder, m.id = n ∧ m.kind = .goto) ∧ c.library.Knows IsLabel x

/-- What has a symbol: declarations and identifiers. -/
def Head.isNaming : Head → Bool
  | .classDecl _ | .function .. | .parameter _ | .variable _ | .label _ | .value (.identifier _) =>
    true
  | _ => false

/-- The node has all its notes. -/
structure Context.IsComplete (c : Context) (n : Node) : Prop where
  resolvedType : n.kind.isExpression = true → (c.annotations.resolvedTypes.get? n.id).isSome
  symbol : n.head.isNaming = true → (c.annotations.symbols.get? n.id).isSome
  member : n.kind = .access → (c.annotations.members.get? n.id).isSome
  label : n.kind = .goto → (c.annotations.labels.get? n.id).isSome
  declaredType : n.kind = .type → (c.annotations.declaredTypes.get? n.id).isSome
  signature : n.kind = .function → (c.annotations.signatures.get? n.id).isSome

/-- Notes are added, among them types of the expressions `ns`; the notes that there are stay. -/
structure Context.Advances (b : Block) (ns : List NodeId) (c c' : Context) : Prop where
  interns : c.library.Interns c'.library
  errors : c'.errors = [] → c.errors = []
  types : ∀ {n x}, c.annotations.resolvedTypes.get? n = some x →
    c'.annotations.resolvedTypes.get? n = some x
  types_eq : ∀ n ∉ ns, c'.annotations.resolvedTypes.get? n = c.annotations.resolvedTypes.get? n
  symbols : ∀ {n}, (c.annotations.symbols.get? n).isSome → (c'.annotations.symbols.get? n).isSome
  symbols_eq : ∀ n, (∀ e ∈ b.exprs, e.2.id ≠ n) →
    c'.annotations.symbols.get? n = c.annotations.symbols.get? n
  members : ∀ {n}, (c.annotations.members.get? n).isSome → (c'.annotations.members.get? n).isSome
  labels : ∀ {n}, (c.annotations.labels.get? n).isSome → (c'.annotations.labels.get? n).isSome
  declaredTypes_eq : c'.annotations.declaredTypes = c.annotations.declaredTypes
  signatures_eq : c'.annotations.signatures = c.annotations.signatures
  globals_eq : c'.globals = c.globals

theorem Library.Interns.extends {lib lib' : Library} (h : lib.Interns lib') : lib.Extends lib' :=
  .of_symbol? h.id_eq h.dependencies_eq h.symbol?_mono

namespace Context.Advances

variable {b : Block} {c c' c'' : Context} {ns ns' : List NodeId}

theorem refl (b : Block) (ns : List NodeId) (c : Context) : c.Advances b ns c where
  interns := .refl _
  errors h := h
  types h := h
  types_eq _ _ := rfl
  symbols h := h
  symbols_eq _ _ := rfl
  members h := h
  labels h := h
  declaredTypes_eq := rfl
  signatures_eq := rfl
  globals_eq := rfl

theorem trans (h : c.Advances b ns c') (h' : c'.Advances b ns' c'') :
    c.Advances b (ns ++ ns') c'' where
  interns := h.interns.trans h'.interns
  errors he := h.errors (h'.errors he)
  types hx := h'.types (h.types hx)
  types_eq n hn := by
    rw [List.mem_append, not_or] at hn
    exact (h'.types_eq n hn.2).trans (h.types_eq n hn.1)
  symbols hn := h'.symbols (h.symbols hn)
  symbols_eq n hn := (h'.symbols_eq n hn).trans (h.symbols_eq n hn)
  members hn := h'.members (h.members hn)
  labels hn := h'.labels (h.labels hn)
  declaredTypes_eq := h'.declaredTypes_eq.trans h.declaredTypes_eq
  signatures_eq := h'.signatures_eq.trans h.signatures_eq
  globals_eq := h'.globals_eq.trans h.globals_eq

theorem mono (h : c.Advances b ns c') (hsubset : ns ⊆ ns') : c.Advances b ns' c' :=
  { h with types_eq := fun n hn => h.types_eq n fun hmem => hn (hsubset hmem) }

theorem isComplete (h : c.Advances b ns c') {n : Node} (hn : c.IsComplete n) :
    c'.IsComplete n where
  resolvedType hkind := by
    obtain ⟨x, hx⟩ := Option.isSome_iff_exists.1 (hn.resolvedType hkind)
    rw [h.types hx]
    rfl
  symbol hhead := h.symbols (hn.symbol hhead)
  member hkind := h.members (hn.member hkind)
  label hkind := h.labels (hn.label hkind)
  declaredType hkind := by
    rw [h.declaredTypes_eq]
    exact hn.declaredType hkind
  signature hkind := by
    rw [h.signatures_eq]
    exact hn.signature hkind

theorem accesses (h : c.Advances b ns c') {kind : AccessKind} {object : Expr} {member : Ident}
    {x : SymbolId} (hx : c.Accesses kind object member x) : c'.Accesses kind object member x := by
  obtain ⟨type, owner, t, htype, howner, ht, hmode, hmember⟩ := hx
  have hmono : ∀ {y u}, c.type? y = some u → c'.type? y = some u := by
    intro y u hy
    obtain ⟨s, hs, hkind⟩ := Library.type?_eq_some.1 hy
    exact Library.type?_eq_some.2 ⟨s, h.interns.symbol?_mono hs, hkind⟩
  refine ⟨type, owner, t, h.types htype, ?_, hmono ht, hmode, hmember⟩
  cases kind with
  | dot => exact howner
  | arrow =>
    obtain ⟨u, hu, hp⟩ := Option.bind_eq_some_iff.1 howner
    exact Option.bind_eq_some_iff.2 ⟨u, hmono hu, hp⟩

end Context.Advances

/-- Scopes and visits are no notes. -/
theorem Context.Advances.frame {b : Block} {c c' : Context} {ns : List NodeId}
    (h : c.Advances b ns c') (scopes : ScopeStack SymbolId) (visits : List Visit) :
    c.Advances b ns { c' with scopes, visits } :=
  ⟨h.interns, h.errors, h.types, h.types_eq, h.symbols, h.symbols_eq, h.members, h.labels,
    h.declaredTypes_eq, h.signatures_eq, h.globals_eq⟩

theorem Context.Advances.of_visits {b : Block} {c c' : Context} {ns : List NodeId}
    {visits : List Visit} (h : { c with visits }.Advances b ns c') : c.Advances b ns c' :=
  ⟨h.interns, h.errors, h.types, h.types_eq, h.symbols, h.symbols_eq, h.members, h.labels,
    h.declaredTypes_eq, h.signatures_eq, h.globals_eq⟩

/-! ## What operators make of types -/

/-- What an operator gives is made of known types. -/
def OperatorResult.IsSound (c : Context) : OperatorResult → Prop
  | .same t | .pointerTo t => c.library.Knows IsType t
  | .builtin _ => True

namespace Context

variable {typed : Prop} {c : Context} {left right : SymbolId} {result : OperatorResult}

theorem isSound_unaryType? (hc : c.library.IsSound typed) {op : UnaryOp}
    (hleft : c.library.Knows IsType left) (h : c.unaryType? op left = some result) :
    result.IsSound c := by
  cases op with
  | deref =>
    obtain ⟨p, hp, rfl⟩ := Option.map_eq_some_iff.1 h
    exact hc.pointee hp
  | addressOf => exact Option.some.inj h ▸ hleft
  | plus | negate | increment | decrement =>
    obtain ⟨-, h⟩ := Option.ite_none_right_eq_some.1 h
    exact Option.some.inj h ▸ hleft
  | not =>
    obtain ⟨-, h⟩ := Option.ite_none_right_eq_some.1 h
    exact Option.some.inj h ▸ trivial

theorem isSound_binaryType? {op : BinaryOp} (hleft : c.library.Knows IsType left)
    (hright : c.library.Knows IsType right) (h : c.binaryType? op left right = some result) :
    result.IsSound c := by
  have hresult : result = .same left ∨ result = .same right ∨ ∃ name, result = .builtin name := by
    cases op <;> simp only [binaryType?] at h <;> grind
  rcases hresult with rfl | rfl | ⟨name, rfl⟩
  · exact hleft
  · exact hright
  · trivial

end Context

/-! ## Steps that take notes -/

/-- No type of these expressions is noted yet, and if nothing is reported the variables and
functions have their types. -/
structure Context.IsReady (b : Block) (typed : Prop) (ns : List NodeId) (c : Context) : Prop
    extends c.IsAnnotated b typed where
  typed : c.errors = [] → typed
  fresh : ∀ n ∈ ns, c.annotations.resolvedTypes.get? n = none

variable {b : Block} {typed : Prop}

theorem Context.IsReady.mono {c : Context} {ns ns' : List NodeId} (h : c.IsReady b typed ns')
    (hsubset : ns ⊆ ns') : c.IsReady b typed ns :=
  ⟨h.toIsAnnotated, h.typed, fun n hn => h.fresh n (hsubset hn)⟩

namespace Context.IsAnnotated

variable {c : Context} {lib : Library} {n : NodeId} {x : SymbolId}

theorem frame (h : c.IsAnnotated b typed) (scopes : ScopeStack SymbolId) (visits : List Visit)
    (errors : List SemanticError) : { c with scopes, visits, errors }.IsAnnotated b typed where
  toIsSound := h.toIsSound.frame scopes visits c.attempted errors
  resolvedTypes := h.resolvedTypes
  members := h.members
  labels := h.labels

theorem evolve (h : c.IsAnnotated b typed) (hstep : Evolves typed c.library lib)
    (hinterns : c.library.Interns lib) : { c with library := lib }.IsAnnotated b typed where
  toIsSound := h.toIsSound.evolve hstep
  resolvedTypes n x hx := (h.resolvedTypes n x hx).imp_right hstep.knows
  members n x hx := by
    obtain ⟨Γ, place, kind, object, member, he, hid, haccesses⟩ := h.members n x hx
    have hadvances : c.Advances b [] { c with library := lib } :=
      { Context.Advances.refl b [] c with interns := hinterns }
    exact ⟨Γ, place, kind, object, member, he, hid, hadvances.accesses haccesses⟩
  labels n x hx := (h.labels n x hx).imp_right hstep.knows

end Context.IsAnnotated

namespace Analyzing

variable {α β : Type} {c : Context} {ns ns' : List NodeId}

/-- In this context, the step takes notes, among them types of the expressions `ns`, and `Q` holds
of the result. -/
structure AnnotatesAt (b : Block) (typed : Prop) (c : Context) (ns : List NodeId)
    (m : Analyzing α) (Q : α → Context → Prop) : Prop where
  isAnnotated : (m.run c).2.IsAnnotated b typed
  advances : c.Advances b ns (m.run c).2
  scopes_eq : (m.run c).2.scopes = c.scopes
  result : Q (m.run c).1 (m.run c).2

/-- A rule gives a type, unless something is reported. -/
structure Gives (r : Option SymbolId) (c : Context) : Prop where
  knows : ∀ x, r = some x → c.library.Knows IsType x
  isSome : c.errors = [] → r.isSome

section Combining

variable {m : Analyzing α} {P Q : α → Context → Prop} {R : β → Context → Prop}

theorem AnnotatesAt.imp (h : AnnotatesAt b typed c ns m P)
    (hP : ∀ x c', c.Advances b ns c' → P x c' → Q x c') : AnnotatesAt b typed c ns m Q :=
  ⟨h.isAnnotated, h.advances, h.scopes_eq, hP _ _ h.advances h.result⟩

/-- A step that asks about the context first. -/
theorem annotatesAt_get_bind {f : Context → Analyzing α} (h : AnnotatesAt b typed c ns (f c) Q) :
    AnnotatesAt b typed c ns (get >>= f) Q :=
  ⟨h.isAnnotated, h.advances, h.scopes_eq, h.result⟩

/-- A step behind a visit. -/
theorem annotatesAt_visit_bind {phase : Phase} {node : NodeId}
    (h : ∀ visits, AnnotatesAt b typed { c with visits } ns m Q) :
    AnnotatesAt b typed c ns (visit phase node >>= fun _ => m) Q :=
  have h := h (⟨phase, node, c.scopes.entries⟩ :: c.visits)
  ⟨h.isAnnotated, h.advances.of_visits, h.scopes_eq, h.result⟩

/-- What was ready stays so, apart from the expressions that got types. -/
theorem AnnotatesAt.isReady (h : AnnotatesAt b typed c ns m Q)
    (hc : c.IsReady b typed (ns ++ ns')) (hdisjoint : ns.Disjoint ns') :
    (m.run c).2.IsReady b typed ns' where
  toIsAnnotated := h.isAnnotated
  typed herrors := hc.typed (h.advances.errors herrors)
  fresh n hn := by
    rw [h.advances.types_eq n fun hmem => hdisjoint hmem hn]
    exact hc.fresh n (List.mem_append_right ns hn)

theorem AnnotatesAt.bind {f : α → Analyzing β} (hm : AnnotatesAt b typed c ns m P)
    (hc : c.IsReady b typed (ns ++ ns')) (hdisjoint : ns.Disjoint ns')
    (hf : ∀ x c', c.Advances b ns c' → c'.IsReady b typed ns' → P x c' →
      AnnotatesAt b typed c' ns' (f x) R) : AnnotatesAt b typed c (ns ++ ns') (m >>= f) R := by
  have hrest := hf _ _ hm.advances (hm.isReady hc hdisjoint) hm.result
  exact ⟨hrest.isAnnotated, hm.advances.trans hrest.advances,
    hrest.scopes_eq.trans hm.scopes_eq, hrest.result⟩

theorem annotatesAt_pure (hc : c.IsAnnotated b typed) {x : α} (h : Q x c) :
    AnnotatesAt b typed c ns (pure x) Q :=
  ⟨hc, .refl b ns c, rfl, h⟩

/-- What is reported need not be known. -/
theorem annotatesAt_report (hc : c.IsAnnotated b typed) (e : SemanticError) {x : α}
    (h : ∀ c' : Context, c'.library = c.library → c'.errors ≠ [] → Q x c') :
    AnnotatesAt b typed c ns (do
      report e
      return x) Q := by
  have herrors : c.errors ++ [e] ≠ [] := by simp
  exact ⟨hc.frame c.scopes c.visits _, { Context.Advances.refl b ns c with
    errors := fun h => absurd h herrors }, rfl, h _ rfl herrors⟩

end Combining

/-! ## Rules of expressions -/

section Rules

variable {type : SymbolId}

theorem gives_none (h : c.errors ≠ []) : Gives none c := ⟨by simp, fun herrors => absurd herrors h⟩

theorem gives_some (h : c.library.Knows IsType type) : Gives (some type) c :=
  ⟨fun _ hx => Option.some.inj hx ▸ h, fun _ => rfl⟩

theorem annotatesAt_none (hc : c.IsAnnotated b typed) (e : SemanticError) :
    AnnotatesAt b typed c [] (do
      report e
      return none) Gives :=
  annotatesAt_report hc e fun _ _ => gives_none

theorem annotatesAt_some (hc : c.IsAnnotated b typed) (h : c.library.Knows IsType type) :
    AnnotatesAt b typed c [] (pure (some type)) Gives :=
  annotatesAt_pure hc (gives_some h)

/-- A rule and what is done with its type. -/
theorem AnnotatesAt.bindRule {m : Analyzing (Option SymbolId)}
    {f : Option SymbolId → Analyzing (Option SymbolId)} (hm : AnnotatesAt b typed c [] m Gives)
    (hf : ∀ r c', c'.IsAnnotated b typed → c.Advances b [] c' → Gives r c' →
      AnnotatesAt b typed c' [] (f r) Gives) : AnnotatesAt b typed c [] (m >>= f) Gives := by
  have hrest := hf _ _ hm.isAnnotated hm.advances hm.result
  exact ⟨hrest.isAnnotated, hm.advances.trans hrest.advances,
    hrest.scopes_eq.trans hm.scopes_eq, hrest.result⟩

theorem annotatesAt_builtin (hc : c.IsAnnotated b typed) (name : String) (span : Span) :
    AnnotatesAt b typed c [] (builtin name span) Gives := by
  refine annotatesAt_get_bind ?_
  split
  · next x hx =>
    obtain ⟨t, ht⟩ := Option.isSome_iff_exists.1 (Option.filter_eq_some_iff.1 hx).2
    exact annotatesAt_some hc (Library.knows_isType_of_type? ht)
  · exact annotatesAt_none hc _

theorem annotatesAt_pointerTo (hc : c.IsAnnotated b typed) (h : c.library.Knows IsType type) :
    AnnotatesAt b typed c [] (some <$> onLibrary (·.pointerTo type)) Gives := by
  have hinterns := hc.library.isApart.interns_pointerTo type
  obtain ⟨hstep, hknows⟩ := hc.library.pointerTo h
  exact ⟨hc.evolve hstep hinterns, { Context.Advances.refl b [] c with interns := hinterns }, rfl,
    gives_some (hknows.imp fun _ hs => hs ▸ trivial)⟩

theorem annotatesAt_pointerToBuiltin (hc : c.IsAnnotated b typed) (name : String) (span : Span) :
    AnnotatesAt b typed c [] (pointerToBuiltin name span) Gives := by
  refine (annotatesAt_builtin hc name span).bindRule fun r c' hc' _ hr => ?_
  cases r with
  | none => exact annotatesAt_pure hc' hr
  | some type => exact annotatesAt_pointerTo hc' (hr.knows type rfl)

theorem annotatesAt_resultType (hc : c.IsAnnotated b typed) {result : OperatorResult}
    (h : result.IsSound c) (span : Span) :
    AnnotatesAt b typed c [] (resultType result span) Gives := by
  cases result with
  | same type => exact annotatesAt_some hc h
  | builtin name => exact annotatesAt_builtin hc name span
  | pointerTo type => exact annotatesAt_pointerTo hc h

theorem annotatesAt_typeUnary (hc : c.IsAnnotated b typed) (h : c.library.Knows IsType type)
    (op : UnaryOp) (span : Span) : AnnotatesAt b typed c [] (typeUnary span op type) Gives := by
  refine annotatesAt_get_bind ?_
  split
  · next result hresult =>
    exact annotatesAt_resultType hc (Context.isSound_unaryType? hc.library h hresult) span
  · exact annotatesAt_none hc _

theorem annotatesAt_typeBinary (hc : c.IsAnnotated b typed) {left right : SymbolId}
    (hleft : c.library.Knows IsType left) (hright : c.library.Knows IsType right) (op : BinaryOp)
    (span : Span) : AnnotatesAt b typed c [] (typeBinary span op left right) Gives := by
  rw [typeBinary_eq]
  refine annotatesAt_get_bind ?_
  cases hresult : c.binaryType? (op.compound?.getD op) left right with
  | none => exact annotatesAt_none hc _
  | some result =>
    have hsound := Context.isSound_binaryType? hleft hright hresult
    refine (annotatesAt_resultType hc hsound span).bindRule fun r c' hc' _ hr => ?_
    unfold binaryResult
    split
    · next type htype =>
      exact annotatesAt_some hc' (hr.knows type (Option.filter_eq_some_iff.1 htype).1)
    · exact annotatesAt_none hc' _

theorem annotatesAt_typeCall (hc : c.IsAnnotated b typed) (span calleeSpan : Span)
    (arguments : List (Option SymbolId)) :
    AnnotatesAt b typed c [] (typeCall span calleeSpan type arguments) Gives := by
  rw [typeCall_eq]
  refine annotatesAt_get_bind ?_
  split
  · next parameters returns hform =>
    obtain ⟨t, ht, hform⟩ := Option.map_eq_some_iff.1 hform
    have hsound := hc.library.form ht
    rw [hform] at hsound
    unfold compareArguments
    split
    · split
      · exact annotatesAt_report hc _ fun _ hlib _ => gives_some (hlib ▸ hsound.2)
      · exact annotatesAt_some hc hsound.2
    · exact annotatesAt_some hc hsound.2
  · exact annotatesAt_none hc _

theorem annotatesAt_typeCast (hc : c.IsAnnotated b typed) {target : SymbolId}
    (htarget : c.library.Knows IsType target) (span : Span) :
    AnnotatesAt b typed c [] (typeCast span type target) Gives := by
  refine annotatesAt_get_bind ?_
  split
  · exact annotatesAt_some hc htarget
  · exact annotatesAt_none hc _

theorem annotatesAt_typeIndex (hc : c.IsAnnotated b typed) (subscript : SymbolId) (span : Span) :
    AnnotatesAt b typed c [] (typeIndex span type subscript) Gives := by
  refine annotatesAt_get_bind ?_
  split
  · next p _ hp _ => exact annotatesAt_some hc (hc.library.pointee hp)
  · exact annotatesAt_none hc _

/-- Variables and functions have their types. -/
theorem gives_type {ns : List NodeId} (hc : c.IsReady b typed ns) {x : SymbolId} {s : Symbol}
    (hs : c.library.symbol? x = some s) (hvalue : s.sort.IsValue) : Gives s.type c where
  knows := (hc.library.symbol hs).type
  isSome herrors := (hc.library.symbol hs).isSome_type (hc.typed herrors) hvalue

theorem annotatesAt_typeIdentifier {ns : List NodeId} (hc : c.IsReady b typed ns) {Γ : Locals}
    {place : Place} {name : Ident} (he : (Γ, .value place (.identifier name)) ∈ b.exprs) :
    AnnotatesAt b typed c [] (typeIdentifier place.id name) fun r c' => Gives r c' ∧
      (c'.errors = [] → (c'.annotations.symbols.get? place.id).isSome) := by
  have hnode := (Block.Numbered.root_mem_preorder he).1
  have hunknown : AnnotatesAt b typed c [] (do
      report (.symbolNotFound name.name name.span)
      return none) fun r c' => Gives r c' ∧
        (c'.errors = [] → (c'.annotations.symbols.get? place.id).isSome) :=
    annotatesAt_report hc.toIsAnnotated _ fun _ _ h => ⟨gives_none h, fun h' => absurd h' h⟩
  refine annotatesAt_get_bind ?_
  split
  · next x s hx =>
    obtain ⟨y, -, hy⟩ := Option.bind_eq_some_iff.1 hx
    obtain ⟨s', hs, heq⟩ := Option.map_eq_some_iff.1 hy
    obtain ⟨rfl, rfl⟩ := Prod.mk.inj heq
    split
    · next hvalue =>
      have hgives := gives_type hc hs (s'.isValue_iff.1 hvalue)
      refine ⟨⟨?_, hc.resolvedTypes, hc.members, hc.labels⟩,
        { Context.Advances.refl b [] c with symbols := ?_, symbols_eq := ?_ }, rfl,
        ⟨hgives.knows, hgives.isSome⟩, fun _ => ?_⟩
      · exact hc.toIsSound.insertSymbol hnode fun _ => ⟨s', hs, s'.isValue_iff.1 hvalue⟩
      · intro n hn
        exact Context.IsSound.isSome_insert hn
      · intro n hn
        change (c.annotations.symbols.insert place.id y).get? n = _
        rw [OrderedMap.get?_insert, if_neg fun h => hn _ he h.symm]
      · change ((c.annotations.symbols.insert place.id y).get? place.id).isSome
        rw [OrderedMap.get?_insert, if_pos rfl]
        rfl
    · exact hunknown
  · exact hunknown

theorem annotatesAt_typeAccess {ns : List NodeId} (hc : c.IsReady b typed ns) {Γ : Locals}
    {place : Place} {kind : AccessKind} {object : Expr} {member : Ident}
    (he : (Γ, .access place kind object member) ∈ b.exprs)
    (htype : c.annotations.resolvedTypes.get? object.id = some type) :
    AnnotatesAt b typed c [] (typeAccess place kind type member) fun r c' => Gives r c' ∧
      (c'.errors = [] → (c'.annotations.members.get? place.id).isSome) := by
  have hunknown : ∀ e, AnnotatesAt b typed c [] (do
      report e
      return none) fun r c' => Gives r c' ∧
        (c'.errors = [] → (c'.annotations.members.get? place.id).isSome) := fun e =>
    annotatesAt_report hc.toIsAnnotated e fun _ _ h => ⟨gives_none h, fun h' => absurd h' h⟩
  rw [typeAccess_eq]
  refine annotatesAt_get_bind ?_
  unfold noteAccess
  split
  · exact hunknown _
  · next t ht =>
    split
    · exact hunknown _
    · next x hx =>
      obtain ⟨ht, hmode⟩ := Option.filter_eq_some_iff.1 ht
      obtain ⟨owner, howner, ht⟩ := Option.bind_eq_some_iff.1 ht
      obtain ⟨u, hu, hkind⟩ := Library.type?_eq_some.1 ht
      have hu' : u.type? = some t := by rw [Symbol.type?, hkind]
      obtain ⟨s, hs, hmember⟩ := (hc.library.members hu hu').2 _ x hx
      have hvalue : s.sort.IsValue := by
        rcases hmember with h | h <;> simp [h, IsValue]
      have hgives := gives_type hc hs hvalue
      have hresult : (c.symbol? x).bind Symbol.type = s.type := by
        rw [Context.symbol?, hs, Option.bind_some]
      rw [hresult]
      have haccesses : c.Accesses kind object member x :=
        ⟨type, owner, t, htype, howner, ht, by simpa using hmode, hx⟩
      refine ⟨⟨⟨hc.library, hc.globals, hc.symbols, hc.declaredTypes, hc.signatures, hc.found⟩,
        hc.resolvedTypes, fun n y hy => ?_, hc.labels⟩,
        { Context.Advances.refl b [] c with members := ?_ }, rfl,
        ⟨hgives.knows, hgives.isSome⟩, fun _ => ?_⟩
      · change (c.annotations.members.insert place.id x).get? n = some y at hy
        rw [OrderedMap.get?_insert] at hy
        split at hy
        · next hn =>
          exact ⟨Γ, place, kind, object, member, he, hn.symm, Option.some.inj hy ▸ haccesses⟩
        · exact hc.members n y hy
      · intro n hn
        exact Context.IsSound.isSome_insert hn
      · change ((c.annotations.members.insert place.id x).get? place.id).isSome
        rw [OrderedMap.get?_insert, if_pos rfl]
        rfl

end Rules

/-! ## Expressions -/

/-- The rule of an expression was applied, behind those of its operands. -/
structure Applied (e : Expr) (r : Option SymbolId) (c : Context) : Prop extends Gives r c where
  symbol : c.errors = [] → e.tree.root.head.isNaming = true →
    (c.annotations.symbols.get? e.id).isSome
  member : c.errors = [] → e.tree.root.kind = .access → (c.annotations.members.get? e.id).isSome
  operands : c.errors = [] → ∀ part ∈ e.parts.tail, c.IsComplete part.tree.root

/-- The type of the expression is noted, if it has one, and if nothing was reported, nothing is
missing in the expression. -/
structure Typed (e : Expr) (r : Option SymbolId) (c : Context) : Prop extends Gives r c where
  row : ∀ x, r = some x → c.annotations.resolvedTypes.get? e.id = some x
  isComplete : c.errors = [] → ∀ part ∈ e.parts, c.IsComplete part.tree.root

theorem annotatesAt_noteType (hc : c.IsAnnotated b typed) {Γ : Locals} {e : Expr}
    (he : (Γ, e) ∈ b.exprs) (hrow : c.annotations.resolvedTypes.get? e.id = none)
    {r : Option SymbolId} (h : Applied e r c) :
    AnnotatesAt b typed c [e.id] (noteType e.id r) (Typed e) := by
  have hkind := e.isExpression_root
  cases r with
  | none =>
    have herrors : c.errors ≠ [] := fun herrors => by simpa using h.isSome herrors
    exact annotatesAt_pure hc ⟨h.toGives, by simp, fun h => absurd h herrors⟩
  | some x =>
    have hget : ∀ n, (c.annotations.resolvedTypes.insert e.id x).get? n =
        if n = e.id then some x else c.annotations.resolvedTypes.get? n :=
      fun n => OrderedMap.get?_insert _ _ _ _
    have hadvances : c.Advances b [e.id] ((noteType e.id (some x)).run c).2 := by
      refine { Context.Advances.refl b [e.id] c with types := ?_, types_eq := ?_ }
      · intro n y hy
        refine (hget n).trans ?_
        rw [if_neg, hy]
        rintro rfl
        simp [hrow] at hy
      · exact fun n hn => (hget n).trans (if_neg (by simpa using hn))
    refine ⟨⟨⟨hc.library, hc.globals, hc.symbols, hc.declaredTypes, hc.signatures, hc.found⟩,
      fun n y hy => ?_, fun n y hy => ?_, hc.labels⟩, hadvances, rfl, ⟨⟨h.knows, fun _ => rfl⟩,
        fun y hy => ?_, fun herrors => ?_⟩⟩
    · have hy := (hget n).symm.trans hy
      split at hy
      · next hn => exact ⟨⟨Γ, e, he, hn.symm⟩, Option.some.inj hy ▸ h.knows x rfl⟩
      · exact hc.resolvedTypes n y hy
    · obtain ⟨Δ, place, kind, object, member, hmem, hid, haccesses⟩ := hc.members n y hy
      exact ⟨Δ, place, kind, object, member, hmem, hid, hadvances.accesses haccesses⟩
    · exact (hget e.id).trans ((if_pos rfl).trans hy)
    · rw [e.parts_eq, List.forall_mem_cons]
      refine ⟨⟨fun _ => ?_, fun hnaming => ?_, fun haccess => ?_, ?_, ?_, ?_⟩, fun part hpart =>
        hadvances.isComplete (h.operands herrors part hpart)⟩
      · rw [e.id_root]
        exact Option.isSome_iff_exists.2 ⟨x, (hget e.id).trans (if_pos rfl)⟩
      · rw [e.id_root]
        exact h.symbol herrors hnaming
      · rw [e.id_root]
        exact h.member herrors haccess
      all_goals
        intro hother
        rw [hother] at hkind
        simp [NodeKind.isExpression] at hkind

/-- A rule with its operands, whose types are noted before. -/
theorem annotatesAt_noting {Γ : Locals} {e : Expr} (he : (Γ, e) ∈ b.exprs)
    (hc : c.IsReady b typed (e.parts.map Expr.id)) (hnodup : (e.parts.map Expr.id).Nodup)
    {rule : Analyzing (Option SymbolId)}
    (hrule : ∀ visits, { c with visits }.IsReady b typed (e.parts.tail.map Expr.id) →
      AnnotatesAt b typed { c with visits } (e.parts.tail.map Expr.id) rule (Applied e)) :
    AnnotatesAt b typed c (e.parts.map Expr.id) (noting e.id rule) (Typed e) := by
  rw [e.parts_eq, List.map_cons] at hc hnodup ⊢
  rw [List.nodup_cons] at hnodup
  rw [noting_eq]
  refine annotatesAt_visit_bind fun visits => ?_
  have happlied := hrule visits
    ⟨hc.toIsAnnotated.frame _ _ _, hc.typed, fun n hn => hc.fresh n (List.mem_cons_of_mem _ hn)⟩
  have hrow := (happlied.advances.types_eq _ hnodup.1).trans (hc.fresh e.id List.mem_cons_self)
  have hnoted := annotatesAt_noteType happlied.isAnnotated he hrow happlied.result
  refine ⟨hnoted.isAnnotated, (happlied.advances.trans hnoted.advances).mono ?_,
    hnoted.scopes_eq.trans happlied.scopes_eq, hnoted.result⟩
  simp

theorem Gives.applied {e : Expr} {r : Option SymbolId} (h : Gives r c)
    (hnaming : e.tree.root.head.isNaming = false) (haccess : e.tree.root.kind ≠ .access)
    (hoperands : c.errors = [] → ∀ part ∈ e.parts.tail, c.IsComplete part.tree.root) :
    Applied e r c where
  toGives := h
  symbol _ h := absurd h (by simp [hnaming])
  member _ h := absurd h haccess
  operands := hoperands

theorem Typed.advances {e : Expr} {r : Option SymbolId} {c' : Context} (h : Typed e r c)
    (hadvances : c.Advances b ns c') : Typed e r c' where
  knows x hx := hadvances.interns.extends.knows (h.knows x hx)
  isSome herrors := h.isSome (hadvances.errors herrors)
  row x hx := hadvances.types (h.row x hx)
  isComplete herrors part hpart :=
    hadvances.isComplete (h.isComplete (hadvances.errors herrors) part hpart)

/-- Without the type of an operand there is no rule, but there was an error. -/
theorem annotatesAt_withType (hc : c.IsAnnotated b typed) {operand : Option SymbolId}
    (hoperand : c.errors = [] → operand.isSome) {rule : SymbolId → Analyzing (Option SymbolId)}
    {Q : Option SymbolId → Context → Prop}
    (h : ∀ type, operand = some type → AnnotatesAt b typed c [] (rule type) Q)
    (hnone : c.errors ≠ [] → Q none c) :
    AnnotatesAt b typed c [] (withType operand rule) Q := by
  cases operand with
  | none => exact annotatesAt_pure hc (hnone fun herrors => by simpa using hoperand herrors)
  | some type => exact h type rfl

theorem annotatesAt_typeLiteral (hc : c.IsAnnotated b typed) (place : Place) {v : Value}
    (hv : ∀ name, v ≠ .identifier name) : AnnotatesAt b typed c [] (typeValue place v) Gives := by
  cases v with
  | integer | float | boolean | character => exact annotatesAt_builtin hc _ _
  | string | null => exact annotatesAt_pointerToBuiltin hc _ _
  | identifier name => exact absurd rfl (hv name)

/-- A rule behind its operands, the first of which it needs. -/
theorem annotatesAt_rule (hc : c.IsAnnotated b typed) {e : Expr}
    (hnaming : e.tree.root.head.isNaming = false) (haccess : e.tree.root.kind ≠ .access)
    {operand : Option SymbolId} (hoperand : c.errors = [] → operand.isSome)
    (hoperands : c.errors = [] → ∀ part ∈ e.parts.tail, c.IsComplete part.tree.root)
    {rule : SymbolId → Analyzing (Option SymbolId)}
    (h : ∀ type, operand = some type → AnnotatesAt b typed c [] (rule type) Gives) :
    AnnotatesAt b typed c [] (withType operand rule) (Applied e) :=
  (annotatesAt_withType hc hoperand h gives_none).imp fun _ _ hadvances hr =>
    hr.applied hnaming haccess fun herrors part hpart =>
      hadvances.isComplete (hoperands (hadvances.errors herrors) part hpart)

mutual

/-- The notes of an expression and its parts. -/
theorem annotatesAt_typeExpr (Γ : Locals) : (e : Expr) →
    (∀ part ∈ e.parts, (Γ, part) ∈ b.exprs) → (∀ n ∈ e.tree.preorder, n ∈ b.tree.preorder) →
    (e.parts.map Expr.id).Nodup → ∀ {c : Context}, c.IsReady b typed (e.parts.map Expr.id) →
    AnnotatesAt b typed c (e.parts.map Expr.id) (typeExpr e) (Typed e)
  | .value place v, hexprs, _, hnodup, c, hc => by
    have he := hexprs _ List.mem_cons_self
    refine annotatesAt_noting he hc hnodup fun visits hready => ?_
    by_cases hv : ∃ name, v = .identifier name
    · obtain ⟨name, rfl⟩ := hv
      refine (annotatesAt_typeIdentifier hready he).imp fun r c' _ hr => ?_
      exact ⟨hr.1, fun herrors _ => hr.2 herrors, fun _ h => absurd h (by simp [Expr.tree, Node.kind,
        Head.kind]), by simp [Expr.parts]⟩
    · have hv' : ∀ name, v ≠ .identifier name := fun name hname => hv ⟨name, hname⟩
      refine (annotatesAt_typeLiteral hready.toIsAnnotated place hv').imp fun r c' _ hr =>
        hr.applied ?_ (by simp [Expr.tree, Node.kind, Head.kind]) (by simp [Expr.parts])
      cases v with
      | identifier name => exact absurd rfl (hv' name)
      | _ => rfl
  | .unary place op operand, hexprs, hnodes, hnodup, c, hc => by
    rw [Expr.tree, Tree.forall_mem_preorder_node] at hnodes
    refine annotatesAt_noting (hexprs _ List.mem_cons_self) hc hnodup fun visits hready => ?_
    rw [Expr.parts, List.forall_mem_cons] at hexprs
    rw [Expr.parts, List.map_cons, List.nodup_cons] at hnodup
    rw [Expr.parts, List.tail_cons, ← List.append_nil (List.map _ _)] at hready ⊢
    have hoperand := annotatesAt_typeExpr Γ operand hexprs.2 (hnodes.2 _ (by simp)) hnodup.2
      (hready.mono (by simp))
    refine hoperand.bind hready (by simp) fun r c' _ hready' hr => ?_
    exact annotatesAt_rule (e := .unary place op operand) hready'.toIsAnnotated rfl
      (by simp [Expr.tree, Node.kind, Head.kind]) hr.isSome hr.isComplete fun type htype =>
        annotatesAt_typeUnary hready'.toIsAnnotated (hr.knows type htype) op _
  | .binary place op left right, hexprs, hnodes, hnodup, c, hc => by
    rw [Expr.tree, Tree.forall_mem_preorder_node] at hnodes
    refine annotatesAt_noting (hexprs _ List.mem_cons_self) hc hnodup fun visits hready => ?_
    rw [Expr.parts, List.forall_mem_cons, List.forall_mem_append] at hexprs
    rw [Expr.parts, List.map_cons, List.nodup_cons, List.map_append, List.nodup_append'] at hnodup
    rw [Expr.parts, List.tail_cons, List.map_append] at hready ⊢
    have hleft := annotatesAt_typeExpr Γ left hexprs.2.1 (hnodes.2 _ (by simp)) hnodup.2.1
      (hready.mono (List.subset_append_left _ _))
    refine hleft.bind hready hnodup.2.2.2 fun l c' _ hready' hl => ?_
    rw [← List.append_nil (List.map _ _)] at hready' ⊢
    have hright := annotatesAt_typeExpr Γ right hexprs.2.2 (hnodes.2 _ (by simp)) hnodup.2.2.1
      (hready'.mono (by simp))
    refine hright.bind hready' (by simp) fun r c'' hadvances hready'' hr => ?_
    have hl := hl.advances hadvances
    refine annotatesAt_rule hready''.toIsAnnotated rfl (by simp [Expr.tree, Node.kind, Head.kind])
      hl.isSome (fun herrors => ?_) fun left hleft => ?_
    · exact List.forall_mem_append.2 ⟨hl.isComplete herrors, hr.isComplete herrors⟩
    · exact annotatesAt_withType hready''.toIsAnnotated hr.isSome (fun right hright =>
        annotatesAt_typeBinary hready''.toIsAnnotated (hl.knows left hleft) (hr.knows right hright)
          op _) gives_none
  | .access place kind object member, hexprs, hnodes, hnodup, c, hc => by
    rw [Expr.tree, Tree.forall_mem_preorder_node] at hnodes
    have he := hexprs _ List.mem_cons_self
    refine annotatesAt_noting he hc hnodup fun visits hready => ?_
    rw [Expr.parts, List.forall_mem_cons] at hexprs
    rw [Expr.parts, List.map_cons, List.nodup_cons] at hnodup
    rw [Expr.parts, List.tail_cons, ← List.append_nil (List.map _ _)] at hready ⊢
    have hobject := annotatesAt_typeExpr Γ object hexprs.2 (hnodes.2 _ (by simp)) hnodup.2
      (hready.mono (by simp))
    refine hobject.bind hready (by simp) fun r c' _ hready' hr => ?_
    refine annotatesAt_withType hready'.toIsAnnotated hr.isSome (fun type htype => ?_) fun h => ?_
    · refine (annotatesAt_typeAccess hready' he (hr.row type htype)).imp
        fun r' c'' hadvances hr' => ?_
      exact ⟨hr'.1, fun _ h => absurd h (by simp [Expr.tree, Head.isNaming]),
        fun herrors _ => hr'.2 herrors, (hr.advances hadvances).isComplete⟩
    · exact ⟨gives_none h, fun h' => absurd h' h, fun h' => absurd h' h, fun h' => absurd h' h⟩
  | .call place callee arguments, hexprs, hnodes, hnodup, c, hc => by
    rw [Expr.tree, Tree.forall_mem_preorder_node, List.forall_mem_cons] at hnodes
    refine annotatesAt_noting (hexprs _ List.mem_cons_self) hc hnodup fun visits hready => ?_
    rw [Expr.parts, List.forall_mem_cons, List.forall_mem_append] at hexprs
    rw [Expr.parts, List.map_cons, List.nodup_cons, List.map_append, List.nodup_append'] at hnodup
    rw [Expr.parts, List.tail_cons, List.map_append] at hready ⊢
    have hcallee := annotatesAt_typeExpr Γ callee hexprs.2.1 hnodes.2.1 hnodup.2.1
      (hready.mono (List.subset_append_left _ _))
    refine hcallee.bind hready hnodup.2.2.2 fun r c' _ hready' hr => ?_
    rw [← List.append_nil (List.map _ _)] at hready' ⊢
    have harguments := annotatesAt_typeExprs Γ arguments hexprs.2.2 hnodes.2.2 hnodup.2.2.1
      (hready'.mono (by simp))
    refine harguments.bind hready' (by simp) fun rs c'' hadvances hready'' hrs => ?_
    have hr := hr.advances hadvances
    refine annotatesAt_rule hready''.toIsAnnotated rfl (by simp [Expr.tree, Node.kind, Head.kind])
      hr.isSome (fun herrors => ?_) fun type htype => ?_
    · exact List.forall_mem_append.2 ⟨hr.isComplete herrors, hrs herrors⟩
    · exact annotatesAt_typeCall hready''.toIsAnnotated _ _ _
  | .cast place operand target, hexprs, hnodes, hnodup, c, hc => by
    rw [Expr.tree, Tree.forall_mem_preorder_node] at hnodes
    have htarget : target ∈ b.writtenTypes := Block.mem_writtenTypes_of_node
      (hnodes.2 target.tree (by simp) _ (by simp [WrittenType.tree, WrittenType.node,
        Tree.preorder, Tree.preorders]))
    refine annotatesAt_noting (hexprs _ List.mem_cons_self) hc hnodup fun visits hready => ?_
    rw [Expr.parts, List.forall_mem_cons] at hexprs
    rw [Expr.parts, List.map_cons, List.nodup_cons] at hnodup
    rw [Expr.parts, List.tail_cons, ← List.append_nil (List.map _ _)] at hready ⊢
    have hoperand := annotatesAt_typeExpr Γ operand hexprs.2 (hnodes.2 _ (by simp)) hnodup.2
      (hready.mono (by simp))
    refine hoperand.bind hready (by simp) fun r c' _ hready' hr => annotatesAt_get_bind ?_
    refine annotatesAt_rule (e := .cast place operand target) hready'.toIsAnnotated rfl
      (by simp [Expr.tree, Node.kind, Head.kind]) hr.isSome hr.isComplete fun type htype => ?_
    exact annotatesAt_withType hready'.toIsAnnotated
      (fun herrors => (hready'.found (hready'.typed herrors)).1 target htarget) (fun t ht =>
        annotatesAt_typeCast hready'.toIsAnnotated (hready'.declaredTypes _ t ht).2 _) gives_none
  | .index place target subscript, hexprs, hnodes, hnodup, c, hc => by
    rw [Expr.tree, Tree.forall_mem_preorder_node] at hnodes
    refine annotatesAt_noting (hexprs _ List.mem_cons_self) hc hnodup fun visits hready => ?_
    rw [Expr.parts, List.forall_mem_cons, List.forall_mem_append] at hexprs
    rw [Expr.parts, List.map_cons, List.nodup_cons, List.map_append, List.nodup_append'] at hnodup
    rw [Expr.parts, List.tail_cons, List.map_append] at hready ⊢
    have htarget := annotatesAt_typeExpr Γ target hexprs.2.1 (hnodes.2 _ (by simp)) hnodup.2.1
      (hready.mono (List.subset_append_left _ _))
    refine htarget.bind hready hnodup.2.2.2 fun l c' _ hready' hl => ?_
    rw [← List.append_nil (List.map _ _)] at hready' ⊢
    have hsubscript := annotatesAt_typeExpr Γ subscript hexprs.2.2 (hnodes.2 _ (by simp))
      hnodup.2.2.1 (hready'.mono (by simp))
    refine hsubscript.bind hready' (by simp) fun r c'' hadvances hready'' hr => ?_
    have hl := hl.advances hadvances
    refine annotatesAt_rule hready''.toIsAnnotated rfl (by simp [Expr.tree, Node.kind, Head.kind])
      hl.isSome (fun herrors => ?_) fun type htype => ?_
    · exact List.forall_mem_append.2 ⟨hl.isComplete herrors, hr.isComplete herrors⟩
    · exact annotatesAt_withType hready''.toIsAnnotated hr.isSome (fun _ _ =>
        annotatesAt_typeIndex hready''.toIsAnnotated _ _) gives_none

theorem annotatesAt_typeExprs (Γ : Locals) : (es : List Expr) →
    (∀ part ∈ Expr.listParts es, (Γ, part) ∈ b.exprs) →
    (∀ t ∈ Expr.trees es, ∀ n ∈ t.preorder, n ∈ b.tree.preorder) →
    ((Expr.listParts es).map Expr.id).Nodup → ∀ {c : Context},
    c.IsReady b typed ((Expr.listParts es).map Expr.id) →
    AnnotatesAt b typed c ((Expr.listParts es).map Expr.id) (typeExprs es) fun _ c' =>
      c'.errors = [] → ∀ part ∈ Expr.listParts es, c'.IsComplete part.tree.root
  | [], _, _, _, c, hc => annotatesAt_pure hc.toIsAnnotated (by simp [Expr.listParts])
  | e :: es, hexprs, hnodes, hnodup, c, hc => by
    rw [Expr.listParts, List.forall_mem_append] at hexprs
    rw [Expr.trees, List.forall_mem_cons] at hnodes
    rw [Expr.listParts, List.map_append, List.nodup_append'] at hnodup
    rw [Expr.listParts, List.map_append] at hc ⊢
    have he := annotatesAt_typeExpr Γ e hexprs.1 hnodes.1 hnodup.1
      (hc.mono (List.subset_append_left _ _))
    refine he.bind hc hnodup.2.2 fun r c' _ hready hr => ?_
    rw [← List.append_nil (List.map _ _)] at hready ⊢
    have hes := annotatesAt_typeExprs Γ es hexprs.2 hnodes.2 hnodup.2.1 (hready.mono (by simp))
    refine hes.bind hready (by simp) fun rs c'' hadvances hready' hrs => ?_
    refine annotatesAt_pure hready'.toIsAnnotated fun herrors => ?_
    exact List.forall_mem_append.2 ⟨(hr.advances hadvances).isComplete herrors, hrs herrors⟩

end

/-! ## Checks -/

/-- Nothing happens but visits and reports. -/
def Remarks (m : Analyzing Unit) : Prop :=
  ∀ c : Context, ∃ visits es, m.run c = ((), { c with visits, errors := c.errors ++ es })

theorem remarks_pure : Remarks (pure ()) := fun c => ⟨c.visits, [], by rw [List.append_nil]; rfl⟩

theorem remarks_report (e : SemanticError) : Remarks (report e) := fun c => ⟨c.visits, [e], rfl⟩

theorem remarks_get_bind {f : Context → Analyzing Unit} (h : ∀ c, Remarks (f c)) :
    Remarks (get >>= f) := fun c => h c c

theorem remarks_visit_bind {phase : Phase} {node : NodeId} {m : Analyzing Unit} (h : Remarks m) :
    Remarks (visit phase node >>= fun _ => m) := fun c => by
  obtain ⟨visits, es, hrun⟩ := h { c with visits := ⟨phase, node, c.scopes.entries⟩ :: c.visits }
  exact ⟨visits, es, hrun⟩

theorem remarks_compareInitializer (expected : Option SymbolId) (e : Expr)
    (found : Option SymbolId) : Remarks (compareInitializer expected e found) := by
  refine remarks_get_bind fun c => ?_
  split
  · split
    · exact remarks_get_bind fun _ => remarks_report _
    · exact remarks_pure
  · exact remarks_pure

theorem remarks_compareCondition (e : Expr) (found : Option SymbolId) :
    Remarks (compareCondition e found) := by
  cases found with
  | none => exact remarks_pure
  | some type =>
    refine remarks_get_bind fun c => ?_
    split
    · exact remarks_pure
    · exact remarks_report _

theorem remarks_compareReturn (place : Place) (value : Option Expr) (found : Option SymbolId) :
    Remarks (compareReturn place value found) := by
  refine remarks_get_bind fun c => ?_
  split
  · split
    · exact remarks_pure
    · exact remarks_get_bind fun _ => remarks_report _
  · split
    · exact remarks_get_bind fun _ => remarks_report _
    · exact remarks_pure
  · exact remarks_pure

theorem remarks_checkLoopControl (place : Place) : Remarks (checkLoopControl place) := by
  refine remarks_visit_bind (remarks_get_bind fun c => ?_)
  split
  · exact remarks_pure
  · exact remarks_report _

theorem annotatesAt_of_remarks {m : Analyzing Unit} (hm : Remarks m) (hc : c.IsAnnotated b typed) :
    AnnotatesAt b typed c [] m fun _ _ => True := by
  obtain ⟨visits, es, hrun⟩ := hm c
  have hcontext : (m.run c).2 = { c with visits, errors := c.errors ++ es } := by rw [hrun]
  refine ⟨?_, ?_, ?_, trivial⟩
  · rw [hcontext]
    exact hc.frame c.scopes visits _
  · rw [hcontext]
    exact { Context.Advances.refl b [] c with errors := fun h => (List.append_eq_nil_iff.1 h).1 }
  · rw [hcontext]

/-- An expression is compared with what is expected of it. -/
theorem annotatesAt_compare {e : Expr} {m : Analyzing (Option SymbolId)}
    (hm : AnnotatesAt b typed c ns m (Typed e)) (hc : c.IsReady b typed ns)
    {f : Option SymbolId → Analyzing Unit} (hf : ∀ r, Remarks (f r)) :
    AnnotatesAt b typed c ns (m >>= f) fun _ c' =>
      c'.errors = [] → ∀ part ∈ e.parts, c'.IsComplete part.tree.root := by
  rw [← List.append_nil ns] at hc ⊢
  refine hm.bind hc (by simp) fun r c' _ hready hr => ?_
  exact (annotatesAt_of_remarks (hf r) hready.toIsAnnotated).imp fun _ _ hadvances _ =>
    (hr.advances hadvances).isComplete

/-- A jump has a label unless it is reported. -/
theorem annotatesAt_checkGoto (hc : c.IsAnnotated b typed) {place : Place} {label : Ident}
    (hnode : ⟨place, .goto label⟩ ∈ b.tree.preorder) :
    AnnotatesAt b typed c [] (checkGoto place label) fun _ c' =>
      c'.errors = [] → c'.IsComplete ⟨place, .goto label⟩ := by
  refine annotatesAt_visit_bind fun visits => annotatesAt_get_bind ?_
  dsimp only
  split
  · next x hx =>
    obtain ⟨f, hf, hx⟩ := Option.bind_eq_some_iff.1 hx
    obtain ⟨s, hs, hf⟩ := Option.bind_eq_some_iff.1 hf
    obtain ⟨y, -, hs⟩ := Option.bind_eq_some_iff.1 hs
    have hlabel := (hc.library.entries hs hf).2.2 _ x hx
    have hget : ∀ n, (c.annotations.labels.insert place.id x).get? n =
        if n = place.id then some x else c.annotations.labels.get? n :=
      fun n => OrderedMap.get?_insert _ _ _ _
    refine ⟨⟨⟨hc.library, hc.globals, hc.symbols, hc.declaredTypes, hc.signatures, hc.found⟩,
      hc.resolvedTypes, hc.members, fun n z hz => ?_⟩,
      { Context.Advances.refl b [] _ with labels := ?_ }, rfl, fun _ => ?_⟩
    · have hz := (hget n).symm.trans hz
      split at hz
      · next hn => exact ⟨⟨_, hnode, hn.symm, rfl⟩, Option.some.inj hz ▸ hlabel⟩
      · exact hc.labels n z hz
    · intro n hn
      exact Context.IsSound.isSome_insert hn
    · exact ⟨by simp [Node.kind, Head.kind, NodeKind.isExpression], by simp [Head.isNaming],
        by simp [Node.kind, Head.kind], fun _ =>
          Option.isSome_iff_exists.2 ⟨x, (hget place.id).trans (if_pos rfl)⟩,
        by simp [Node.kind, Head.kind], by simp [Node.kind, Head.kind]⟩
  · have herrors : ∀ e : SemanticError, c.errors ++ [e] ≠ [] := by simp
    exact ⟨hc.frame _ _ _, { Context.Advances.refl b [] _ with
      errors := fun h => absurd h (herrors _) }, rfl, fun h => absurd h (herrors _)⟩

end Analyzing

/-- The numbers of the expressions of a check. -/
def Check.ids (k : Check) : List NodeId := k.exprs.flatMap fun p => p.2.parts.map Expr.id

namespace Block

open Analyzing

/-- The notes of these checks, the first ones of the unit, are taken. -/
structure HasAnnotated (b : Block) (typed : Prop) (c₀ : Context) (ks : List Check) (c : Context) :
    Prop where
  isPrefix : ks <+: b.checks
  isAnnotated : c.IsAnnotated b typed
  advances : c₀.Advances b (ks.flatMap Check.ids) c
  isComplete : c.errors = [] → ∀ n ∈ ks.flatMap Check.nodes, c.IsComplete n

theorem exprs_ids (b : Block) : b.exprs.map (fun e => e.2.id) = b.checks.flatMap Check.ids := by
  simp only [exprs, List.map_flatMap, List.map_map]
  rfl

theorem Numbered.nodup_ids_check (hb : b.Numbered) {k : Check} (hk : k ∈ b.checks) :
    k.ids.Nodup := by
  have hnodup := hb.nodup_exprs
  rw [exprs_ids] at hnodup
  exact (List.nodup_flatMap.1 hnodup).1 k hk

/-- The expressions of the checks that are done are not met again. -/
theorem Numbered.notMem_ids_of_prefix (hb : b.Numbered) {ks : List Check} {k : Check}
    (hks : ks ++ [k] <+: b.checks) {n : NodeId} (hn : n ∈ k.ids) : n ∉ ks.flatMap Check.ids := by
  have hnodup := hb.nodup_exprs
  obtain ⟨ks', hks⟩ := hks
  rw [exprs_ids, ← hks, List.flatMap_append, List.flatMap_append, List.flatMap_singleton] at hnodup
  exact fun hmem => (List.nodup_append'.1 hnodup.of_append_left).2.2 hmem hn

/-- A check of one expression. -/
theorem annotatesAt_of_typeExpr (hb : b.Numbered) {k : Check} (hk : k ∈ b.checks) {Γ : Locals}
    {e : Expr} (hexprs : k.exprs = [(Γ, e)]) (hnodes : k.nodes = e.parts.map fun e => e.tree.root)
    (he : e.tree.preorder ⊆ b.tree.preorder) {c : Context} {m : Analyzing Unit}
    (hm : (∀ c : Context, c.IsReady b typed k.ids →
        AnnotatesAt b typed c k.ids (typeExpr e) (Typed e)) →
      AnnotatesAt b typed c k.ids m fun _ c' =>
        c'.errors = [] → ∀ part ∈ e.parts, c'.IsComplete part.tree.root) :
    AnnotatesAt b typed c k.ids m fun _ c' =>
      c'.errors = [] → ∀ n ∈ k.nodes, c'.IsComplete n := by
  have hids : k.ids = e.parts.map Expr.id := by
    rw [Check.ids, hexprs, List.flatMap_singleton]
  have hparts : ∀ part ∈ e.parts, (Γ, part) ∈ b.exprs := fun part hpart => by
    refine List.mem_flatMap.2 ⟨k, hk, List.mem_flatMap.2 ⟨(Γ, e), by simp [hexprs], ?_⟩⟩
    exact List.mem_map_of_mem hpart
  have hnodup : (e.parts.map Expr.id).Nodup := hids ▸ hb.nodup_ids_check hk
  have hexpr : ∀ c : Context, c.IsReady b typed k.ids →
      AnnotatesAt b typed c k.ids (typeExpr e) (Typed e) := fun c hc => by
    rw [hids] at hc ⊢
    exact annotatesAt_typeExpr Γ e hparts he hnodup hc
  refine (hm hexpr).imp fun _ c' _ hcomplete herrors n hn => ?_
  rw [hnodes] at hn
  obtain ⟨part, hpart, rfl⟩ := List.mem_map.1 hn
  exact hcomplete herrors part hpart

/-- A check takes its notes. -/
theorem Step.annotatesAt (hb : b.Numbered) {row : NodeId → Option SymbolId} {k : Check}
    {p : ScopeStack SymbolId → Prop} {m : Analyzing Unit} (hm : b.Step row k p m)
    (hk : k ∈ b.checks) {c : Context} (hc : c.IsReady b typed k.ids) :
    AnnotatesAt b typed c k.ids m fun _ c' =>
      c'.errors = [] → ∀ n ∈ k.nodes, c'.IsComplete n := by
  cases hm with
  | expr Γ he =>
    exact annotatesAt_of_typeExpr hb hk rfl (by simp [Check.nodes, Check.exprs]) he fun hexpr =>
      annotatesAt_compare (hexpr c hc) hc fun _ => remarks_pure
  | condition Γ he =>
    refine annotatesAt_of_typeExpr hb hk rfl (by simp [Check.nodes, Check.exprs]) he fun hexpr => ?_
    rw [checkCondition_eq]
    exact annotatesAt_compare (hexpr c hc) hc fun _ => remarks_compareCondition _ _
  | @initializer Γ d e hd he =>
    have hsubset := Tree.preorder_subset_of_mem_children hd (d.initializer_mem_children he)
    exact annotatesAt_of_typeExpr hb hk rfl (by simp [Check.nodes, Check.exprs]) hsubset
      fun hexpr => annotatesAt_get_bind (annotatesAt_compare (hexpr c hc) hc fun _ =>
        remarks_compareInitializer _ _ _)
  | @returns Γ place value d hvalue _ _ =>
    rw [checkReturn_eq]
    cases value with
    | none =>
      refine annotatesAt_visit_bind fun visits => ?_
      exact (annotatesAt_of_remarks (remarks_compareReturn place none none)
        (hc.toIsAnnotated.frame c.scopes visits c.errors)).imp
          fun _ _ _ _ _ n hn => absurd hn (by simp [Check.nodes, Check.exprs])
    | some e =>
      have hsubset := Tree.preorder_subset_of_mem_children hvalue (Expr.mem_optionTrees rfl)
      refine annotatesAt_of_typeExpr hb hk (e := e) rfl (by simp [Check.nodes, Check.exprs]) hsubset
        fun hexpr => annotatesAt_visit_bind fun visits => ?_
      have hready : { c with visits }.IsReady b typed (Check.returns place Γ d.result (some e)).ids :=
        ⟨hc.toIsAnnotated.frame c.scopes visits c.errors, hc.typed, hc.fresh⟩
      exact annotatesAt_compare (hexpr _ hready) hready fun _ => remarks_compareReturn _ _ _
  | loopControl place inLoop =>
    exact (annotatesAt_of_remarks (remarks_checkLoopControl place) hc.toIsAnnotated).imp
      fun _ _ _ _ _ n hn => absurd hn (by simp [Check.nodes, Check.exprs])
  | goto hd hnode =>
    refine (annotatesAt_checkGoto hc.toIsAnnotated (Invariant.mem_preorder_of_mem_body hd hnode)).imp
      fun _ _ _ hcomplete herrors n hn => ?_
    rw [Check.nodes_goto, List.mem_singleton] at hn
    exact hn ▸ hcomplete herrors

section Invariant

variable (hb : b.Numbered) {c₀ : Context}
  (hfree : ∀ e ∈ b.exprs, c₀.annotations.resolvedTypes.get? e.2.id = none)
  (htyped : c₀.errors = [] → typed)

include hb hfree htyped

/-- No type is noted yet of the expressions of the next check. -/
theorem HasAnnotated.isReady {ks : List Check} {k : Check} {c : Context}
    (hc : b.HasAnnotated typed c₀ ks c) (hks : ks ++ [k] <+: b.checks) :
    c.IsReady b typed k.ids := by
  refine ⟨hc.isAnnotated, fun herrors => htyped (hc.advances.errors herrors), fun n hn => ?_⟩
  rw [hc.advances.types_eq n (hb.notMem_ids_of_prefix hks hn)]
  have hmem : n ∈ b.exprs.map fun e => e.2.id := by
    rw [exprs_ids]
    exact List.mem_flatMap.2 ⟨k, hks.subset (by simp), hn⟩
  obtain ⟨e, he, rfl⟩ := List.mem_map.1 hmem
  exact hfree e he

/-- The notes of the checks that are done are taken. -/
theorem invariant_hasAnnotated
    (hrows : ∀ n ∈ b.tree.preorder, n.kind.isValue = true →
      (c₀.annotations.symbols.get? n.id).isSome) :
    b.Invariant c₀.annotations.symbols.get? (b.HasAnnotated typed c₀) := by
  refine .of_steps (fun {ks c} scopes visits h => ?_) (fun h n hn hkind => ?_) hrows
    fun k p m hm done c hdone hc _ => ?_
  · exact ⟨h.isPrefix, h.isAnnotated.frame scopes visits c.errors, h.advances.frame scopes visits,
      fun herrors n hn => ((Context.Advances.refl b [] c).frame scopes visits).isComplete
        (h.isComplete herrors n hn)⟩
  · refine h.advances.symbols_eq n.id fun e he heq => ?_
    refine hb.id_notMem_bindings he (heq ▸ List.mem_map_of_mem (List.mem_filter.2 ⟨hn, ?_⟩))
    revert hkind
    cases n.kind <;> simp [NodeKind.isValue, NodeKind.isBinding]
  · have hannotates := hm.annotatesAt hb (hdone.subset (by simp))
      (hc.isReady hb hfree htyped hdone)
    refine ⟨⟨hdone, hannotates.isAnnotated, ?_, fun herrors => ?_⟩, hannotates.scopes_eq⟩
    · rw [List.flatMap_append, List.flatMap_singleton]
      exact hc.advances.trans hannotates.advances
    · rw [List.flatMap_append, List.flatMap_singleton, List.forall_mem_append]
      exact ⟨fun n hn => hannotates.advances.isComplete
        (hc.isComplete (hannotates.advances.errors herrors) n hn), hannotates.result herrors⟩

end Invariant

end Block

end Sable
