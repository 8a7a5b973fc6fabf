import Sable.Proofs.Analysis.BindingUnit
import Sable.Proofs.Analysis.Resolving
import Sable.Proofs.Symbol.Sound

/-!
# What the first phases uphold

While a unit is declared, all that its annotations and its library mention is known. Each step of the first three
phases keeps it so.

## Main definitions

* `Head.Denotes`: what the symbol of a node can be.
* `Context.IsSound`: all that is mentioned is known.
* `Analyzing.Upholds`: a step that keeps a context sound.

## Main statements

* `Analyzing.upholds_declareClasses`, `Analyzing.upholds_resolveTypes`,
  `Analyzing.upholds_bindBlock`: the first three phases.
-/
namespace Sable

open SymbolSort
open Library (Evolves)

/-- What a symbol of a node stands for. -/
def Head.Denotes : Head → SymbolSort → Prop
  | .classDecl _ => IsClass
  | .function .. => IsFunction
  | .parameter _ => (· = .variable true)
  | .variable _ => (· = .variable false)
  | .label _ => IsLabel
  | .value (.identifier _) => IsValue
  | _ => fun _ => False

/-- All names of the node are plain. -/
def Head.IsPlain (h : Head) : Prop := ∀ name ∈ h.names, IsPlainName name.name

/-- What the library and the annotations mention is known, and the annotations are about nodes of
the unit. If `typed`, the variables and functions of the library have types; if `found`, all written
types and all functions of the unit have theirs. -/
structure Context.IsSound (b : Block) (typed found : Prop) (c : Context) : Prop where
  library : c.library.IsSound typed
  globals : ∀ n x, c.globals.get? n = some x → c.library.Knows Any x
  symbols : ∀ n x, c.annotations.symbols.get? n = some x → ∃ m ∈ b.tree.preorder, m.id = n ∧
    (m.head.IsPlain → c.library.Knows m.head.Denotes x)
  declaredTypes : ∀ n x, c.annotations.declaredTypes.get? n = some x →
    (∃ t ∈ b.writtenTypes, t.place.id = n) ∧ c.library.Knows IsType x
  signatures : ∀ n x, c.annotations.signatures.get? n = some x →
    (∃ d ∈ b.allFunctions, d.place.id = n) ∧ c.library.Knows IsSignature x
  found : found →
    (∀ t ∈ b.writtenTypes, (c.annotations.declaredTypes.get? t.place.id).isSome) ∧
    ∀ d ∈ b.allFunctions, (c.annotations.signatures.get? d.place.id).isSome

variable {b : Block} {typed found : Prop}

namespace Context.IsSound

variable {c : Context} {lib : Library} {n : NodeId} {x : SymbolId}

theorem evolve (h : c.IsSound b typed found) (hlib : Evolves typed c.library lib) :
    { c with library := lib }.IsSound b typed found where
  library := hlib.isSound
  globals n x hx := hlib.knows (h.globals n x hx)
  symbols n x hx := by
    obtain ⟨m, hm, hid, hknows⟩ := h.symbols n x hx
    exact ⟨m, hm, hid, fun hplain => hlib.knows (hknows hplain)⟩
  declaredTypes n x hx := (h.declaredTypes n x hx).imp_right hlib.knows
  signatures n x hx := (h.signatures n x hx).imp_right hlib.knows
  found := h.found

/-- Scopes, visits and errors do not matter. -/
theorem frame (h : c.IsSound b typed found) (scopes : ScopeStack SymbolId) (visits : List Visit)
    (attempted : List NodeId) (errors : List SemanticError) :
    { c with scopes, visits, attempted, errors }.IsSound b typed found :=
  ⟨h.library, h.globals, h.symbols, h.declaredTypes, h.signatures, h.found⟩

theorem insertSymbol (h : c.IsSound b typed found) {m : Node} (hm : m ∈ b.tree.preorder)
    (hx : m.head.IsPlain → c.library.Knows m.head.Denotes x) :
    { c with annotations := { c.annotations with
      symbols := c.annotations.symbols.insert m.id x } }.IsSound b typed found where
  library := h.library
  globals := h.globals
  symbols n y hy := by
    rw [OrderedMap.get?_insert] at hy
    split at hy
    · next hn => exact ⟨m, hm, hn.symm, Option.some.inj hy ▸ hx⟩
    · exact h.symbols n y hy
  declaredTypes := h.declaredTypes
  signatures := h.signatures
  found := h.found

theorem isSome_insert {κ α : Type} [DecidableEq κ] {m : OrderedMap κ α} {k k' : κ} {v : α}
    (h : (m.get? k').isSome) : ((m.insert k v).get? k').isSome := by
  rw [OrderedMap.get?_insert]
  split
  · rfl
  · exact h

theorem insertType (h : c.IsSound b typed found) {t : WrittenType} (ht : t ∈ b.writtenTypes)
    (hx : c.library.Knows IsType x) :
    { c with annotations := { c.annotations with
      declaredTypes := c.annotations.declaredTypes.insert t.place.id x } }.IsSound b typed
        found where
  library := h.library
  globals := h.globals
  symbols := h.symbols
  declaredTypes n y hy := by
    rw [OrderedMap.get?_insert] at hy
    split at hy
    · next hn => exact ⟨⟨t, ht, hn.symm⟩, Option.some.inj hy ▸ hx⟩
    · exact h.declaredTypes n y hy
  signatures := h.signatures
  found hfound := ⟨fun t ht => isSome_insert ((h.found hfound).1 t ht), (h.found hfound).2⟩

theorem insertSignature (h : c.IsSound b typed found) {d : FunctionDecl} (hd : d ∈ b.allFunctions)
    (hx : c.library.Knows IsSignature x) :
    { c with annotations := { c.annotations with
      signatures := c.annotations.signatures.insert d.place.id x } }.IsSound b typed
        found where
  library := h.library
  globals := h.globals
  symbols := h.symbols
  declaredTypes := h.declaredTypes
  signatures n y hy := by
    rw [OrderedMap.get?_insert] at hy
    split at hy
    · next hn => exact ⟨⟨d, hd, hn.symm⟩, Option.some.inj hy ▸ hx⟩
    · exact h.signatures n y hy
  found hfound := ⟨(h.found hfound).1, fun d hd => isSome_insert ((h.found hfound).2 d hd)⟩

/-- A symbol that is made for a node. -/
theorem makes {c' : Context} {s : Symbol} (h : c.IsSound b typed found) {m : Node}
    (hm : m ∈ b.tree.preorder) (hmakes : c.Makes m.id x s c') (hs : s.IsSound c.library typed)
    (hdenotes : m.head.Denotes s.sort) :
    c'.IsSound b typed found ∧ Evolves typed c.library c'.library ∧
      c'.library.Knows (· = s.sort) x := by
  have hstep := hmakes.creates.evolves h.library hs
  have hx : c'.library.Knows (· = s.sort) x := ⟨s, hmakes.creates.symbol, rfl⟩
  obtain ⟨visits, heq⟩ := hmakes.eq
  refine ⟨?_, hstep, hx⟩
  rw [heq]
  exact ((h.evolve hstep).insertSymbol hm fun _ => hx.imp fun _ hs => hs ▸ hdenotes).frame
    c.scopes visits c.attempted c.errors

end Context.IsSound

namespace Analyzing

variable {α β : Type} {s : ScopeStack SymbolId} {lib : Library}

/-- A context that is sound, with these scopes and this library, is still sound behind the step, the
scopes are the same, and the library has more. Of the result and the library then `Q` holds. -/
def Upholds (b : Block) (typed found : Prop) (s : ScopeStack SymbolId) (lib : Library)
    (m : Analyzing α) (Q : α → Library → Prop) : Prop :=
  ∀ ⦃c : Context⦄, c.IsSound b typed found → c.scopes = s → c.library = lib →
    (m.run c).2.IsSound b typed found ∧ (m.run c).2.scopes = s ∧
      lib.Extends (m.run c).2.library ∧ Q (m.run c).1 (m.run c).2.library

/-- A step whose result does not matter. -/
abbrev Sustains (b : Block) (typed found : Prop) (s : ScopeStack SymbolId) (lib : Library)
    (m : Analyzing α) : Prop := Upholds b typed found s lib m fun _ _ => True

/-! ## Combining steps -/

section Combining

variable {m : Analyzing α} {P Q : α → Library → Prop} {R : β → Library → Prop}

theorem Upholds.bind {f : α → Analyzing β} (hm : Upholds b typed found s lib m P)
    (hf : ∀ x lib', lib.Extends lib' → P x lib' → Upholds b typed found s lib' (f x) R) :
    Upholds b typed found s lib (m >>= f) R := by
  intro c hc hs hlib
  obtain ⟨hc', hs', hext, hP⟩ := hm hc hs hlib
  obtain ⟨hc'', hs'', hext', hR⟩ := hf _ _ hext hP hc' hs' rfl
  exact ⟨hc'', hs'', hext.trans hext', hR⟩

theorem upholds_pure {x : α} (h : Q x lib) : Upholds b typed found s lib (pure x) Q := by
  rintro c hc rfl rfl
  exact ⟨hc, rfl, .refl _, h⟩

theorem upholds_get : Upholds b typed found s lib (get : Analyzing Context) fun c lib' =>
    lib' = lib ∧ c.library = lib ∧ c.scopes = s ∧ c.IsSound b typed found := by
  rintro c hc rfl rfl
  exact ⟨hc, rfl, .refl _, rfl, rfl, rfl, hc⟩

/-- A step that asks about the context first. -/
theorem upholds_get_bind {f : Context → Analyzing β}
    (hf : ∀ c : Context, c.IsSound b typed found → c.scopes = s → c.library = lib →
      Upholds b typed found s lib (f c) R) : Upholds b typed found s lib (get >>= f) R := by
  refine upholds_get.bind fun c lib' _ h => ?_
  obtain ⟨rfl, hlib, hs, hc⟩ := h
  exact hf c hc hs hlib

theorem sustains_forM {xs : List β} {f : β → Analyzing Unit}
    (h : ∀ x ∈ xs, ∀ lib', lib.Extends lib' → Sustains b typed found s lib' (f x)) :
    Sustains b typed found s lib (xs.forM f) := by
  induction xs generalizing lib with
  | nil => exact upholds_pure trivial
  | cons x xs ih =>
    change Sustains b typed found s lib (f x >>= fun _ => xs.forM f)
    exact (h x List.mem_cons_self lib (.refl lib)).bind fun _ lib' hext _ =>
      ih fun y hy lib'' hext' => h y (List.mem_cons_of_mem x hy) lib'' (hext.trans hext')

/-- A step that touches neither the library nor what is known. -/
theorem sustains_modify {f : Context → Context} (h : ∀ c : Context, ∃ visits attempted errors,
    f c = { c with visits, attempted, errors }) :
    Sustains b typed found s lib (modify f) := by
  rintro c hc rfl rfl
  obtain ⟨visits, attempted, errors, heq⟩ := h c
  change (f c).IsSound b typed found ∧ (f c).scopes = _ ∧ c.library.Extends (f c).library ∧ True
  rw [heq]
  exact ⟨hc.frame c.scopes visits attempted errors, rfl, .refl _, trivial⟩

theorem sustains_report (e : SemanticError) : Sustains b typed found s lib (report e) :=
  sustains_modify fun _ => ⟨_, _, _, rfl⟩

theorem sustains_visit (phase : Phase) (n : NodeId) :
    Sustains b typed found s lib (visit phase n) :=
  sustains_modify fun _ => ⟨_, _, _, rfl⟩

theorem upholds_onLibrary {f : Library → α × Library}
    (h : lib.IsSound typed → Evolves typed lib (f lib).2 ∧ Q (f lib).1 (f lib).2) :
    Upholds b typed found s lib (onLibrary f) Q := by
  rintro c hc rfl rfl
  obtain ⟨hstep, hQ⟩ := h hc.library
  exact ⟨hc.evolve hstep, rfl, hstep.toExtends, hQ⟩

theorem upholds_reporting {f : Library → Except SemanticError α × Library}
    (h : lib.IsSound typed → Evolves typed lib (f lib).2 ∧ ∀ x, (f lib).1 = .ok x → Q x (f lib).2) :
    Upholds b typed found s lib (reporting f) fun r lib' => ∀ x, r = some x → Q x lib' := by
  rintro c hc rfl rfl
  obtain ⟨hstep, hQ⟩ := h hc.library
  rw [run_reporting]
  refine ⟨(hc.evolve hstep).frame c.scopes c.visits c.attempted _, rfl, hstep.toExtends,
    fun x hx => hQ x ?_⟩
  cases hf : (f c.library).1 with
  | ok y =>
    rw [hf] at hx
    exact congrArg _ (Option.some.inj hx)
  | error e =>
    rw [hf] at hx
    exact absurd hx (by simp [Except.toOption])

/-- A registration, whether or not it fails. -/
theorem sustains_registering {f : Library → Except SemanticError Unit × Library}
    (h : lib.IsSound typed → Evolves typed lib (f lib).2) :
    Sustains b typed found s lib (do let _ ← reporting f) :=
  (upholds_reporting (Q := fun _ _ => True) fun hlib => ⟨h hlib, fun _ _ => trivial⟩).bind
    fun _ _ _ _ => upholds_pure trivial

theorem sustains_inScope {kind : ScopeKind} {owner : NodeId} {symbol : Option SymbolId}
    {m : Analyzing Unit} (h : Sustains b typed found (s.push kind owner symbol) lib m) :
    Sustains b typed found s lib (inScope kind owner symbol m) := by
  rintro c hc rfl rfl
  obtain ⟨hc', hs', hext, -⟩ := h (hc.frame (c.scopes.push kind owner symbol) c.visits c.attempted
    c.errors) rfl rfl
  refine ⟨hc'.frame (ScopeStack.pop _) _ _ _, ?_, hext, trivial⟩
  exact congrArg ScopeStack.pop hs'

end Combining

/-! ## Classes -/

/-- A symbol is noted for a node. -/
theorem sustains_noteSymbol {m : Node} (hm : m ∈ b.tree.preorder) {x : SymbolId}
    (hx : m.head.IsPlain → lib.Knows m.head.Denotes x) : Sustains b typed found s lib
      (annotate fun a => { a with symbols := a.symbols.insert m.id x }) := by
  rintro c hc rfl rfl
  exact ⟨hc.insertSymbol hm hx, rfl, .refl _, trivial⟩

theorem sustains_declareGlobal (name : String) (span : Span) {x : SymbolId}
    (hx : lib.Knows Any x) : Sustains b typed found s lib (declareGlobal name x span) := by
  refine upholds_get_bind fun c _ _ _ => ?_
  split
  · exact sustains_report _
  · have hname : Sustains b typed found s lib
        (modify fun c => { c with globals := c.globals.insert name x }) := by
      rintro c hc rfl rfl
      exact ⟨{ hc with globals := Library.knows_insert hc.globals name hx }, rfl, .refl _, trivial⟩
    exact hname.bind fun _ _ _ _ => sustains_registering fun hlib => hlib.registerGlobal x

theorem sustains_declareClass {d : ClassDecl} (hd : d ∈ b.classes) :
    Sustains b typed found s lib (declareClass d) := by
  refine (upholds_reporting (Q := fun x lib' => lib'.Knows (IsDeclaredAs d.name.name) x)
    fun hlib => hlib.createType d.name.name d.name.span).bind fun created _ _ hcreated => ?_
  match created with
  | none => exact upholds_pure trivial
  | some x =>
    have hplace : Upholds b typed found s _ (onLibrary fun lib =>
        ((), lib.setDeclaration x d.place.id)) fun _ lib' =>
          lib'.Knows (IsDeclaredAs d.name.name) x :=
      upholds_onLibrary fun hlib =>
        have hstep := hlib.setDeclaration x d.place.id
        ⟨hstep, hstep.knows (hcreated x rfl)⟩
    refine hplace.bind fun _ _ _ hx => ?_
    refine (sustains_noteSymbol (m := ⟨d.place, .classDecl d.name⟩)
      (Block.classNode_mem_preorder hd) fun hplain => hx.imp fun s hs => hs.2 ?_).bind
        fun _ _ hext _ => sustains_declareGlobal _ _ (hext.knows hx.any)
    rw [Library.splitStars_of_isPlainName (hplain d.name (by simp [Head.names]))]

theorem sustains_declareClasses : Sustains b typed found s lib (declareClasses b) :=
  sustains_forM fun _ hd _ _ => sustains_declareClass hd

/-! ## Written types -/

theorem upholds_builtin (name : String) (span : Span) :
    Upholds b typed found s lib (builtin name span) fun r lib' =>
      ∀ x, r = some x → lib'.Knows IsType x := by
  refine upholds_get_bind fun c _ _ hlib => ?_
  split
  · next x hx =>
    refine upholds_pure fun y hy => ?_
    obtain ⟨t, ht⟩ := Option.isSome_iff_exists.1 (Option.filter_eq_some_iff.1 hx).2
    rw [← Option.some.inj hy, ← hlib]
    exact Library.knows_isType_of_type? ht
  · exact (sustains_report _).bind fun _ _ _ _ => upholds_pure (by simp)

theorem upholds_resolveType {t : WrittenType} (ht : t ∈ b.writtenTypes) :
    Upholds b typed found s lib (resolveType t) fun r lib' =>
      ∀ x, r = some x → lib'.Knows IsType x := by
  refine upholds_get_bind fun c hc _ hlib => ?_
  split
  · exact upholds_pure fun x hx => hlib ▸ (hc.declaredTypes _ x hx).2
  · refine (sustains_modify fun _ => ⟨_, _, _, rfl⟩).bind fun _ lib' hext _ => ?_
    split
    · exact (sustains_report _).bind fun _ _ _ _ => upholds_pure (by simp)
    · next base hbase =>
      have hknows : lib'.Knows IsType base := by
        obtain ⟨u, hu⟩ := Option.isSome_iff_exists.1 (Option.filter_eq_some_iff.1 hbase).2
        exact hext.knows (hlib ▸ Library.knows_isType_of_type? hu)
      refine (upholds_onLibrary (Q := fun x lib' => lib'.Knows IsType x) fun hlib =>
        hlib.pointerType hknows t.stars).bind fun x lib'' _ hx => ?_
      have hnote : Sustains b typed found s lib'' (annotate fun a =>
          { a with declaredTypes := a.declaredTypes.insert t.place.id x }) := by
        rintro c hc rfl rfl
        exact ⟨hc.insertType ht hx, rfl, .refl _, trivial⟩
      exact hnote.bind fun _ _ hext _ => upholds_pure fun y hy =>
        Option.some.inj hy ▸ hext.knows hx

theorem upholds_mapM {xs : List β} {f : β → Analyzing (Option SymbolId)}
    (h : ∀ x ∈ xs, ∀ lib', Upholds b typed found s lib' (f x) fun r lib' =>
      ∀ x, r = some x → lib'.Knows IsType x) :
    Upholds b typed found s lib (xs.mapM f) fun rs lib' =>
      ∀ x, some x ∈ rs → lib'.Knows IsType x := by
  induction xs generalizing lib with
  | nil =>
    rw [List.mapM_nil]
    exact upholds_pure (by simp)
  | cons x xs ih =>
    rw [List.mapM_cons]
    refine (h x List.mem_cons_self lib).bind fun r lib' _ hr =>
      (ih fun y hy => h y (List.mem_cons_of_mem x hy)).bind fun rs lib'' hext hrs =>
        upholds_pure fun y hy => ?_
    rcases List.mem_cons.1 hy with hy | hy
    · exact hext.knows (hr y hy.symm)
    · exact hrs y hy

theorem mem_of_mapM_id {rs : List (Option SymbolId)} {xs : List SymbolId}
    (h : rs.mapM id = some xs) : ∀ x ∈ xs, some x ∈ rs := by
  induction rs generalizing xs with
  | nil =>
    obtain rfl : [] = xs := by simpa using h
    simp
  | cons r rs ih =>
    obtain ⟨y, hy, ys, hys, rfl⟩ : ∃ y, r = some y ∧ ∃ ys, rs.mapM id = some ys ∧ y :: ys = xs := by
      simpa [List.mapM_cons, Option.bind_eq_some_iff] using h
    rw [List.forall_mem_cons]
    exact ⟨by simp [hy], fun x hx => List.mem_cons_of_mem r (ih hys x hx)⟩

theorem sustains_resolveNode {n : Node} (hn : n ∈ b.tree.preorder) :
    Sustains b typed found s lib (resolveNode n) := by
  unfold resolveNode
  split
  · next t hhead =>
    exact (upholds_resolveType (Block.mem_writtenTypes.2 ⟨n, hn, hhead⟩)).bind fun _ _ _ _ =>
      upholds_pure trivial
  · next name ps returns hhead =>
    have hkind : n.kind = .function := by rw [Node.kind, hhead, Head.kind]
    obtain ⟨d, hd, rfl⟩ := (Block.type_and_function_of_mem_preorder hn).2 hkind
    obtain ⟨rfl, rfl, rfl⟩ := Head.function.inj hhead
    rw [resolveSignature_eq]
    refine (upholds_mapM fun p hp lib' => upholds_resolveType
      (Block.parameter_mem_writtenTypes hd p hp)).bind fun ps lib' _ hps => ?_
    have hresult : Upholds b typed found s lib' (resolveResult d.name d.returns) fun r lib' =>
        ∀ x, r = some x → lib'.Knows IsType x := by
      cases hreturns : d.returns with
      | none => exact upholds_builtin _ _
      | some t => exact upholds_resolveType (Block.returns_mem_writtenTypes hd t hreturns)
    refine hresult.bind fun r lib'' hext hr => ?_
    unfold noteSignature
    split
    · next ps' r' hps' =>
      have hknows : ∀ p ∈ ps', lib''.Knows IsType p := fun p hp =>
        hext.knows (hps p (mem_of_mapM_id hps' p hp))
      refine (upholds_onLibrary (Q := fun x lib' => lib'.Knows IsSignature x) fun hlib =>
        hlib.functionType hknows (hr r' rfl)).bind fun x _ _ hx => ?_
      rintro c hc rfl rfl
      exact ⟨hc.insertSignature hd hx, rfl, .refl _, trivial⟩
    · exact upholds_pure trivial
  · exact upholds_pure trivial

theorem sustains_resolveTypes : Sustains b typed found s lib (resolveTypes b.tree) :=
  sustains_forM fun _ hn _ _ => sustains_resolveNode hn

/-! ## New symbols -/

/-- The symbol of a declaration. -/
def newSymbol (kind : SymbolKind) (name : Ident) (type : Option SymbolId) (n : NodeId) : Symbol :=
  { name := name.name, kind, type, declaration := some n, span := name.span }

/-- A symbol is made for a node, and gets the type that is known of it. -/
theorem sustains_create {m : Node} (hm : m ∈ b.tree.preorder) (kind : SymbolKind)
    (hkind : ∀ t, kind ≠ .type t) (hdenotes : m.head.Denotes kind.sort) (name : Ident)
    (type : Annotations → Option SymbolId) {f : SymbolId → Analyzing Unit}
    (htype : ∀ c : Context, c.IsSound b typed found →
      (newSymbol kind name (type c.annotations) m.id).IsSound c.library typed)
    (hf : ∀ x lib', lib'.Knows (· = kind.sort) x → Sustains b typed found s lib' (f x)) :
    Sustains b typed found s lib (do
      let x ← onLibrary (·.alloc { name := name.name, kind, span := name.span })
      giveType x (type (← get).annotations)
      declareAt m.id x
      f x) := by
  rintro c hc rfl rfl
  have hmakes := makes_place hc.library.isApart kind hkind name m.id (type c.annotations) c.visits
  obtain ⟨hc', hstep, hx⟩ := hc.makes hm hmakes (htype c hc) hdenotes
  have hbinds : c.Binds [m.id] .nobody _ := hmakes.binds
  obtain ⟨hc'', hs, hext, -⟩ := hf _ _ hx hc' hbinds.scopes_eq rfl
  exact ⟨hc'', hs, hstep.toExtends.trans hext, trivial⟩

/-- The symbol of a variable or a parameter, with the type that is written. -/
theorem isSound_variable (htyped : typed → found) (isParameter : Bool) (name : Ident) (n : NodeId)
    {t : WrittenType} (ht : t ∈ b.writtenTypes) {c : Context} (hc : c.IsSound b typed found) :
    (newSymbol (.variable isParameter) name (c.annotations.declaredTypes.get? t.place.id) n).IsSound
      c.library typed where
  type x hx := (hc.declaredTypes _ x hx).2
  signature h := absurd h (by simp [Symbol.sort, newSymbol, SymbolKind.sort])
  isSome_type h _ := (hc.found (htyped h)).1 t ht
  parentType := by simp [newSymbol]
  parentFunction := by simp [newSymbol]
  kind := trivial

theorem isSound_function (htyped : typed → found) {d : FunctionDecl} (hd : d ∈ b.allFunctions)
    {c : Context} (hc : c.IsSound b typed found) :
    (newSymbol (.function {}) d.name (c.annotations.signatures.get? d.place.id) d.place.id).IsSound
      c.library typed where
  type x hx := (hc.signatures _ x hx).2.imp fun s hs => by
    cases s with
    | type => trivial
    | _ => exact hs.elim
  signature _ x hx := (hc.signatures _ x hx).2
  isSome_type h _ := (hc.found (htyped h)).2 d hd
  parentType := by simp [newSymbol]
  parentFunction := by simp [newSymbol]
  kind := ⟨by simp, by simp⟩

theorem isSound_label (name : Ident) (n : NodeId) (lib : Library) :
    (newSymbol .label name none n).IsSound lib typed where
  type := by simp [newSymbol]
  signature := by simp [newSymbol]
  isSome_type _ h := h.elim
  parentType := by simp [newSymbol]
  parentFunction := by simp [newSymbol]
  kind := trivial

/-- A function never registers with a function. -/
theorem sustains_register (name : String) (span : Span) {x : SymbolId}
    (hmember : lib.Knows IsMember x)
    (hlocal : lib.Knows IsLocal x ∨ ∀ e, s.registrationTarget? = some e → e.kind ≠ .function) :
    Sustains b typed found s lib (register name x span) := by
  refine upholds_get_bind fun c _ hs _ => ?_
  split
  · exact sustains_declareGlobal _ _ hmember.any
  · next target htarget =>
    rw [hs] at htarget
    split
    · next hkind _ =>
      have hx := hlocal.resolve_right fun h => h target htarget hkind
      exact sustains_registering fun hlib => hlib.addLocal _ hx
    · exact sustains_registering fun hlib => hlib.addMember _ hmember
    · exact upholds_pure trivial

section Binding

variable (htyped : typed → found)

include htyped

theorem sustains_bindVariable {d : VariableDecl}
    (hd : ∀ n ∈ d.tree.preorder, n ∈ b.tree.preorder) :
    Sustains b typed found s lib (bindVariable d) := by
  have hnode := hd ⟨d.place, .variable d.name⟩ (by simp [VariableDecl.tree, Tree.preorder])
  have htype := Block.mem_writtenTypes_of_node (hd _ d.type_mem_preorder)
  refine (sustains_visit _ _).bind fun _ _ _ _ => ?_
  exact sustains_create hnode (.variable false) (by simp) rfl d.name
    (fun a => a.declaredTypes.get? d.type.place.id)
    (fun _ hc => isSound_variable htyped false d.name d.place.id htype hc) fun x lib' hx =>
      sustains_register _ _ (hx.imp fun _ hs => .inl hs) (.inl (hx.imp fun _ hs => hs ▸ trivial))

theorem sustains_bindParameter (f : SymbolId) {d : Parameter}
    (hd : ∀ n ∈ d.tree.preorder, n ∈ b.tree.preorder) :
    Sustains b typed found s lib (bindParameter f d) := by
  have hnode := hd ⟨d.place, .parameter d.name⟩ (by simp [Parameter.tree, Tree.preorder])
  have htype := Block.mem_writtenTypes_of_node (hd ⟨d.type.place, .type d.type⟩
    (by simp [Parameter.tree, WrittenType.tree, Tree.preorder, Tree.preorders]))
  refine (sustains_visit _ _).bind fun _ _ _ _ => ?_
  exact sustains_create hnode (.variable true) (by simp) rfl d.name
    (fun a => a.declaredTypes.get? d.type.place.id)
    (fun _ hc => isSound_variable htyped true d.name d.place.id htype hc) fun x lib' hx =>
      sustains_registering fun hlib => hlib.addLocal f (hx.imp fun _ hs => hs ▸ trivial)

end Binding

theorem sustains_bindLabel (hs : s.nearestFunction?.isSome) {place : Place} {name : Ident}
    (hnode : ⟨place, .label name⟩ ∈ b.tree.preorder) :
    Sustains b typed found s lib (bindLabel place name) := by
  have hmake : ∀ lib', Sustains b typed found s lib' (do
      let x ← onLibrary (·.alloc { name := name.name, kind := .label, span := name.span })
      let _ ← get
      giveType x none
      declareAt place.id x
      enterLabel name x) := fun lib' => ?_
  · exact (sustains_visit _ _).bind fun _ lib' _ _ => hmake lib'
  refine sustains_create hnode .label (by simp) rfl name (fun _ => none)
    (fun c _ => isSound_label name place.id c.library) fun x lib' hx => ?_
  refine upholds_get_bind fun c _ hscopes _ => ?_
  rw [hscopes]
  split
  · exact sustains_registering fun hlib => hlib.addLabel _ hx
  · next h => simp [h] at hs

theorem sustains_passExpr (e : Expr) : Sustains b typed found s lib (passExpr e) :=
  sustains_forM fun _ _ _ _ => sustains_visit _ _

theorem sustains_passOption (e : Option Expr) : Sustains b typed found s lib (passOption e) :=
  sustains_forM fun e _ _ _ => sustains_passExpr e

/-! ## Statements -/

section Statements

variable (htyped : typed → found)

include htyped

theorem sustains_bindInit (init : ForInit)
    (h : ∀ t ∈ init.trees, ∀ n ∈ t.preorder, n ∈ b.tree.preorder) :
    Sustains b typed found s lib (bindInit init) := by
  match init with
  | .nothing => exact upholds_pure trivial
  | .variable d => exact sustains_bindVariable htyped (h _ List.mem_cons_self)
  | .expr e => exact sustains_passExpr e

-- In a mutual block, what is used in one theorem is used in all.
set_option linter.unusedSectionVars false

mutual

theorem sustains_bindStmt {s : ScopeStack SymbolId} {lib : Library}
    (hs : s.nearestFunction?.isSome) : (t : Stmt) →
    (∀ n ∈ t.tree.preorder, n ∈ b.tree.preorder) → Sustains b typed found s lib (bindStmt t)
  | .label _ _, h => sustains_bindLabel hs (h _ (by simp [Stmt.tree, Tree.preorder]))
  | .goto _ _, _ | .breakLoop _, _ | .continueLoop _, _ => sustains_visit _ _
  | .returns _ value, _ => (sustains_visit _ _).bind fun _ _ _ _ => sustains_passOption value
  | .variable d, h => sustains_bindVariable htyped h
  | .expr e, _ => sustains_passExpr e
  | .branch br, h => sustains_bindBranch hs br h
  | .whileLoop _ condition body, h => by
    rw [Stmt.tree, Tree.forall_mem_preorder_node] at h
    exact (sustains_visit _ _).bind fun _ _ _ _ => (sustains_passExpr condition).bind
      fun _ _ _ _ => sustains_bindScope hs body (h.2 _ (by simp))
  | .forLoop _ init condition step body, h => by
    rw [Stmt.tree, Tree.forall_mem_preorder_node] at h
    exact (sustains_visit _ _).bind fun _ _ _ _ =>
      (sustains_bindInit htyped init fun t ht => h.2 t (by simp [ht])).bind fun _ _ _ _ =>
        (sustains_passOption condition).bind fun _ _ _ _ => (sustains_passOption step).bind
          fun _ _ _ _ => sustains_bindScope hs body (h.2 _ (by simp))

theorem sustains_bindBranch {s : ScopeStack SymbolId} {lib : Library}
    (hs : s.nearestFunction?.isSome) : (br : Branch) →
    (∀ n ∈ br.tree.preorder, n ∈ b.tree.preorder) → Sustains b typed found s lib (bindBranch br)
  | .mk _ condition body otherwise, h => by
    rw [Branch.tree, Tree.forall_mem_preorder_node] at h
    exact (sustains_visit _ _).bind fun _ _ _ _ => (sustains_passExpr condition).bind
      fun _ _ _ _ => (sustains_bindScope hs body (h.2 _ (by simp))).bind fun _ _ _ _ =>
        sustains_bindOtherwise hs otherwise fun t ht => h.2 t (by simp [ht])

theorem sustains_bindOtherwise {s : ScopeStack SymbolId} {lib : Library}
    (hs : s.nearestFunction?.isSome) : (o : Otherwise) →
    (∀ t ∈ o.trees, ∀ n ∈ t.preorder, n ∈ b.tree.preorder) →
    Sustains b typed found s lib (bindOtherwise o)
  | .nothing, _ => upholds_pure trivial
  | .branch br, h => sustains_bindBranch hs br (h _ List.mem_cons_self)
  | .scope sc, h => sustains_bindScope hs sc (h _ List.mem_cons_self)

theorem sustains_bindScope {s : ScopeStack SymbolId} {lib : Library}
    (hs : s.nearestFunction?.isSome) : (sc : Scope) →
    (∀ n ∈ sc.tree.preorder, n ∈ b.tree.preorder) → Sustains b typed found s lib (bindScope sc)
  | .mk place statements, h => by
    rw [Scope.tree, Tree.forall_mem_preorder_node] at h
    exact (sustains_visit _ _).bind fun _ _ _ _ => sustains_inScope
      (sustains_bindStmts (s := s.push .block place.id none) hs statements h.2)

theorem sustains_bindStmts {s : ScopeStack SymbolId} {lib : Library}
    (hs : s.nearestFunction?.isSome) : (ts : List Stmt) →
    (∀ t ∈ Stmt.trees ts, ∀ n ∈ t.preorder, n ∈ b.tree.preorder) →
    Sustains b typed found s lib (bindStmts ts)
  | [], _ => upholds_pure trivial
  | t :: ts, h => by
    rw [Stmt.trees, List.forall_mem_cons] at h
    exact (sustains_bindStmt hs t h.1).bind fun _ _ _ _ => sustains_bindStmts hs ts h.2

end

end Statements

/-! ## Declarations -/

section Declarations

variable (htyped : typed → found)

include htyped

theorem sustains_bindFunction {d : FunctionDecl} (hd : d ∈ b.allFunctions)
    (hs : ∀ e, s.registrationTarget? = some e → e.kind ≠ .function) :
    Sustains b typed found s lib (bindFunction d) := by
  have hnodes := Block.preorder_subset_of_mem_allFunctions hd
  rw [FunctionDecl.tree, List.subset_def, Tree.forall_mem_preorder_node] at hnodes
  refine (sustains_visit _ _).bind fun _ _ _ _ => ?_
  refine sustains_create (Block.node_mem_preorder hd) (.function {}) (by simp) rfl d.name
    (fun a => a.signatures.get? d.place.id) (fun _ hc => isSound_function htyped hd hc)
    fun x lib' hx => ?_
  have hbody : Sustains b typed found (s.push .function d.place.id (some x)) lib' (do
      d.parameters.forM (bindParameter x)
      bindScope d.body) := by
    refine (sustains_forM fun p hp _ _ => sustains_bindParameter htyped x ?_).bind
      fun _ _ _ _ => sustains_bindScope htyped rfl d.body ?_
    · exact hnodes.2 _ (by simp [List.mem_map_of_mem hp])
    · exact hnodes.2 _ (by simp)
  exact (sustains_inScope hbody).bind fun _ _ hext _ =>
    sustains_register _ _ ((hext.knows hx).imp fun _ hs => .inr hs) (.inr hs)

theorem sustains_bindMember {m : Member} (hm : ∀ n ∈ m.tree.preorder, n ∈ b.tree.preorder)
    (hfunctions : ∀ d ∈ m.functions, d ∈ b.allFunctions)
    (hs : ∀ e, s.registrationTarget? = some e → e.kind ≠ .function) :
    Sustains b typed found s lib (bindMember m) := by
  match m with
  | .variable d => exact sustains_bindVariable htyped hm
  | .function d => exact sustains_bindFunction htyped (hfunctions d List.mem_cons_self) hs

theorem sustains_bindDeclaration {d : Declaration} (hd : d ∈ b.declarations)
    (hs : s.registrationTarget? = none) :
    Sustains b typed found s lib (bindDeclaration d) := by
  have hnodes := Block.preorder_subset_of_mem hd
  have hfunctions : ∀ e ∈ d.functions, e ∈ b.allFunctions := fun e he =>
    List.mem_flatMap.2 ⟨d, hd, he⟩
  have htarget : ∀ e, s.registrationTarget? = some e → e.kind ≠ .function := by simp [hs]
  match d with
  | .function d => exact sustains_bindFunction htyped (hfunctions d List.mem_cons_self) htarget
  | .variable d => exact sustains_bindVariable htyped hnodes
  | .classDecl d =>
    rw [Declaration.tree, ClassDecl.tree, List.subset_def, Tree.forall_mem_preorder_node] at hnodes
    refine (sustains_visit _ _).bind fun _ _ _ _ => upholds_get_bind fun c _ _ _ => ?_
    refine sustains_inScope (sustains_forM fun m hm _ _ => sustains_bindMember htyped
      (hnodes.2 _ (List.mem_map_of_mem hm))
      (fun e he => hfunctions e (List.mem_flatMap.2 ⟨m, hm, he⟩)) ?_)
    rintro e he
    obtain rfl : _ = e := Option.some.inj he
    simp

theorem sustains_bindBlock (hs : s.registrationTarget? = none) :
    Sustains b typed found s lib (bindBlock b) :=
  (sustains_visit _ _).bind fun _ _ _ _ => sustains_forM fun _ hd _ _ =>
    sustains_bindDeclaration htyped hd hs

end Declarations

end Analyzing

end Sable
