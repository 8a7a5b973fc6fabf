import Sable.Proofs.Analysis.Starring
import Sable.Proofs.Symbol.Records

/-!
# Looking up types and signatures

A written type stands for a type of its own if its name means a type in the whole unit: the pointer
type of as many steps as stars are written. A function has a type if its parameters and its result
have. It does not matter how often a written type is met: it is looked up once, and reported at most
once.

The second phase meets the nodes one after another. What it has looked up is right at every moment,
so it is right when all nodes are met.

## Main definitions

* `Context.Stands`, `Context.HasSignature`: what a written type and a function have to show.
* `Context.Resolving`: what has been looked up so far is right.
* `Analyzing.ResolvesAt`: a step of the second phase.
* `Analyzing.Met`: the second phase has met some nodes.

## Main statements

* `Analyzing.resolvesAt_resolveType`: a written type, for the first time or again.
* `Analyzing.met_resolveTypes`: the whole phase.
-/
namespace Sable

open SymbolSort

/-! ## What written types stand for -/

/-- What is reported of a written type whose name means no type. -/
def WrittenType.unknown (t : WrittenType) : SemanticError := .symbolNotFound t.name.name t.name.span

namespace Context

variable {c c' c₀ : Context} {b : Block} {t : WrittenType} {ps : List Parameter}
  {returns : Option WrittenType} {void : Option SymbolId}

/-- The type that a written type stands for leads to the type that its name means, in as many steps
as stars are written. If there is none, it stands for nothing. -/
def Stands (c : Context) (t : WrittenType) : Option SymbolId → Prop
  | some base => ∃ x, c.annotations.declaredTypes.get? t.place.id = some x ∧
      c.library.follow? t.stars x = some base
  | none => c.annotations.declaredTypes.get? t.place.id = none

/-- The type of a result. Where none is written it is the void type. -/
def result? (c : Context) (void : Option SymbolId) : Option WrittenType → Option SymbolId
  | some t => c.annotations.declaredTypes.get? t.place.id
  | none => void

/-- The types of the parameters, if all are known. -/
def parameters? (c : Context) (parameters : List Parameter) : Option (List SymbolId) :=
  parameters.mapM fun p => c.annotations.declaredTypes.get? p.type.place.id

/-- The types of the parameters and of the result, if all are known. -/
def parts? (c : Context) (void : Option SymbolId) (parameters : List Parameter)
    (returns : Option WrittenType) : Option (List SymbolId × SymbolId) :=
  (c.parameters? parameters).bind fun ps => (c.result? void returns).map (ps, ·)

/-- The function has the type of these parts. If one is missing, it has none. -/
def HasSignature (c : Context) (node : NodeId) : Option (List SymbolId × SymbolId) → Prop
  | some (ps, r) => ∃ x, c.annotations.signatures.get? node = some x ∧
      c.library.Knows (· = .type (.function ps r)) x
  | none => c.annotations.signatures.get? node = none

theorem Stands.mono {base : Option SymbolId} (h : c.Stands t base)
    (hlib : c.library.Extends c'.library) (ht : c'.annotations.declaredTypes.get? t.place.id =
      c.annotations.declaredTypes.get? t.place.id) : c'.Stands t base := by
  cases base with
  | none => exact ht.trans h
  | some base =>
    obtain ⟨x, hx, hfollow⟩ := h
    exact ⟨x, ht.trans hx, hlib.follow? hfollow⟩

theorem HasSignature.mono {node : NodeId} {parts : Option (List SymbolId × SymbolId)}
    (h : c.HasSignature node parts) (hlib : c.library.Extends c'.library)
    (hnode : c'.annotations.signatures.get? node = c.annotations.signatures.get? node) :
    c'.HasSignature node parts := by
  match parts with
  | none => exact hnode.trans h
  | some (ps, r) =>
    obtain ⟨x, hx, hknows⟩ := h
    exact ⟨x, hnode.trans hx, hlib.knows hknows⟩

theorem parameters?_congr (hps : ∀ p ∈ ps, c'.annotations.declaredTypes.get? p.type.place.id =
    c.annotations.declaredTypes.get? p.type.place.id) : c'.parameters? ps = c.parameters? ps := by
  rw [parameters?, parameters?]
  induction ps with
  | nil => rfl
  | cons p ps ih =>
    rw [List.forall_mem_cons] at hps
    rw [List.mapM_cons, List.mapM_cons, hps.1, ih hps.2]

theorem result?_congr (hreturns : ∀ t ∈ returns, c'.annotations.declaredTypes.get? t.place.id =
    c.annotations.declaredTypes.get? t.place.id) :
    c'.result? void returns = c.result? void returns := by
  cases returns with
  | none => rfl
  | some t => exact hreturns t rfl

theorem parts?_congr (h : c'.annotations.declaredTypes = c.annotations.declaredTypes) :
    c'.parts? void ps returns = c.parts? void ps returns := by
  rw [parts?, parts?, parameters?_congr fun p _ => congrArg (·.get? p.type.place.id) h,
    result?_congr fun t _ => congrArg (·.get? t.place.id) h]

theorem knows_parameters? (hc : c.IsStarred) {xs : List SymbolId}
    (h : c.parameters? ps = some xs) : ∀ x ∈ xs, c.library.Knows IsType x := by
  rw [parameters?] at h
  induction ps generalizing xs with
  | nil =>
    obtain rfl := Option.some.inj h
    simp
  | cons p ps ih =>
    rw [List.mapM_cons] at h
    obtain ⟨x, hx, h⟩ := Option.bind_eq_some_iff.1 h
    obtain ⟨xs', hxs, h⟩ := Option.bind_eq_some_iff.1 h
    obtain rfl := Option.some.inj h
    exact List.forall_mem_cons.2 ⟨hc.declaredTypes _ x hx, ih hxs⟩

/-! ## In the second phase -/

/-- What has been looked up, from `c₀` on, stands for what it should, and what should stand for
something else was reported. -/
structure Resolving (c : Context) (b : Block) (c₀ : Context) : Prop where
  isStarred : c.IsStarred
  globals_eq : c.globals = c₀.globals
  library : c₀.library.Extends c.library
  stands : ∀ t ∈ b.writtenTypes, t.place.id ∈ c.attempted → c.Stands t (c₀.globalType? t.name.name)
  fresh : ∀ n ∉ c.attempted, c.annotations.declaredTypes.get? n = none
  errors : ∃ es, c.errors = c₀.errors ++ es ∧ ∀ t ∈ b.writtenTypes,
    es.filter (fun e => e.span = t.name.span) =
      if t.place.id ∈ c.attempted ∧ (c₀.globalType? t.name.name).isNone then [t.unknown] else []

/-- What has been looked up stays as it is. -/
structure Retains (c c' : Context) : Prop where
  library : c.library.Extends c'.library
  attempted : c.attempted ⊆ c'.attempted
  declaredTypes : ∀ n ∈ c.attempted,
    c'.annotations.declaredTypes.get? n = c.annotations.declaredTypes.get? n

theorem Retains.refl (c : Context) : c.Retains c :=
  ⟨.refl _, List.Subset.refl _, fun _ _ => rfl⟩

theorem Retains.trans {c'' : Context} (h : c.Retains c') (h' : c'.Retains c'') : c.Retains c'' where
  library := h.library.trans h'.library
  attempted := List.Subset.trans h.attempted h'.attempted
  declaredTypes n hn := (h'.declaredTypes n (h.attempted hn)).trans (h.declaredTypes n hn)

/-- A name that meant a type means it as long as the symbols stay. -/
theorem globalType?_eq (hc₀ : c₀.IsStarred) (hlib : c₀.library.Extends c.library)
    (hglobals : c.globals = c₀.globals) (name : String) :
    c.globalType? name = c₀.globalType? name := by
  rw [globalType?, globalType?, hglobals]
  cases hx : c₀.globals.get? name with
  | none => rfl
  | some x =>
    obtain ⟨s, hs, -⟩ := hc₀.globals name x hx
    obtain ⟨s', hs', hsort⟩ := hlib.sort hs
    have htype : (c.type? x).isSome = (c₀.type? x).isSome := by
      rw [type?, type?, Library.type?, Library.type?, hs, hs', Option.bind_some, Option.bind_some,
        Bool.eq_iff_iff, Symbol.isSome_type?_iff, Symbol.isSome_type?_iff, hsort]
    simp only [Option.filter_some, htype]

/-- The types of a function that has been looked up stay as they are. -/
theorem Retains.parts?_eq (h : c.Retains c') (hps : ∀ p ∈ ps, p.type.place.id ∈ c.attempted)
    (hreturns : ∀ t ∈ returns, t.place.id ∈ c.attempted) :
    c'.parts? void ps returns = c.parts? void ps returns := by
  rw [parts?, parts?, parameters?_congr fun p hp => h.declaredTypes _ (hps p hp),
    result?_congr fun t ht => h.declaredTypes _ (hreturns t ht)]

end Context

/-! ## Nodes of types and functions -/

namespace Block

variable {b : Block}

/-- Written types at the same place are the same. -/
theorem Numbered.writtenType_inj (hb : b.Numbered) {t t' : WrittenType} (ht : t ∈ b.writtenTypes)
    (ht' : t' ∈ b.writtenTypes) (h : t.place.id = t'.place.id) : t = t' := by
  obtain ⟨n, hn, hhead⟩ := mem_writtenTypes.1 ht
  obtain ⟨n', hn', hhead'⟩ := mem_writtenTypes.1 ht'
  have hplace := (type_and_function_of_mem_preorder hn).1 t hhead
  have hplace' := (type_and_function_of_mem_preorder hn').1 t' hhead'
  obtain rfl := hb.node_inj hn hn' (by rw [Node.id, Node.id, hplace, hplace', h])
  exact Head.type.inj (hhead.symm.trans hhead')

/-- The names of written types are at places of their own. -/
theorem Spelled.span_type_ne (hs : b.Spelled) {t : WrittenType} (ht : t ∈ b.writtenTypes) {n : Node}
    (hn : n ∈ b.tree.preorder) (hne : n.head ≠ .type t) {x : Ident} (hx : x ∈ n.head.names) :
    x.span ≠ t.name.span := by
  obtain ⟨m, hm, hhead⟩ := mem_writtenTypes.1 ht
  refine hs.span_ne hn hm ?_ hx (by simp [hhead, Head.names])
  rintro rfl
  exact hne hhead

theorem Spelled.span_types_ne (hs : b.Spelled) {t t' : WrittenType} (ht : t ∈ b.writtenTypes)
    (ht' : t' ∈ b.writtenTypes) (hne : t ≠ t') : t.name.span ≠ t'.name.span := by
  obtain ⟨n, hn, hhead⟩ := mem_writtenTypes.1 ht
  refine hs.span_type_ne ht' hn (fun h => hne ?_) (by simp [hhead, Head.names])
  exact Head.type.inj (hhead.symm.trans h)

end Block

/-! ## Steps of the second phase -/

namespace Analyzing

variable {α β : Type} {b : Block} {c₀ c : Context}

/-- In this context, the step retains what has been looked up, what it looks up itself stands for
what it should, and `Q` holds of the result. -/
structure ResolvesAt (b : Block) (c₀ c : Context) (m : Analyzing α) (Q : α → Context → Prop) :
    Prop where
  resolving : (m.run c).2.Resolving b c₀
  retains : c.Retains (m.run c).2
  signatures_eq : (m.run c).2.annotations.signatures = c.annotations.signatures
  result : Q (m.run c).1 (m.run c).2

section Combining

variable {m : Analyzing α} {P Q : α → Context → Prop} {R : β → Context → Prop}

theorem resolvesAt_pure (hc : c.Resolving b c₀) {x : α} (h : Q x c) :
    ResolvesAt b c₀ c (pure x) Q :=
  ⟨hc, .refl c, rfl, h⟩

theorem ResolvesAt.bind {f : α → Analyzing β} (hm : ResolvesAt b c₀ c m P)
    (hf : ∀ x c', c'.Resolving b c₀ → c.Retains c' → P x c' → ResolvesAt b c₀ c' (f x) R) :
    ResolvesAt b c₀ c (m >>= f) R := by
  have hrest := hf _ _ hm.resolving hm.retains hm.result
  exact ⟨hrest.resolving, hm.retains.trans hrest.retains,
    hrest.signatures_eq.trans hm.signatures_eq, hrest.result⟩

theorem resolvesAt_get_bind {f : Context → Analyzing β} (h : ResolvesAt b c₀ c (f c) R) :
    ResolvesAt b c₀ c (get >>= f) R :=
  ⟨h.resolving, h.retains, h.signatures_eq, h.result⟩

end Combining

section Resolving

variable (hb : b.Numbered) (hs : b.Spelled) (hc₀ : c₀.IsStarred)

/-- The answer for a written type. -/
def Answered (t : WrittenType) (r : Option SymbolId) (c : Context) : Prop :=
  r = c.annotations.declaredTypes.get? t.place.id ∧ t.place.id ∈ c.attempted

include hb hs in
/-- A written type is looked up for the first time, and its name means no type. -/
theorem resolving_unknown (hc : c.Resolving b c₀) {t : WrittenType} (ht : t ∈ b.writtenTypes)
    (hfresh : t.place.id ∉ c.attempted) (hbase : c₀.globalType? t.name.name = none) :
    { c with attempted := t.place.id :: c.attempted, errors := c.errors ++ [t.unknown] }.Resolving
      b c₀ where
  isStarred := ⟨hc.isStarred.library, hc.isStarred.globals, hc.isStarred.declaredTypes⟩
  globals_eq := hc.globals_eq
  library := hc.library
  stands t' ht' hmem := by
    rcases List.mem_cons.1 hmem with heq | hmem
    · obtain rfl := hb.writtenType_inj ht' ht heq
      rw [hbase]
      exact hc.fresh _ hfresh
    · exact hc.stands t' ht' hmem
  fresh n hn := hc.fresh n fun hmem => hn (List.mem_cons_of_mem _ hmem)
  errors := by
    obtain ⟨es, heq, hes⟩ := hc.errors
    refine ⟨es ++ [t.unknown], by rw [← List.append_assoc, ← heq], fun t' ht' => ?_⟩
    rw [List.filter_append, hes t' ht']
    by_cases htt : t = t'
    · subst htt
      simp [hfresh, hbase, WrittenType.unknown, SemanticError.span]
    · have hid : t'.place.id ≠ t.place.id := fun h => htt (hb.writtenType_inj ht' ht h).symm
      simp [hid, hs.span_types_ne ht ht' htt, WrittenType.unknown, SemanticError.span]

include hb in
/-- A written type is looked up for the first time, and its name means a type. -/
theorem resolving_found (hc : c.Resolving b c₀) {t : WrittenType} (ht : t ∈ b.writtenTypes)
    (hfresh : t.place.id ∉ c.attempted) {base x : SymbolId}
    (hbase : c₀.globalType? t.name.name = some base) {lib : Library}
    (hlib : c.library.Furthers lib) (hx : lib.Knows IsType x)
    (hfollow : lib.follow? t.stars x = some base) :
    { c with
      attempted := t.place.id :: c.attempted
      library := lib
      annotations := { c.annotations with
        declaredTypes := c.annotations.declaredTypes.insert t.place.id x } }.Resolving b c₀ where
  isStarred := by
    refine ⟨hlib.isStarred, fun n y hy => hlib.knows (hc.isStarred.globals n y hy),
      fun n y hy => ?_⟩
    rw [OrderedMap.get?_insert] at hy
    split at hy
    · exact Option.some.inj hy ▸ hx
    · exact hlib.knows (hc.isStarred.declaredTypes n y hy)
  globals_eq := hc.globals_eq
  library := hc.library.trans hlib.toExtends
  stands t' ht' hmem := by
    rcases List.mem_cons.1 hmem with heq | hmem
    · obtain rfl := hb.writtenType_inj ht' ht heq
      rw [hbase]
      exact ⟨x, by rw [OrderedMap.get?_insert, if_pos rfl], hfollow⟩
    · refine (hc.stands t' ht' hmem).mono hlib.toExtends ?_
      rw [OrderedMap.get?_insert, if_neg]
      rintro heq
      exact hfresh (heq ▸ hmem)
  fresh n hn := by
    rw [List.mem_cons, not_or] at hn
    rw [OrderedMap.get?_insert, if_neg hn.1]
    exact hc.fresh n hn.2
  errors := by
    obtain ⟨es, heq, hes⟩ := hc.errors
    refine ⟨es, heq, fun t' ht' => ?_⟩
    rw [hes t' ht']
    by_cases htt : t = t'
    · subst htt
      simp [hbase]
    · have hid : t'.place.id ≠ t.place.id := fun h => htt (hb.writtenType_inj ht' ht h).symm
      simp [hid]

include hb hs hc₀

/-- A written type that is looked up again has the answer that it got the first time. -/
theorem resolvesAt_resolveType (hc : c.Resolving b c₀) {t : WrittenType}
    (ht : t ∈ b.writtenTypes) : ResolvesAt b c₀ c (resolveType t) (Answered t) := by
  refine resolvesAt_get_bind ?_
  split
  · next hmem => exact resolvesAt_pure hc ⟨rfl, hmem⟩
  · next hfresh =>
    have hglobal : ({ c with attempted := t.place.id :: c.attempted } : Context).globalType?
        t.name.name = c₀.globalType? t.name.name :=
      Context.globalType?_eq hc₀ hc.library hc.globals_eq t.name.name
    have hsame := c.globalType?_eq hc₀ hc.library hc.globals_eq t.name.name
    cases hbase : c₀.globalType? t.name.name with
    | none =>
      rw [hbase] at hsame
      rw [hsame]
      refine ⟨resolving_unknown hb hs hc ht hfresh hbase, ?_, rfl, ?_, List.mem_cons_self⟩
      · exact ⟨.refl _, List.subset_cons_self _ _, fun _ _ => rfl⟩
      · exact (hc.fresh _ hfresh).symm
    | some base =>
      rw [hbase] at hsame
      rw [hsame]
      have hknows : c.library.Knows IsType base := knows_of_globalType? hsame
      obtain ⟨hlib, hx, hfollow⟩ := hc.isStarred.library.pointerType hknows t.stars
      refine ⟨resolving_found hb hc ht hfresh hbase hlib hx hfollow, ?_, rfl, ?_,
        List.mem_cons_self⟩
      · refine ⟨hlib.toExtends, List.subset_cons_self _ _, fun n hn => ?_⟩
        change (c.annotations.declaredTypes.insert t.place.id _).get? n = _
        rw [OrderedMap.get?_insert, if_neg]
        rintro rfl
        exact hfresh hn
      · change _ = (c.annotations.declaredTypes.insert t.place.id _).get? t.place.id
        rw [OrderedMap.get?_insert, if_pos rfl]
        rfl

theorem resolvesAt_parameters (hc : c.Resolving b c₀) {ps : List Parameter}
    (hps : ∀ p ∈ ps, p.type ∈ b.writtenTypes) :
    ResolvesAt b c₀ c (ps.mapM fun p => resolveType p.type) fun rs c' =>
      rs = ps.map (fun p => c'.annotations.declaredTypes.get? p.type.place.id) ∧
        ∀ p ∈ ps, p.type.place.id ∈ c'.attempted := by
  induction ps generalizing c with
  | nil => exact resolvesAt_pure hc ⟨rfl, by simp⟩
  | cons p ps ih =>
    rw [List.forall_mem_cons] at hps
    rw [List.mapM_cons]
    refine (resolvesAt_resolveType hb hs hc₀ hc hps.1).bind fun r c₁ hc₁ _ hr => ?_
    refine (ih hc₁ hps.2).bind fun rs c₂ hc₂ hretains hrs => resolvesAt_pure hc₂ ⟨?_, ?_⟩
    · rw [List.map_cons, hrs.1, hr.1, hretains.declaredTypes _ hr.2]
    · exact List.forall_mem_cons.2 ⟨hretains.attempted hr.2, hrs.2⟩

omit hb hs hc₀ in
/-- What is reported elsewhere does not matter. -/
theorem resolving_report (hc : c.Resolving b c₀) {e : SemanticError}
    (he : ∀ t ∈ b.writtenTypes, e.span ≠ t.name.span) :
    { c with errors := c.errors ++ [e] }.Resolving b c₀ where
  isStarred := ⟨hc.isStarred.library, hc.isStarred.globals, hc.isStarred.declaredTypes⟩
  globals_eq := hc.globals_eq
  library := hc.library
  stands := hc.stands
  fresh := hc.fresh
  errors := by
    obtain ⟨es, heq, hes⟩ := hc.errors
    refine ⟨es ++ [e], by rw [← List.append_assoc, ← heq], fun t ht => ?_⟩
    rw [List.filter_append, hes t ht]
    simp [he t ht]

theorem resolvesAt_resolveResult (hc : c.Resolving b c₀) {name : Ident}
    (hname : ∀ t ∈ b.writtenTypes, name.span ≠ t.name.span) {returns : Option WrittenType}
    (hreturns : ∀ t ∈ returns, t ∈ b.writtenTypes) :
    ResolvesAt b c₀ c (resolveResult name returns) fun r c' =>
      r = c'.result? (c₀.globalType? Library.voidName) returns ∧
        ∀ t ∈ returns, t.place.id ∈ c'.attempted := by
  cases returns with
  | some t =>
    have htype := resolvesAt_resolveType hb hs hc₀ hc (hreturns t rfl)
    exact ⟨htype.resolving, htype.retains, htype.signatures_eq, htype.result.1, fun t' ht' =>
      Option.some.inj ht' ▸ htype.result.2⟩
  | none =>
    refine resolvesAt_get_bind ?_
    rw [Context.globalType?_eq hc₀ hc.library hc.globals_eq]
    cases hvoid : c₀.globalType? Library.voidName with
    | some void => exact resolvesAt_pure hc ⟨rfl, by simp⟩
    | none => exact ⟨resolving_report hc hname, ⟨.refl _, List.Subset.refl _, fun _ _ => rfl⟩, rfl,
        rfl, by simp⟩

end Resolving

/-! ## The second phase -/

/-- A function that has been met has been looked up with all its parts, and has their type. -/
def Signs (void : Option SymbolId) (c : Context) (n : Node) : Prop :=
  ∀ name ps returns, n.head = .function name ps returns →
    (∀ p ∈ ps, p.type.place.id ∈ c.attempted) ∧ (∀ t ∈ returns, t.place.id ∈ c.attempted) ∧
      c.HasSignature n.id (c.parts? void ps returns)

theorem Signs.mono {void : Option SymbolId} {c' : Context} {n : Node} (h : Signs void c n)
    (hretains : c.Retains c')
    (hn : c'.annotations.signatures.get? n.id = c.annotations.signatures.get? n.id) :
    Signs void c' n := by
  intro name ps returns hhead
  obtain ⟨hps, hreturns, hsignature⟩ := h name ps returns hhead
  refine ⟨fun p hp => hretains.attempted (hps p hp), fun t ht => hretains.attempted (hreturns t ht),
    ?_⟩
  rw [hretains.parts?_eq hps hreturns]
  exact hsignature.mono hretains.library hn

/-- The second phase has met these nodes. -/
structure Met (b : Block) (c₀ : Context) (done : List Node) (c : Context) : Prop
    extends c.Resolving b c₀ where
  attempted : ∀ n ∈ done, ∀ t, n.head = .type t → t.place.id ∈ c.attempted
  signs : ∀ n ∈ done, Signs (c₀.globalType? Library.voidName) c n
  unsigned : ∀ n ∉ done.map Node.id, c.annotations.signatures.get? n = none

section Phase

variable (hb : b.Numbered) (hs : b.Spelled) (hc₀ : c₀.IsStarred) {done : List Node} {n : Node}

/-- A step that leaves the signatures of other nodes as they are. -/
theorem Met.snoc {c' : Context} (hc : Met b c₀ done c) (hn : n.id ∉ done.map Node.id)
    (hresolving : c'.Resolving b c₀) (hretains : c.Retains c')
    (hothers : ∀ m ≠ n.id, c'.annotations.signatures.get? m = c.annotations.signatures.get? m)
    (hattempted : ∀ t, n.head = .type t → t.place.id ∈ c'.attempted)
    (hsigns : Signs (c₀.globalType? Library.voidName) c' n) : Met b c₀ (done ++ [n]) c' := by
  refine ⟨hresolving, ?_, ?_, fun m hm => ?_⟩
  · rw [List.forall_mem_append, List.forall_mem_singleton]
    exact ⟨fun m hm t ht => hretains.attempted (hc.attempted m hm t ht), hattempted⟩
  · rw [List.forall_mem_append, List.forall_mem_singleton]
    refine ⟨fun m hm => (hc.signs m hm).mono hretains (hothers _ ?_), hsigns⟩
    rintro heq
    exact hn (heq ▸ List.mem_map_of_mem hm)
  · rw [List.map_append, List.mem_append, not_or] at hm
    rw [hothers m (by simpa using hm.2)]
    exact hc.unsigned m hm.1

theorem mapM_id_map {ι : Type} (f : ι → Option SymbolId) (xs : List ι) :
    (xs.map f).mapM id = xs.mapM f := by
  induction xs with
  | nil => rfl
  | cons x xs ih =>
    rw [List.map_cons, List.mapM_cons, List.mapM_cons, ih]
    rfl

theorem resolving_evolve (hc : c.Resolving b c₀) {lib : Library}
    (hlib : c.library.Furthers lib) (signatures : NodeTable) :
    { c with library := lib, annotations := { c.annotations with signatures } }.Resolving b c₀ where
  isStarred :=
    have h := hc.isStarred.evolve hlib
    ⟨h.library, h.globals, h.declaredTypes⟩
  globals_eq := hc.globals_eq
  library := hc.library.trans hlib.toExtends
  stands t ht hmem := (hc.stands t ht hmem).mono hlib.toExtends rfl
  fresh := hc.fresh
  errors := hc.errors

/-- A function notes its type if it has all its parts. -/
theorem noteSignature_spec (hc : c.Resolving b c₀) {node : NodeId}
    (hnode : c.annotations.signatures.get? node = none) {ps : Option (List SymbolId)}
    {r : Option SymbolId} (hps : ∀ xs, ps = some xs → ∀ x ∈ xs, c.library.Knows IsType x)
    (hr : ∀ x, r = some x → c.library.Knows IsType x) :
    let c' := ((noteSignature node ps r).run c).2
    c'.Resolving b c₀ ∧ c.Retains c' ∧
      c'.HasSignature node (ps.bind fun ps => r.map (ps, ·)) ∧
      c'.annotations.declaredTypes = c.annotations.declaredTypes ∧
      ∀ m ≠ node, c'.annotations.signatures.get? m = c.annotations.signatures.get? m := by
  have hsame : ∀ {parts}, parts = none → c.HasSignature node parts := fun h => h ▸ hnode
  match ps, r with
  | none, _ => exact ⟨hc, .refl c, hsame rfl, rfl, fun _ _ => rfl⟩
  | some ps, none => exact ⟨hc, .refl c, hsame rfl, rfl, fun _ _ => rfl⟩
  | some ps, some r =>
    obtain ⟨hlib, hx⟩ := hc.isStarred.library.functionType (hps ps rfl) (hr r rfl)
    refine ⟨resolving_evolve hc hlib _, ⟨hlib.toExtends, List.Subset.refl _, fun _ _ => rfl⟩,
      ⟨_, ?_, hx⟩, rfl, fun m hm => ?_⟩
    · exact (OrderedMap.get?_insert _ _ _ _).trans (if_pos rfl)
    · exact (OrderedMap.get?_insert _ _ _ _).trans (if_neg hm)

/-- What is found of the parts of a function. -/
def PartsAnswered (c₀ : Context) (ps : List Parameter) (returns : Option WrittenType)
    (r : Option (List SymbolId) × Option SymbolId) (c : Context) : Prop :=
  r = (c.parameters? ps, c.result? (c₀.globalType? Library.voidName) returns) ∧
    (∀ p ∈ ps, p.type.place.id ∈ c.attempted) ∧ ∀ t ∈ returns, t.place.id ∈ c.attempted

/-- A function is met: its parts are looked up, and then its type is noted. -/
theorem met_noteSignature (hc : Met b c₀ done c)
    (hfresh : n.id ∉ done.map Node.id) {name : Ident} {ps : List Parameter}
    {returns : Option WrittenType} (hhead : n.head = .function name ps returns)
    {m : Analyzing (Option (List SymbolId) × Option SymbolId)}
    (hm : ResolvesAt b c₀ c m (PartsAnswered c₀ ps returns)) :
    Met b c₀ (done ++ [n]) ((m >>= fun r => noteSignature n.id r.1 r.2).run c).2 := by
  have hrun : ((m >>= fun r => noteSignature n.id r.1 r.2).run c).2 =
      ((noteSignature n.id (m.run c).1.1 (m.run c).1.2).run (m.run c).2).2 := rfl
  rw [hrun]
  obtain ⟨hresolving, hretains, hsignatures, hr, hps, hreturns⟩ := hm
  generalize (m.run c).2 = c₁ at *
  generalize (m.run c).1 = r at *
  subst hr
  have hresult : ∀ x, c₁.result? (c₀.globalType? Library.voidName) returns = some x →
      c₁.library.Knows IsType x := by
    cases returns with
    | some t => exact hresolving.isStarred.declaredTypes _
    | none => exact fun x hx => hresolving.library.knows (knows_of_globalType? hx)
  have hnode : c₁.annotations.signatures.get? n.id = none := by
    rw [hsignatures]
    exact hc.unsigned _ hfresh
  obtain ⟨hresolving', hretains', hsignature, hdeclared, hothers⟩ := noteSignature_spec hresolving
    hnode (fun _ h => Context.knows_parameters? hresolving.isStarred h) hresult
  refine hc.snoc hfresh hresolving' (hretains.trans hretains') (fun k hk => ?_) (by simp [hhead])
    fun name' ps' returns' hhead' => ?_
  · rw [hothers k hk, hsignatures]
  · obtain ⟨rfl, rfl, rfl⟩ := Head.function.inj (hhead.symm.trans hhead')
    refine ⟨fun p hp => hretains'.attempted (hps p hp),
      fun t ht => hretains'.attempted (hreturns t ht), ?_⟩
    rw [hretains'.parts?_eq hps hreturns]
    exact hsignature

include hb hs hc₀

theorem met_resolveSignature (hc : Met b c₀ done c) (hn : n ∈ b.tree.preorder)
    (hfresh : n.id ∉ done.map Node.id) {name : Ident} {ps : List Parameter}
    {returns : Option WrittenType} (hhead : n.head = .function name ps returns) :
    Met b c₀ (done ++ [n]) ((resolveSignature n.id name ps returns).run c).2 := by
  have hkind : n.kind = .function := by rw [Node.kind, hhead, Head.kind]
  obtain ⟨d, hd, rfl⟩ := (Block.type_and_function_of_mem_preorder hn).2 hkind
  obtain ⟨rfl, rfl, rfl⟩ := Head.function.inj hhead
  have hname : ∀ t ∈ b.writtenTypes, d.name.span ≠ t.name.span := fun t ht =>
    hs.span_type_ne ht hn (by simp [FunctionDecl.node]) (by simp [FunctionDecl.node, Head.names])
  have hparts : ResolvesAt b c₀ c (do
      let parameters ← d.parameters.mapM fun p => resolveType p.type
      let returns ← resolveResult d.name d.returns
      return (parameters.mapM id, returns)) (PartsAnswered c₀ d.parameters d.returns) := by
    refine (resolvesAt_parameters hb hs hc₀ hc.toResolving
      (Block.parameter_mem_writtenTypes hd)).bind fun rs c₁ hc₁ _ hrs => ?_
    refine (resolvesAt_resolveResult hb hs hc₀ hc₁ hname
      (Block.returns_mem_writtenTypes hd)).bind fun r c₂ hc₂ hretains hr => ?_
    refine resolvesAt_pure hc₂ ⟨?_, fun p hp => hretains.attempted (hrs.2 p hp), hr.2⟩
    rw [hrs.1, mapM_id_map, hr.1,
      Context.parameters?_congr fun p hp => hretains.declaredTypes _ (hrs.2 p hp)]
    rfl
  have hrun : resolveSignature d.node.id d.name d.parameters d.returns = (do
      let parts ← (do
        let parameters ← d.parameters.mapM fun p => resolveType p.type
        let returns ← resolveResult d.name d.returns
        return (parameters.mapM id, returns))
      noteSignature d.node.id parts.1 parts.2) := by
    simp only [resolveSignature_eq, bind_assoc, pure_bind]
  rw [hrun]
  exact met_noteSignature hc hfresh hhead hparts

theorem met_resolveNode (hc : Met b c₀ done c) (hn : n ∈ b.tree.preorder)
    (hfresh : n.id ∉ done.map Node.id) :
    Met b c₀ (done ++ [n]) ((resolveNode n).run c).2 := by
  unfold resolveNode
  split
  · next t hhead =>
    have ht : t ∈ b.writtenTypes := Block.mem_writtenTypes.2 ⟨n, hn, hhead⟩
    obtain ⟨hresolving, hretains, hsignatures, hanswer⟩ :=
      resolvesAt_resolveType hb hs hc₀ hc.toResolving ht
    refine hc.snoc hfresh hresolving hretains (fun m _ => ?_) (fun t' ht' => ?_) ?_
    · exact congrArg (·.get? m) hsignatures
    · obtain rfl := Head.type.inj (hhead.symm.trans ht')
      exact hanswer.2
    · intro name ps returns hhead'
      rw [hhead] at hhead'
      cases hhead'
  · next hhead => exact met_resolveSignature hb hs hc₀ hc hn hfresh hhead
  · next htype hfunction =>
    exact hc.snoc hfresh hc.toResolving (.refl c) (fun _ _ => rfl)
      (fun t ht => absurd ht (htype t)) fun name ps returns hhead =>
        absurd hhead (hfunction name ps returns)

/-- All nodes are met, one after another. -/
theorem met_resolveTypes (hc : Met b c₀ [] c) :
    Met b c₀ b.tree.preorder ((resolveTypes b.tree).run c).2 := by
  have hnodes : ∀ ns done (c : Context), done ++ ns = b.tree.preorder → Met b c₀ done c →
      Met b c₀ b.tree.preorder ((ns.forM resolveNode).run c).2 := by
    intro ns
    induction ns with
    | nil =>
      intro done c heq hc
      rw [List.append_nil] at heq
      exact heq ▸ hc
    | cons n ns ih =>
      intro done c heq hc
      have hnodup := hb.nodup_ids
      rw [← heq, List.map_append, List.map_cons, List.nodup_append'] at hnodup
      have hmem : n ∈ b.tree.preorder := heq ▸ List.mem_append_right _ List.mem_cons_self
      refine ih (done ++ [n]) _ (by rw [List.append_assoc]; exact heq)
        (met_resolveNode hb hs hc₀ hc hmem fun hn => hnodup.2.2 hn List.mem_cons_self)
  exact hnodes _ [] c rfl hc

end Phase

end Analyzing

end Sable
