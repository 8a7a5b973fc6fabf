import Sable.Proofs.Analysis.Describing

/-!
# What written types stand for

The second phase looks up the names of written types, each at the first time that it is asked for.
The types that it makes stand for what the world says of written types and of functions, and the
errors are about the names that the world does not know.

## Main definitions

* `Request`: a type name that is looked up.
* `Request.firsts`: the requests that were not made before.
* `World.unknown`: the error about a name.
* `World.Settles`: what is known of types in the second phase.

## Main statements

* `World.Models.withTypes`: the state behind the second phase.
-/
namespace Sable

open Library (Means Represents Remembers)

/-! ## Requests -/

/-- A type name that is looked up. A written type is looked up once only. -/
structure Request where
  node : Option NodeId
  name : Ident

def WrittenType.request (t : WrittenType) : Request := ⟨some t.place.id, t.name⟩

/-- A function that says nothing of a result asks for the void type. -/
def resultRequest (name : Ident) : Option WrittenType → Request
  | some t => t.request
  | none => ⟨none, Library.voidName, name.span⟩

def Node.requests (n : Node) : List Request :=
  match n.head with
  | .type t => [t.request]
  | .function name ps returns => ps.map (fun p => p.type.request) ++ [resultRequest name returns]
  | _ => []

/-- What the second phase asks for. -/
def Block.requests (b : Block) : List Request := b.tree.preorder.flatMap Node.requests

namespace Request

/-- The requests that are made for the first time. -/
def firsts (attempted : List NodeId) : List Request → List Request
  | [] => []
  | r :: rs =>
    match r.node with
    | some n => if n ∈ attempted then firsts attempted rs else r :: firsts (n :: attempted) rs
    | none => r :: firsts attempted rs

/-- The written types that are looked up behind the requests. -/
def attempt (attempted : List NodeId) : List Request → List NodeId
  | [] => attempted
  | r :: rs =>
    match r.node with
    | some n => if n ∈ attempted then attempt attempted rs else attempt (n :: attempted) rs
    | none => attempt attempted rs

theorem attempt_append (attempted : List NodeId) (rs rs' : List Request) :
    attempt attempted (rs ++ rs') = attempt (attempt attempted rs) rs' := by
  induction rs generalizing attempted with
  | nil => rfl
  | cons r rs ih =>
    simp only [List.cons_append, attempt]
    cases r.node with
    | none => exact ih attempted
    | some n =>
      dsimp only
      split
      · exact ih attempted
      · exact ih (n :: attempted)

theorem firsts_append (attempted : List NodeId) (rs rs' : List Request) :
    firsts attempted (rs ++ rs') = firsts attempted rs ++ firsts (attempt attempted rs) rs' := by
  induction rs generalizing attempted with
  | nil => rfl
  | cons r rs ih =>
    simp only [List.cons_append, firsts, attempt]
    cases r.node with
    | none => exact congrArg _ (ih attempted)
    | some n =>
      dsimp only
      split
      · exact ih attempted
      · exact congrArg _ (ih (n :: attempted))

theorem subset_attempt (attempted : List NodeId) (rs : List Request) :
    attempted ⊆ attempt attempted rs := by
  induction rs generalizing attempted with
  | nil => exact List.Subset.refl _
  | cons r rs ih =>
    rw [attempt]
    cases r.node with
    | none => exact ih attempted
    | some n =>
      dsimp only
      split
      · exact ih attempted
      · exact List.Subset.trans (List.subset_cons_self n attempted) (ih _)

theorem mem_attempt {attempted : List NodeId} {rs : List Request} {r : Request} (hr : r ∈ rs)
    {n : NodeId} (hn : r.node = some n) : n ∈ attempt attempted rs := by
  obtain ⟨rs₁, rs₂, rfl⟩ := List.append_of_mem hr
  rw [attempt_append, attempt, hn]
  dsimp only
  split
  · next hmem => exact subset_attempt _ _ hmem
  · exact subset_attempt _ _ List.mem_cons_self

end Request

namespace World

variable (W : World)

/-- The error about a name, unless it names a type. -/
def unknown (r : Request) : List SemanticError :=
  if (W.typeNamed? r.name.name).isSome then [] else [.symbolNotFound r.name.name r.name.span]

/-- In the second phase: the types that were looked up so far stand for what is written. The classes
were declared in `c₁`. -/
structure Settles (G : Entity → SymbolId → Prop) (b : Block) (lib₀ : Library) (c₁ c : Context) :
    Prop where
  finds : c₁.Finds c
  represents : c.library.Represents W G (b.row c₁) lib₀
  declaredType : ∀ t ∈ b.writtenTypes, ∀ x,
    c.annotations.declaredTypes.get? t.place.id = some x →
      ∃ u, W.written? t = some u ∧ c.library.Means G (b.row c₁) u x
  isSome_declaredType : ∀ t ∈ b.writtenTypes, t.place.id ∈ c.attempted → (W.written? t).isSome →
    (c.annotations.declaredTypes.get? t.place.id).isSome
  signature : ∀ d ∈ b.allFunctions, ∀ x,
    c.annotations.signatures.get? d.place.id = some x →
      ∃ u, W.signature? d.parameters d.returns = some u ∧
        c.library.Means G (b.row c₁) u x
  remembers : c₁.library.Remembers c.library
  published : b.HasStar → c.library.globals.get? "*" = c₁.library.globals.get? "*"

/-- These requests are made. -/
structure Asks (G : Entity → SymbolId → Prop) (b : Block) (lib₀ : Library) (c₁ : Context)
    (rs : List Request) (c c' : Context) : Prop where
  settles : W.Settles G b lib₀ c₁ c'
  attempted_eq : c'.attempted = Request.attempt c.attempted rs
  errors_eq : c'.errors = c.errors ++ (Request.firsts c.attempted rs).flatMap W.unknown
  remembers : c.library.Remembers c'.library
  signature : ∀ n, (c.annotations.signatures.get? n).isSome →
    (c'.annotations.signatures.get? n).isSome

variable {W : World} {G : Entity → SymbolId → Prop} {b : Block} {lib₀ : Library}
  {c₁ c c' c'' : Context} {rs rs' : List Request}

theorem Settles.written? (h : W.Settles G b lib₀ c₁ c) {t : WrittenType} (ht : t ∈ b.writtenTypes)
    (hattempted : t.place.id ∈ c.attempted) :
    Option.Rel (c.library.Means G (b.row c₁)) (W.written? t)
      (c.annotations.declaredTypes.get? t.place.id) :=
  rel_of_forall (h.declaredType t ht) (h.isSome_declaredType t ht hattempted)

theorem Asks.refl (h : W.Settles G b lib₀ c₁ c) : W.Asks G b lib₀ c₁ [] c c :=
  ⟨h, rfl, (List.append_nil _).symm, .refl _, fun _ h => h⟩

theorem Asks.trans (h : W.Asks G b lib₀ c₁ rs c c') (h' : W.Asks G b lib₀ c₁ rs' c' c'') :
    W.Asks G b lib₀ c₁ (rs ++ rs') c c'' where
  settles := h'.settles
  attempted_eq := by rw [h'.attempted_eq, h.attempted_eq, Request.attempt_append]
  errors_eq := by
    rw [h'.errors_eq, h.errors_eq, h.attempted_eq, Request.firsts_append, List.flatMap_append,
      List.append_assoc]
  remembers := h.remembers.trans h'.remembers
  signature n hn := h'.signature n (h.signature n hn)

end World

theorem Analyzing.run_resolveType (t : WrittenType) (c : Context) : (resolveType t).run c =
    if t.place.id ∈ c.attempted then (c.annotations.declaredTypes.get? t.place.id, c) else
    match c.globalType? t.name.name with
    | none => (none, { c with
        attempted := t.place.id :: c.attempted
        errors := c.errors ++ [.symbolNotFound t.name.name t.name.span] })
    | some base => (some (c.library.pointerType base t.stars).1, { c with
        library := (c.library.pointerType base t.stars).2
        attempted := t.place.id :: c.attempted
        annotations := { c.annotations with
          declaredTypes := c.annotations.declaredTypes.insert t.place.id
            (c.library.pointerType base t.stars).1 } }) := by
  have hget : (get : Analyzing Context).run c = (c, c) := rfl
  rw [resolveType, run_bind, hget]
  dsimp only
  split
  · rfl
  · generalize c.globalType? t.name.name = base
    cases base <;> rfl

theorem isPlainName_voidName : IsPlainName Library.voidName := ⟨by decide, by decide⟩

namespace World.Models

open Analyzing

variable {W : World} {G : Entity → SymbolId → Prop} {b : Block} {deps : List Library}
  {target : Library} (h : W.Models G b deps target) {c : Context}
  (hc : W.Settles G b (b.atStart deps target).library (b.withClasses deps target) c)

include h hc

theorem settles_globalType? {name : String} (hname : b.CanSay name) :
    Option.Rel (c.library.Means G (b.row (b.withClasses deps target)))
      (W.typeNamed? name) (c.globalType? name) :=
  h.globalType? hc.finds.globals_eq hc.represents hc.remembers hname

theorem asks_resolveType {t : WrittenType} (ht : t ∈ b.writtenTypes) :
    W.Asks G b (b.atStart deps target).library (b.withClasses deps target) [t.request] c
        ((resolveType t).run c).2 ∧
      Option.Rel (((resolveType t).run c).2.library.Means G
        (b.row (b.withClasses deps target))) (W.written? t)
        ((resolveType t).run c).1 := by
  have hglobal := h.settles_globalType? hc (h.named.canSay_type ht)
  have hfinds := hc.finds.trans (finds_resolveType t c hc.represents.isApart)
  rw [run_resolveType] at hfinds ⊢
  by_cases hattempted : t.place.id ∈ c.attempted
  · rw [if_pos hattempted] at hfinds ⊢
    refine ⟨⟨hc, ?_, ?_, .refl _, fun _ h => h⟩, hc.written? ht hattempted⟩
    · simp [Request.attempt, WrittenType.request, hattempted]
    · simp [Request.firsts, WrittenType.request, hattempted]
  rw [if_neg hattempted] at hfinds ⊢
  have hfirsts : Request.firsts c.attempted [t.request] = [t.request] := by
    simp [Request.firsts, WrittenType.request, hattempted]
  have hattempt : Request.attempt c.attempted [t.request] = t.place.id :: c.attempted := by
    simp [Request.attempt, WrittenType.request, hattempted]
  generalize hname : c.globalType? t.name.name = base at hglobal hfinds ⊢
  generalize hnamed : W.typeNamed? t.name.name = named at hglobal
  have hwritten : W.written? t = named.map fun base => W.pointers base t.stars := by
    rw [World.written?, hnamed]
  cases hglobal with
  | none =>
    refine ⟨⟨⟨hfinds, hc.represents, hc.declaredType, fun t' ht' hmem hsome => ?_,
      hc.signature, hc.remembers, hc.published⟩, hattempt.symm, ?_, .refl _, fun _ h => h⟩,
      hwritten ▸ .none⟩
    · rcases List.mem_cons.1 hmem with heq | hmem
      · rw [h.named.writtenTypes_inj ht' ht heq, hwritten] at hsome
        simp at hsome
      · exact hc.isSome_declaredType t' ht' hmem hsome
    · rw [hfirsts, List.flatMap_singleton, World.unknown, WrittenType.request, hnamed]
      rfl
  | @some base' base hbase =>
    obtain ⟨hlib, hremembers, hx⟩ := hc.represents.pointerType h.grounds hbase t.stars
    refine ⟨⟨⟨hfinds, hlib, fun t' ht' x hx' => ?_, fun t' ht' hmem hsome => ?_,
      fun d hd x hx' => ?_, hc.remembers.trans hremembers, fun hstar => ?_⟩, hattempt.symm, ?_,
      hremembers, fun _ h => h⟩, hwritten ▸ .some hx⟩
    · rw [OrderedMap.get?_insert] at hx'
      split at hx'
      · next heq =>
        rw [h.named.writtenTypes_inj ht' ht heq, hwritten]
        exact ⟨_, rfl, Option.some.inj hx' ▸ hx⟩
      · obtain ⟨u, hu, hx'⟩ := hc.declaredType t' ht' x hx'
        exact ⟨u, hu, hx'.mono hremembers fun h => h⟩
    · rw [OrderedMap.get?_insert]
      split
      · rfl
      · next hne => exact hc.isSome_declaredType t' ht' ((List.mem_cons.1 hmem).resolve_left hne) hsome
    · obtain ⟨u, hu, hx'⟩ := hc.signature d hd x hx'
      exact ⟨u, hu, hx'.mono hremembers fun h => h⟩
    · obtain ⟨n, hn, hhead⟩ := Block.mem_writtenTypes.1 ht
      have hne := h.named.ne_empty hstar n hn t.name (by simp [hhead, Head.names])
      have hstar' := h.star hstar
      exact (hc.represents.get?_globals_star_pointerType h.grounds hbase
        (hstar'.name_ne (h.named.canSay_type ht) hne hnamed) hstar'.name_pointerTo_ne
        t.stars).trans (hc.published hstar)
    · rw [hfirsts, List.flatMap_singleton, World.unknown, WrittenType.request, hnamed]
      exact (List.append_nil _).symm

theorem asks_parameters {ps : List Parameter} (hps : ∀ p ∈ ps, p.type ∈ b.writtenTypes) :
    W.Asks G b (b.atStart deps target).library (b.withClasses deps target)
        (ps.map fun p => p.type.request) c ((ps.mapM fun p => resolveType p.type).run c).2 ∧
      List.Forall₂ (Option.Rel (((ps.mapM fun p => resolveType p.type).run c).2.library.Means G
        (b.row (b.withClasses deps target))))
        (ps.map fun p => W.written? p.type) ((ps.mapM fun p => resolveType p.type).run c).1 := by
  induction ps generalizing c with
  | nil =>
    rw [List.mapM_nil]
    exact ⟨.refl hc, .nil⟩
  | cons p ps ih =>
    rw [List.forall_mem_cons] at hps
    rw [List.mapM_cons]
    obtain ⟨hfirst, hx⟩ := h.asks_resolveType hc hps.1
    obtain ⟨hrest, hxs⟩ := ih hfirst.settles hps.2
    refine ⟨hfirst.trans hrest, .cons ?_ hxs⟩
    exact rel_mono (fun hx => hx.mono hrest.remembers fun h => h) hx

theorem asks_resolveResult (name : Ident) {returns : Option WrittenType}
    (hreturns : ∀ t ∈ returns, t ∈ b.writtenTypes) :
    W.Asks G b (b.atStart deps target).library (b.withClasses deps target)
        [resultRequest name returns] c ((resolveResult name returns).run c).2 ∧
      Option.Rel (((resolveResult name returns).run c).2.library.Means G
        (b.row (b.withClasses deps target))) (W.result? returns)
        ((resolveResult name returns).run c).1 := by
  cases returns with
  | some t => exact h.asks_resolveType hc (hreturns t rfl)
  | none =>
    have hglobal := h.settles_globalType? hc (.inl isPlainName_voidName)
    have hfirsts : Request.firsts c.attempted [resultRequest name none] =
        [resultRequest name none] := rfl
    rw [resolveResult, run_builtin, World.result?]
    generalize hname : c.globalType? Library.voidName = base at hglobal ⊢
    generalize hnamed : W.typeNamed? Library.voidName = named at hglobal ⊢
    cases hglobal with
    | none =>
      refine ⟨⟨⟨hc.finds.trans ?_, hc.represents, hc.declaredType, hc.isSome_declaredType,
        hc.signature, hc.remembers, hc.published⟩, rfl, ?_, .refl _, fun _ h => h⟩, .none⟩
      · exact finds_report _ c hc.represents.isApart
      · rw [hfirsts, List.flatMap_singleton, World.unknown, resultRequest, hnamed]
        rfl
    | some hx =>
      refine ⟨⟨hc, rfl, ?_, .refl _, fun _ h => h⟩, .some hx⟩
      rw [hfirsts, List.flatMap_singleton, World.unknown, resultRequest, hnamed]
      exact (List.append_nil _).symm

theorem asks_noteSignature {d : FunctionDecl} (hd : d ∈ b.allFunctions)
    {parameters : Option (List SymbolId)} {returns : Option SymbolId}
    (hparameters : Option.Rel (List.Forall₂ (c.library.Means G
      (b.row (b.withClasses deps target))))
      (d.parameters.mapM fun p => W.written? p.type) parameters)
    (hreturns : Option.Rel (c.library.Means G
      (b.row (b.withClasses deps target))) (W.result? d.returns) returns) :
    W.Asks G b (b.atStart deps target).library (b.withClasses deps target) [] c
        ((noteSignature d.place.id parameters returns).run c).2 ∧
      ((W.signature? d.parameters d.returns).isSome →
        (((noteSignature d.place.id parameters returns).run c).2.annotations.signatures.get?
          d.place.id).isSome) := by
  generalize hps : (d.parameters.mapM fun p => W.written? p.type) = ps at hparameters
  generalize hr : W.result? d.returns = r at hreturns
  have hsignature : W.signature? d.parameters d.returns = W.functionType? ps r := by
    rw [World.signature?, hps, hr]
  rw [hsignature]
  cases hparameters with
  | none => exact ⟨.refl hc, by simp [World.functionType?]⟩
  | @some ts xs hxs =>
    cases hreturns with
    | none => exact ⟨.refl hc, by simp [World.functionType?]⟩
    | @some t x hx =>
      have hfinds := hc.finds.trans
        (finds_noteSignature d.place.id (some xs) (some x) c hc.represents.isApart)
      obtain ⟨hlib, hremembers, hmeans⟩ := hc.represents.functionType h.grounds hxs hx
      have hrun : (noteSignature d.place.id (some xs) (some x)).run c = ((), { c with
          library := (c.library.functionType xs x).2
          annotations := { c.annotations with
            signatures := c.annotations.signatures.insert d.place.id
              (c.library.functionType xs x).1 } }) := rfl
      rw [hrun] at hfinds ⊢
      refine ⟨⟨⟨hfinds, hlib, fun t' ht' y hy => ?_, hc.isSome_declaredType, fun e he y hy => ?_,
        hc.remembers.trans hremembers, fun hstar => ?_⟩, rfl, (List.append_nil _).symm, hremembers,
        fun n hn => ?_⟩, fun _ => ?_⟩
      · obtain ⟨u, hu, hy⟩ := hc.declaredType t' ht' y hy
        exact ⟨u, hu, hy.mono hremembers fun h => h⟩
      · rw [OrderedMap.get?_insert] at hy
        split at hy
        · next heq =>
          have hnode := h.named.functionNode_inj he hd heq
          obtain ⟨-, hparameters, hreturns⟩ := Head.function.inj (Node.mk.inj hnode).2
          rw [hparameters, hreturns, hsignature]
          exact ⟨_, rfl, Option.some.inj hy ▸ hmeans⟩
        · obtain ⟨u, hu, hy⟩ := hc.signature e he y hy
          exact ⟨u, hu, hy.mono hremembers fun h => h⟩
      · exact (hc.represents.isApart.get?_globals_star_functionType xs x).trans (hc.published hstar)
      · rw [OrderedMap.get?_insert]
        split
        · rfl
        · exact hn
      · rw [OrderedMap.get?_insert, if_pos rfl]
        rfl

theorem asks_resolveSignature {d : FunctionDecl} (hd : d ∈ b.allFunctions) :
    W.Asks G b (b.atStart deps target).library (b.withClasses deps target) d.node.requests c
        ((resolveSignature d.place.id d.name d.parameters d.returns).run c).2 ∧
      ((W.signature? d.parameters d.returns).isSome →
        (((resolveSignature d.place.id d.name d.parameters d.returns).run
          c).2.annotations.signatures.get? d.place.id).isSome) := by
  rw [resolveSignature_eq]
  obtain ⟨hps, hxs⟩ := h.asks_parameters hc (Block.parameter_mem_writtenTypes hd)
  obtain ⟨hreturns, hx⟩ := h.asks_resolveResult hps.settles d.name (Block.returns_mem_writtenTypes hd)
  have hxs' := rel_mapM (hxs.imp fun _ _ =>
    rel_mono fun hx => hx.mono hreturns.remembers fun h => h)
  have hmap : (d.parameters.map fun p => W.written? p.type).mapM id =
      d.parameters.mapM fun p => W.written? p.type := List.mapM_map
  rw [hmap] at hxs'
  obtain ⟨hnote, hsome⟩ := h.asks_noteSignature hreturns.settles hd hxs' hx
  refine ⟨?_, hsome⟩
  have hboth := (hps.trans hreturns).trans hnote
  rwa [List.append_nil] at hboth

theorem asks_resolveNode {n : Node} (hn : n ∈ b.tree.preorder) :
    W.Asks G b (b.atStart deps target).library (b.withClasses deps target) n.requests c
        ((resolveNode n).run c).2 ∧
      ∀ d ∈ b.allFunctions, d.node = n → (W.signature? d.parameters d.returns).isSome →
        (((resolveNode n).run c).2.annotations.signatures.get? d.place.id).isSome := by
  obtain ⟨htype, hfunction⟩ := Block.type_and_function_of_mem_preorder hn
  cases hhead : n.head with
  | type t =>
    have ht : t ∈ b.writtenTypes := Block.mem_writtenTypes.2 ⟨n, hn, hhead⟩
    have hrun : ((resolveNode n).run c).2 = ((resolveType t).run c).2 := by
      rw [resolveNode, hhead]
      rfl
    have hrequests : n.requests = [t.request] := by rw [Node.requests, hhead]
    rw [hrun, hrequests]
    refine ⟨(h.asks_resolveType hc ht).1, fun d _ hd => ?_⟩
    rw [← hd] at hhead
    exact Head.noConfusion hhead
  | function name ps returns =>
    obtain ⟨d, hd, rfl⟩ := hfunction (by rw [Node.kind, hhead, Head.kind])
    obtain ⟨hasks, hsome⟩ := h.asks_resolveSignature hc hd
    refine ⟨hasks, fun e he heq => ?_⟩
    obtain ⟨hplace, hparts⟩ := Node.mk.inj heq
    obtain ⟨-, hparameters, hreturns⟩ := Head.function.inj hparts
    rw [hparameters, hreturns, hplace]
    exact hsome
  | _ =>
    have hrun : ((resolveNode n).run c).2 = c := by
      rw [resolveNode, hhead]
      rfl
    have hrequests : n.requests = [] := by rw [Node.requests, hhead]
    rw [hrun, hrequests]
    refine ⟨.refl hc, fun d _ hd => ?_⟩
    rw [← hd] at hhead
    exact Head.noConfusion hhead

theorem asks_resolveNodes {ns : List Node} (hns : ns ⊆ b.tree.preorder) :
    W.Asks G b (b.atStart deps target).library (b.withClasses deps target)
        (ns.flatMap Node.requests) c ((ns.forM resolveNode).run c).2 ∧
      ∀ d ∈ b.allFunctions, d.node ∈ ns → (W.signature? d.parameters d.returns).isSome →
        (((ns.forM resolveNode).run c).2.annotations.signatures.get? d.place.id).isSome := by
  induction ns generalizing c with
  | nil => exact ⟨.refl hc, by simp⟩
  | cons n ns ih =>
    rw [List.cons_subset] at hns
    obtain ⟨hfirst, hsome⟩ := h.asks_resolveNode hc hns.1
    obtain ⟨hrest, hsome'⟩ := ih hfirst.settles hns.2
    refine ⟨hfirst.trans hrest, fun d hd hmem hsignature => ?_⟩
    rcases List.mem_cons.1 hmem with heq | hmem
    · exact hrest.signature _ (hsome d hd heq hsignature)
    · exact hsome' d hd hmem hsignature

omit hc

theorem asks_withTypes : W.Asks G b (b.atStart deps target).library (b.withClasses deps target)
    b.requests (b.withClasses deps target) (b.withTypes deps target) ∧
      ∀ d ∈ b.allFunctions, (W.signature? d.parameters d.returns).isSome →
        ((b.withTypes deps target).annotations.signatures.get? d.place.id).isSome := by
  have hannotations : (b.withClasses deps target).annotations.declaredTypes = .empty ∧
      (b.withClasses deps target).annotations.signatures = .empty ∧
      (b.withClasses deps target).attempted = [] := by
    obtain ⟨_, _, _, _, _, heq⟩ := (h.named.withClasses_spec h.isFresh).1
    rw [heq]
    exact ⟨rfl, rfl, rfl⟩
  obtain ⟨hdeclared, hsignatures, hattempted⟩ := hannotations
  have hstart : W.Settles G b (b.atStart deps target).library (b.withClasses deps target)
      (b.withClasses deps target) :=
    { finds := .refl _
      represents := h.represents_withClasses
      declaredType := fun t _ x hx => by simp [hdeclared] at hx
      isSome_declaredType := fun t _ hmem => by simp [hattempted] at hmem
      signature := fun d _ x hx => by simp [hsignatures] at hx
      remembers := .refl _
      published := fun _ => rfl }
  obtain ⟨hasks, hsome⟩ := h.asks_resolveNodes hstart (List.Subset.refl _)
  exact ⟨hasks, fun d hd => hsome d hd (Block.node_mem_preorder hd)⟩

/-- Behind the second phase, the type of a written type is known. -/
theorem written?_withTypes {t : WrittenType} (ht : t ∈ b.writtenTypes) :
    Option.Rel ((b.withTypes deps target).library.Means G
      (b.row (b.withClasses deps target))) (W.written? t)
      ((b.withTypes deps target).annotations.declaredTypes.get? t.place.id) := by
  obtain ⟨hasks, -⟩ := h.asks_withTypes
  refine hasks.settles.written? ht ?_
  obtain ⟨n, hn, hhead⟩ := Block.mem_writtenTypes.1 ht
  rw [hasks.attempted_eq]
  have hrequest : t.request ∈ b.requests := by
    refine List.mem_flatMap.2 ⟨n, hn, ?_⟩
    rw [Node.requests, hhead]
    exact List.mem_singleton_self _
  exact Request.mem_attempt hrequest rfl

/-- Behind the second phase, the type of a function is known. -/
theorem signature?_withTypes {d : FunctionDecl} (hd : d ∈ b.allFunctions) :
    Option.Rel ((b.withTypes deps target).library.Means G
      (b.row (b.withClasses deps target))) (W.signature? d.parameters d.returns)
      ((b.withTypes deps target).annotations.signatures.get? d.place.id) := by
  obtain ⟨hasks, hsome⟩ := h.asks_withTypes
  exact rel_of_forall (hasks.settles.signature d hd) (hsome d hd)

/-- The errors of the second phase are about unknown names, once for each request. -/
theorem errors_withTypes : (b.withTypes deps target).errors = (b.withClasses deps target).errors ++
    (Request.firsts [] b.requests).flatMap W.unknown := by
  have hattempted : (b.withClasses deps target).attempted = [] := by
    obtain ⟨_, _, _, _, _, heq⟩ := (h.named.withClasses_spec h.isFresh).1
    rw [heq]
    rfl
  rw [h.asks_withTypes.1.errors_eq, hattempted]

end World.Models

end Sable
