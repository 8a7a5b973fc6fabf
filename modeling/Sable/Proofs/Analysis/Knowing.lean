import Sable.Proofs.Analysis.Describing

/-!
# Types in a world

A world that knows the built-in types and the declarations of a unit has an entity for every type
that can be derived in the unit, and different types have different entities.

## Main definitions

* `World.Knows`: the names of the unit mean what it declares, and its written types are known.
* `World.Denotes`: the type that an entity is.

## Main statements

* `World.Knows.denotes_written?`, `World.Knows.denotes_signature?`: what is written.
* `World.Denotes.eq`, `World.Denotes.unique`: types and entities belong together.
-/
namespace Sable

namespace World

/-- The names of a unit mean what it declares, though the world may know other names. -/
structure Knows (W : World) (b : Block) : Prop where
  describes : W.Describes b
  isKnown : ∀ t ∈ b.writtenTypes, t.IsKnown b
  nodup_members : ∀ d ∈ b.classes, (d.members.map fun m => m.name.name).Nodup
  builtin : ∀ t : BuiltinType, ∃ x s, W.global? t.name = some x ∧ W.sketch? x = some s ∧
    s.name = t.name ∧ s.isValue = false ∧ s.shape = some .primitive
  classes : ∀ d ∈ b.classes, W.global? d.name.name = some (.declared d.place.id)
  values : ∀ m ∈ b.values, W.global? m.name.name = some (.declared m.place.id)
  shape_pointerTo : ∀ t, W.shape? (W.pointerTo t) = some (.pointer t)
  shape_functionType : ∀ ts t, W.shape? (W.functionType ts t) = some (.function ts t)

mutual

/-- The type that an entity is, where classes are those of a unit. -/
inductive Denotes (W : World) (b : Block) : Entity → Ty → Prop
  | builtin {t : BuiltinType} {x : Entity} (h : W.global? t.name = some x) :
      Denotes W b x (.builtin t)
  | classType {d : ClassDecl} (h : d ∈ b.classes) :
      Denotes W b (.declared d.place.id) (.classType d.name.name)
  | pointer {x : Entity} {τ : Ty} (h : Denotes W b x τ) : Denotes W b (W.pointerTo x) (.pointer τ)
  | function {xs : List Entity} {x : Entity} {τs : List Ty} {τ : Ty} (hs : DenoteAll W b xs τs)
      (h : Denotes W b x τ) : Denotes W b (W.functionType xs x) (.function τs τ)

inductive DenoteAll (W : World) (b : Block) : List Entity → List Ty → Prop
  | nil : DenoteAll W b [] []
  | cons {x : Entity} {xs : List Entity} {τ : Ty} {τs : List Ty} (h : Denotes W b x τ)
      (hs : DenoteAll W b xs τs) : DenoteAll W b (x :: xs) (τ :: τs)

end

variable {W : World} {b : Block}

/-! ## Types and entities -/

/-- What a type is made of, entity for type. -/
inductive Shows (W : World) (b : Block) : Ty → Shape → Prop
  | builtin {t : BuiltinType} : Shows W b (.builtin t) .primitive
  | classType {name : String} : Shows W b (.classType name) .classType
  | pointer {x : Entity} {τ : Ty} (h : W.Denotes b x τ) : Shows W b (.pointer τ) (.pointer x)
  | function {xs : List Entity} {x : Entity} {τs : List Ty} {τ : Ty} (hs : W.DenoteAll b xs τs)
      (h : W.Denotes b x τ) : Shows W b (.function τs τ) (.function xs x)

namespace Knows

variable (hW : W.Knows b)

include hW

theorem sketch_builtin {t : BuiltinType} {x : Entity} (h : W.global? t.name = some x) :
    ∃ s, W.sketch? x = some s ∧ s.name = t.name ∧ s.isValue = false ∧ s.shape = some .primitive := by
  obtain ⟨y, s, hy, hs⟩ := hW.builtin t
  obtain rfl := Option.some.inj (h.symm.trans hy)
  exact ⟨s, hs⟩

theorem sketch_class {d : ClassDecl} (hd : d ∈ b.classes) :
    W.sketch? (.declared d.place.id) = some d.sketch :=
  hW.describes.classes d hd

theorem shape? {x : Entity} {τ : Ty} (h : W.Denotes b x τ) :
    ∃ shape, W.shape? x = some shape ∧ W.Shows b τ shape := by
  cases h with
  | builtin h =>
    obtain ⟨s, hs, -, -, hshape⟩ := hW.sketch_builtin h
    exact ⟨_, by rw [World.shape?, hs, Option.bind_some, hshape], .builtin⟩
  | classType hd => exact ⟨_, by rw [World.shape?, hW.sketch_class hd]; rfl, .classType⟩
  | pointer h => exact ⟨_, hW.shape_pointerTo _, .pointer h⟩
  | function hs h => exact ⟨_, hW.shape_functionType _ _, .function hs h⟩

theorem exists_shape {x : Entity} {τ σ : Ty} (h : W.Denotes b x τ) (h' : W.Denotes b x σ) :
    ∃ shape, W.Shows b τ shape ∧ W.Shows b σ shape := by
  obtain ⟨shape, hshape, hshows⟩ := hW.shape? h
  obtain ⟨shape', hshape', hshows'⟩ := hW.shape? h'
  obtain rfl := Option.some.inj (hshape.symm.trans hshape')
  exact ⟨shape, hshows, hshows'⟩

/-- A primitive type or a class has the name that it is known by. -/
theorem name_sketch {x : Entity} {τ : Ty} (h : W.Denotes b x τ) : ∀ name,
    τ = .classType name ∨ (∃ t : BuiltinType, τ = .builtin t ∧ name = t.name) →
      ∃ s, W.sketch? x = some s ∧ s.name = name := by
  rintro name (rfl | ⟨t, rfl, rfl⟩)
  · cases h with
    | classType hd => exact ⟨_, hW.sketch_class hd, rfl⟩
  · cases h with
    | builtin h =>
      obtain ⟨s, hs, hname, -⟩ := hW.sketch_builtin h
      exact ⟨s, hs, hname⟩

end Knows

mutual

/-- A type has one entity. -/
theorem Denotes.eq (hW : W.Knows b) : {x y : Entity} → {τ : Ty} → W.Denotes b x τ →
    W.Denotes b y τ → x = y
  | _, _, _, .builtin h, .builtin h' => Option.some.inj (h.symm.trans h')
  | _, y, _, .classType (d := d) h, h' => by
    generalize hname : d.name.name = name at h'
    cases h' with
    | @classType d' h' =>
      have hglobal := hW.classes d h
      rw [hname] at hglobal
      exact Option.some.inj (hglobal.symm.trans (hW.classes d' h'))
  | _, _, _, .pointer h, .pointer h' => by rw [h.eq hW h']
  | _, _, _, .function hs h, .function hs' h' => by rw [hs.eq hW hs', h.eq hW h']

theorem DenoteAll.eq (hW : W.Knows b) : {xs ys : List Entity} → {τs : List Ty} →
    W.DenoteAll b xs τs → W.DenoteAll b ys τs → xs = ys
  | _, _, _, .nil, .nil => rfl
  | _, _, _, .cons h hs, .cons h' hs' => by rw [h.eq hW h', hs.eq hW hs']

end

mutual

/-- An entity is one type. -/
theorem Denotes.unique (hW : W.Knows b) : (τ : Ty) → {σ : Ty} → {x : Entity} →
    W.Denotes b x τ → W.Denotes b x σ → τ = σ
  | .builtin t, σ, x, h, h' => by
    obtain ⟨s, hs, hname⟩ := hW.name_sketch h _ (.inr ⟨t, rfl, rfl⟩)
    obtain ⟨shape, hshows, hshows'⟩ := hW.exists_shape h h'
    cases hshows with
    | builtin =>
      cases hshows' with
      | @builtin t' =>
        obtain ⟨s', hs', hname'⟩ := hW.name_sketch h' _ (.inr ⟨t', rfl, rfl⟩)
        obtain rfl := Option.some.inj (hs.symm.trans hs')
        rw [Library.BuiltinType.name_injective (hname.symm.trans hname')]
  | .classType name, σ, x, h, h' => by
    obtain ⟨s, hs, hname⟩ := hW.name_sketch h _ (.inl rfl)
    obtain ⟨shape, hshows, hshows'⟩ := hW.exists_shape h h'
    cases hshows with
    | classType =>
      cases hshows' with
      | @classType name' =>
        obtain ⟨s', hs', hname'⟩ := hW.name_sketch h' _ (.inl rfl)
        obtain rfl := Option.some.inj (hs.symm.trans hs')
        rw [← hname, hname']
  | .pointer τ, σ, x, h, h' => by
    obtain ⟨shape, hshows, hshows'⟩ := hW.exists_shape h h'
    cases hshows with
    | pointer h =>
      cases hshows' with
      | pointer h' => rw [Denotes.unique hW τ h h']
  | .function τs τ, σ, x, h, h' => by
    obtain ⟨shape, hshows, hshows'⟩ := hW.exists_shape h h'
    cases hshows with
    | function hs h =>
      cases hshows' with
      | function hs' h' => rw [Denotes.unique hW τ h h', DenoteAll.unique hW τs hs hs']

theorem DenoteAll.unique (hW : W.Knows b) : (τs : List Ty) → {σs : List Ty} → {xs : List Entity} →
    W.DenoteAll b xs τs → W.DenoteAll b xs σs → τs = σs
  | [], _, _, .nil, .nil => rfl
  | τ :: τs, _, _, .cons h hs, .cons h' hs' => by
    rw [Denotes.unique hW τ h h', DenoteAll.unique hW τs hs hs']

end

namespace Knows

variable (hW : W.Knows b) {x y : Entity} {τ σ : Ty}

include hW

theorem eq_iff (hx : W.Denotes b x τ) (hy : W.Denotes b y σ) : x = y ↔ τ = σ := by
  constructor
  · rintro rfl
    exact hx.unique hW _ hy
  · rintro rfl
    exact hx.eq hW hy

theorem list_eq_iff {xs ys : List Entity} {τs σs : List Ty} (hxs : W.DenoteAll b xs τs)
    (hys : W.DenoteAll b ys σs) : xs = ys ↔ τs = σs := by
  constructor
  · rintro rfl
    exact hxs.unique hW _ hys
  · rintro rfl
    exact hxs.eq hW hys

/-! ## Written types -/

theorem denotes_builtin (t : BuiltinType) :
    ∃ x, W.typeNamed? t.name = some x ∧ W.Denotes b x (.builtin t) := by
  obtain ⟨x, s, hx, hs, -, -, hshape⟩ := hW.builtin t
  refine ⟨x, ?_, .builtin hx⟩
  rw [typeNamed?, hx, Option.filter_some, World.shape?, hs, Option.bind_some, hshape]
  rfl

/-- No class is named as a built-in type. -/
theorem named_class {d : ClassDecl} (hd : d ∈ b.classes) :
    Ty.named d.name.name = .classType d.name.name := by
  rw [Ty.named]
  split
  · next t ht =>
    have hname : t.name = d.name.name := by simpa using List.find?_some ht
    obtain ⟨s, hs, -, -, hshape⟩ := hW.sketch_builtin (hname ▸ hW.classes d hd)
    obtain rfl := Option.some.inj (hs.symm.trans (hW.sketch_class hd))
    simp [ClassDecl.sketch] at hshape
  · rfl

theorem denotes_named {t : WrittenType} (ht : t ∈ b.writtenTypes) :
    ∃ x, W.typeNamed? t.name.name = some x ∧ W.Denotes b x (.named t.name.name) := by
  rcases hW.isKnown t ht with hname | hname
  · obtain ⟨builtin, -, hname⟩ := List.mem_map.1 hname
    have hnamed : Ty.named t.name.name = .builtin builtin := by
      rw [← hname]
      cases builtin <;> rfl
    rw [hnamed, ← hname]
    exact hW.denotes_builtin builtin
  · obtain ⟨d, hd, hname⟩ := List.mem_map.1 hname
    refine ⟨.declared d.place.id, ?_, ?_⟩
    · rw [← hname, typeNamed?, hW.classes d hd, Option.filter_some, World.shape?,
        hW.sketch_class hd]
      rfl
    · rw [← hname, hW.named_class hd]
      exact .classType hd

omit hW in
theorem denotes_pointers (h : W.Denotes b x τ) (depth : Nat) :
    W.Denotes b (W.pointers x depth) (τ.pointers depth) := by
  induction depth generalizing x τ with
  | zero => exact h
  | succ depth ih => exact ih (.pointer h)

theorem denotes_written? {t : WrittenType} (ht : t ∈ b.writtenTypes) :
    ∃ x, W.written? t = some x ∧ W.Denotes b x t.ty := by
  obtain ⟨x, hx, h⟩ := hW.denotes_named ht
  exact ⟨_, by rw [written?, hx, Option.map_some], denotes_pointers h _⟩

theorem denotes_result? {d : FunctionDecl} (hd : d ∈ b.allFunctions) :
    ∃ x, W.result? d.returns = some x ∧ W.Denotes b x d.result := by
  rw [FunctionDecl.result]
  cases h : d.returns with
  | none => exact hW.denotes_builtin .void
  | some t => exact hW.denotes_written? (Block.returns_mem_writtenTypes hd t h)

theorem denotes_parameters {ps : List Parameter} (hps : ∀ p ∈ ps, p.type ∈ b.writtenTypes) :
    ∃ xs, (ps.mapM fun p => W.written? p.type) = some xs ∧
      W.DenoteAll b xs (ps.map fun p => p.type.ty) := by
  induction ps with
  | nil => exact ⟨[], by simp, .nil⟩
  | cons p ps ih =>
    rw [List.forall_mem_cons] at hps
    obtain ⟨x, hx, h⟩ := hW.denotes_written? hps.1
    obtain ⟨xs, hxs, hs⟩ := ih hps.2
    exact ⟨x :: xs, by simp [List.mapM_cons, hx, hxs], .cons h hs⟩

theorem denotes_signature? {d : FunctionDecl} (hd : d ∈ b.allFunctions) :
    ∃ x, W.signature? d.parameters d.returns = some x ∧ W.Denotes b x d.ty := by
  obtain ⟨xs, hxs, hs⟩ := hW.denotes_parameters (Block.parameter_mem_writtenTypes hd)
  obtain ⟨x, hx, h⟩ := hW.denotes_result? hd
  exact ⟨_, by rw [signature?, hxs, hx, functionType?], .function hs h⟩

end Knows

end World

end Sable
