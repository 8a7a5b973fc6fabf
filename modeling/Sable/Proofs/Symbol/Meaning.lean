import Mathlib.Data.List.Forall2
import Sable.Proofs.Symbol.Registering
import Sable.Proofs.Typing.World

/-!
# What symbols mean

While a library is filled, its symbols stand for entities of a world. The symbols of linked
libraries do from the beginning, and those of declarations once they are made. An interned type
stands for what its parts stand for, so it means the same in whichever order types are made; and no
two symbols mean the same.

## Main definitions

* `Library.Means`: the entity that a symbol stands for.
* `Symbol.Fits`: a symbol is as it is sketched.
* `World.Grounds`: what the symbols of linked libraries stand for.
* `Library.Represents`: all interned types of a library have a meaning.

## Main statements

* `Library.Represents.left_unique`, `Library.Represents.right_unique`: meanings are unique.
* `Library.Represents.pointerTo`, `Library.Represents.functionType`: interning.
-/
namespace Sable

variable {W : World} {G M : Entity → SymbolId → Prop} {row : NodeId → Option SymbolId}
  {lib₀ lib lib' : Library}

/-! ## Symbols and sketches -/

/-- The form has the shape, if symbols stand for entities so. -/
inductive Shape.Fits (M : Entity → SymbolId → Prop) : Shape → TypeForm → Prop
  | primitive : Fits M .primitive .primitive
  | classType : Fits M .classType .classType
  | pointer {t : Entity} {p : SymbolId} (h : M t p) : Fits M (.pointer t) (.pointer p)
  | function {ts : List Entity} {t : Entity} {ps : List SymbolId} {r : SymbolId}
      (hps : List.Forall₂ M ts ps) (hr : M t r) : Fits M (.function ts t) (.function ps r)

theorem Shape.Fits.mono {M' : Entity → SymbolId → Prop} (hM : ∀ {t x}, M t x → M' t x)
    {shape : Shape} {form : TypeForm} (h : shape.Fits M form) : shape.Fits M' form := by
  cases h with
  | primitive => exact .primitive
  | classType => exact .classType
  | pointer h => exact .pointer (hM h)
  | function hps hr => exact .function (hps.imp fun _ _ => hM) (hM hr)

theorem rel_mono {α β : Type} {R R' : α → β → Prop} (h : ∀ {x y}, R x y → R' x y) {x : Option α}
    {y : Option β} (hxy : Option.Rel R x y) : Option.Rel R' x y := by
  cases hxy with
  | some hxy => exact .some (h hxy)
  | none => exact .none

theorem rel_of_forall {α β : Type} {R : α → β → Prop} {x : Option α} {y : Option β}
    (h : ∀ b, y = some b → ∃ a, x = some a ∧ R a b) (hsome : x.isSome → y.isSome) :
    Option.Rel R x y := by
  cases y with
  | some b =>
    obtain ⟨a, rfl, hab⟩ := h b rfl
    exact .some hab
  | none =>
    cases x with
    | some a => simp at hsome
    | none => exact .none

theorem isSome_eq_of_rel {α β : Type} {R : α → β → Prop} {x : Option α} {y : Option β}
    (h : Option.Rel R x y) : x.isSome = y.isSome := by
  cases h <;> rfl

theorem rel_mapM {α β : Type} {R : α → β → Prop} {xs : List (Option α)} {ys : List (Option β)}
    (h : List.Forall₂ (Option.Rel R) xs ys) :
    Option.Rel (List.Forall₂ R) (xs.mapM id) (ys.mapM id) := by
  induction h with
  | nil => exact .some .nil
  | cons hx _ ih =>
    rw [List.mapM_cons, List.mapM_cons]
    cases hx with
    | none => exact .none
    | some hx =>
      generalize (List.mapM id _ : Option (List α)) = xs, (List.mapM id _ : Option (List β)) = ys at ih ⊢
      cases ih with
      | none => exact .none
      | some ih => exact .some (.cons hx ih)

/-- The symbol is as it is sketched, if symbols stand for entities so. Only classes are asked for their
members. -/
structure Symbol.Fits (M : Entity → SymbolId → Prop) (k : Sketch) (s : Symbol) : Prop where
  name_eq : s.name = k.name
  isValue_eq : s.isValue = k.isValue
  shape : Option.Rel (Shape.Fits M) k.shape (s.type?.map TypeSymbol.form)
  members : ∀ t, s.type? = some t → t.form = .classType → ∀ n,
    Option.Rel M (k.members n) (t.members.get? n)
  type : Option.Rel M k.type s.type

theorem Symbol.Fits.mono {M' : Entity → SymbolId → Prop} (hM : ∀ {t x}, M t x → M' t x)
    {k : Sketch} {s : Symbol} (h : s.Fits M k) : s.Fits M' k where
  name_eq := h.name_eq
  isValue_eq := h.isValue_eq
  shape := rel_mono (·.mono hM) h.shape
  members t ht hclass n := rel_mono hM (h.members t ht hclass n)
  type := rel_mono hM h.type

theorem Symbol.isValue_eq_false_of_type? {s : Symbol} {t : TypeSymbol} (h : s.type? = some t) :
    s.isValue = false := by
  unfold Symbol.type? at h
  unfold Symbol.isValue
  cases hkind : s.kind <;> simp_all

/-- The sketch of an interned type. -/
theorem Symbol.fits_of_form {s : Symbol} {name : String} {form : TypeForm} {shape : Shape}
    (hname : s.name = name) (hform : s.type?.map TypeSymbol.form = some form)
    (hmade : form.IsMade) (htype : s.type = none) (hshape : shape.Fits M form) :
    s.Fits M { name, shape := some shape } where
  name_eq := hname
  isValue_eq := by
    obtain ⟨t, ht, -⟩ := Option.map_eq_some_iff.1 hform
    exact isValue_eq_false_of_type? ht
  shape := by
    rw [hform]
    exact .some hshape
  members t ht hclass n := by
    rw [ht, Option.map_some, hclass] at hform
    obtain rfl := Option.some.inj hform
    exact absurd hmade id
  type := by
    rw [htype]
    exact .none

/-! ## Meanings -/

/-- What the symbols of linked libraries stand for, in a library that holds no types yet. -/
structure World.Grounds (W : World) (G : Entity → SymbolId → Prop) (lib : Library) : Prop where
  pointerTypes_eq : lib.pointerTypes = .empty
  functionTypes_eq : lib.functionTypes = .empty
  library_ne : ∀ {t x}, G t x → x.library ≠ lib.id
  biUnique : Relator.BiUnique G
  name_eq : ∀ {t x}, G t x → lib.nameOf x = W.name t
  fits : ∀ {t x}, G t x → Option.Rel (Symbol.Fits G) (W.sketch? t) (lib.symbol? x)
  pointerTo : ∀ {t x y}, G t x → lib.pointerType? x = some y → G (W.pointerTo t) y
  pointerTo_eq : ∀ {t x}, G t x → lib.pointerType? x = none → W.pointerTo t = .pointer t
  pointer : ∀ {t y}, G (.pointer t) y → ∃ x, G t x ∧ lib.pointerType? x = some y
  functionType : ∀ {ts t xs x y}, List.Forall₂ G ts xs → G t x →
    lib.functionType? xs x = some y → G (W.functionType ts t) y
  functionType_eq : ∀ {ts t xs x}, List.Forall₂ G ts xs → G t x →
    lib.functionType? xs x = none → W.functionType ts t = .function ts t
  function : ∀ {ts t y}, G (.function ts t) y →
    ∃ xs x, List.Forall₂ G ts xs ∧ G t x ∧ lib.functionType? xs x = some y
  pointerType? : ∀ {p}, p.library = lib.id → lib.pointerType? p = none
  functionType? : ∀ {ps r p}, p ∈ r :: ps → p.library = lib.id → lib.functionType? ps r = none

theorem eq_of_forall₂_left {α β : Type} {R : α → β → Prop} {xs xs' : List α} {ys : List β}
    (h : List.Forall₂ (fun x y => ∀ {x'}, R x' y → x = x') xs ys) (h' : List.Forall₂ R xs' ys) :
    xs = xs' := by
  induction h generalizing xs' with
  | nil => rw [List.forall₂_nil_right_iff.1 h']
  | cons hx _ ih =>
    cases h' with
    | cons hx' h' => rw [hx hx', ih h']

theorem eq_of_forall₂_right {α β : Type} {R : α → β → Prop} {xs : List α} {ys ys' : List β}
    (h : List.Forall₂ (fun x y => ∀ {y'}, R x y' → y = y') xs ys) (h' : List.Forall₂ R xs ys') :
    ys = ys' := by
  induction h generalizing ys' with
  | nil => rw [List.forall₂_nil_left_iff.1 h']
  | cons hx _ ih =>
    cases h' with
    | cons hx' h' => rw [hx hx', ih h']

namespace Library

/-- The entity that a symbol stands for: that of a linked library, what a node declares, or an
interned type of the library's own. -/
inductive Means (G : Entity → SymbolId → Prop) (row : NodeId → Option SymbolId) (lib : Library) :
    Entity → SymbolId → Prop
  | ground {t : Entity} {x : SymbolId} (h : G t x) : Means G row lib t x
  | declared {n : NodeId} {x : SymbolId} (h : row n = some x) : Means G row lib (.declared n) x
  | pointer {t : Entity} {p x : SymbolId} (hp : Means G row lib t p)
      (h : lib.pointerTypes.get? p = some x) : Means G row lib (.pointer t) x
  | function {ts : List Entity} {t : Entity} {ps : List SymbolId} {r x : SymbolId}
      (hlength : ts.length = ps.length) (hps : ∀ {s p}, (s, p) ∈ ts.zip ps → Means G row lib s p)
      (hr : Means G row lib t r) (h : lib.functionTypes.get? (ps, r) = some x) :
      Means G row lib (.function ts t) x

theorem Means.functionType {ts : List Entity} {t : Entity} {ps : List SymbolId} {r x : SymbolId}
    (hps : List.Forall₂ (lib.Means G row) ts ps) (hr : lib.Means G row t r)
    (h : lib.functionTypes.get? (ps, r) = some x) : lib.Means G row (.function ts t) x :=
  have hzip := List.forall₂_iff_zip.1 hps
  .function hzip.1 hzip.2 hr h

theorem Means.of_given {t : Entity} {x y : SymbolId} (h : lib.Means G row t y)
    (ht : t.given? = some x) : G t y := by
  cases h with
  | ground h => exact h
  | declared | pointer | function => simp [Entity.given?] at ht

theorem forall₂_of_given {ts : List Entity} {ps xs : List SymbolId}
    (h : List.Forall₂ (lib.Means G row) ts ps) (hts : ts.mapM Entity.given? = some xs) :
    List.Forall₂ G ts ps := by
  induction h generalizing xs with
  | nil => exact .nil
  | cons h _ ih =>
    rw [List.mapM_cons, Option.bind_eq_bind, Option.bind_eq_some_iff] at hts
    obtain ⟨x, hx, hts⟩ := hts
    rw [Option.bind_eq_bind, Option.bind_eq_some_iff] at hts
    obtain ⟨xs, hxs, -⟩ := hts
    exact .cons (h.of_given hx) (ih hxs)

theorem Means.pointerTo_eq (hW : W.Grounds G lib₀) {t : Entity} {p : SymbolId}
    (hp : lib.Means G row t p) (hnone : lib₀.pointerType? p = none) :
    W.pointerTo t = .pointer t := by
  cases hp with
  | ground hp => exact hW.pointerTo_eq hp hnone
  | declared | pointer | function => rfl

theorem Means.functionType_eq (hW : W.Grounds G lib₀) {ts : List Entity} {t : Entity}
    {ps : List SymbolId} {r : SymbolId} (hps : List.Forall₂ (lib.Means G row) ts ps)
    (hr : lib.Means G row t r) (hnone : lib₀.functionType? ps r = none) :
    W.functionType ts t = .function ts t := by
  cases hxs : ts.mapM Entity.given? with
  | none => rw [World.functionType, hxs]
  | some xs =>
    cases hx : t.given? with
    | none => rw [World.functionType, hxs, hx]
    | some x => exact hW.functionType_eq (forall₂_of_given hps hxs) (hr.of_given hx) hnone

/-- What is interned stays interned. -/
structure Remembers (lib lib' : Library) : Prop where
  pointer : ∀ {p x}, lib.pointerTypes.get? p = some x → lib'.pointerTypes.get? p = some x
  function : ∀ {f x}, lib.functionTypes.get? f = some x → lib'.functionTypes.get? f = some x

theorem Remembers.refl (lib : Library) : lib.Remembers lib := ⟨fun h => h, fun h => h⟩

theorem Remembers.trans {lib'' : Library} (h : lib.Remembers lib') (h' : lib'.Remembers lib'') :
    lib.Remembers lib'' :=
  ⟨fun hx => h'.pointer (h.pointer hx), fun hx => h'.function (h.function hx)⟩

theorem Means.mono {row' : NodeId → Option SymbolId} {t : Entity} {x : SymbolId}
    (hlib : lib.Remembers lib') (hrow : ∀ {n x}, row n = some x → row' n = some x)
    (h : lib.Means G row t x) : lib'.Means G row' t x := by
  induction h with
  | ground h => exact .ground h
  | declared h => exact .declared (hrow h)
  | pointer _ h ih => exact .pointer ih (hlib.pointer h)
  | function hlength _ _ h ihs ih => exact .function hlength ihs ih (hlib.function h)

/-- A symbol of the library's own that is a class, or that is no type at all. -/
def HasSketch (lib : Library) (x : SymbolId) (k : Sketch) : Prop :=
  x.library = lib.id ∧ ∃ s, lib.symbol? x = some s ∧ s.name = k.name ∧
    (k.shape = none ∧ s.type? = none ∨
      k.shape = some .classType ∧ s.type?.map TypeSymbol.form = some .classType)

theorem HasSketch.not_hasForm {x : SymbolId} {k : Sketch} (h : lib.HasSketch x k) {name : String}
    {form : TypeForm} (hmade : form.IsMade) : ¬lib.HasForm x name form := by
  rintro ⟨-, s', hs', -, hform', -⟩
  obtain ⟨-, s, hs, -, hform⟩ := h
  obtain rfl := Option.some.inj (hs.symm.trans hs')
  rcases hform with ⟨-, hnone⟩ | ⟨-, hclass⟩
  · simp [hnone] at hform'
  · obtain rfl := Option.some.inj (hform'.symm.trans hclass)
    exact hmade

/-- All interned types of a library have a meaning, and the symbols of declarations are those of
the world. In the beginning the library is `lib₀`. -/
structure Represents (W : World) (G : Entity → SymbolId → Prop) (row : NodeId → Option SymbolId)
    (lib lib₀ : Library) : Prop where
  isApart : lib.IsApart
  id_eq : lib.id = lib₀.id
  dependencies_eq : lib.dependencies = lib₀.dependencies
  row_inj : ∀ {n m x}, row n = some x → row m = some x → n = m
  declared : ∀ {n x}, row n = some x →
    (∀ y, ¬G (.declared n) y) ∧ ∃ k, W.declared? n = some k ∧ lib.HasSketch x k
  pointer : ∀ {p x}, lib.pointerTypes.get? p = some x → lib₀.pointerType? p = none ∧
    ∃ t, lib.Means G row t p ∧ lib.HasForm x (W.name (.pointer t)) (.pointer p)
  function : ∀ {ps r x}, lib.functionTypes.get? (ps, r) = some x →
    lib₀.functionType? ps r = none ∧ ∃ ts t, List.Forall₂ (lib.Means G row) ts ps ∧
      lib.Means G row t r ∧ lib.HasForm x (W.name (.function ts t)) (.function ps r)

namespace Represents

variable (h : lib.Represents W G row lib₀)
include h

theorem ground_of_library_ne {t : Entity} {x : SymbolId} (hx : lib.Means G row t x)
    (hne : x.library ≠ lib.id) : G t x := by
  cases hx with
  | ground hx => exact hx
  | declared hx =>
    obtain ⟨-, -, -, heq, -⟩ := h.declared hx
    exact absurd heq hne
  | pointer _ hx =>
    obtain ⟨-, -, -, heq, -⟩ := h.pointer hx
    exact absurd heq hne
  | function _ _ _ hx =>
    obtain ⟨-, -, -, -, -, heq, -⟩ := h.function hx
    exact absurd heq hne

variable (hW : W.Grounds G lib₀)
include hW

theorem left_unique {t u : Entity} {x : SymbolId} (ht : lib.Means G row t x)
    (hu : lib.Means G row u x) : t = u := by
  have hown {t : Entity} {x : SymbolId} (hx : x.library = lib.id) : ¬G t x := fun ht =>
    hW.library_ne ht (hx.trans h.id_eq)
  induction ht generalizing u with
  | ground ht =>
    refine hW.biUnique.1 ht (h.ground_of_library_ne hu fun heq => hown heq ht)
  | declared hn =>
    obtain ⟨-, k, -, hsketch⟩ := h.declared hn
    cases hu with
    | ground hu => exact absurd hu (hown hsketch.1)
    | declared hm => rw [h.row_inj hn hm]
    | pointer _ hx =>
      obtain ⟨-, u, -, hform⟩ := h.pointer hx
      exact absurd hform (hsketch.not_hasForm trivial)
    | function _ _ _ hx =>
      obtain ⟨-, us, u, -, -, hform⟩ := h.function hx
      exact absurd hform (hsketch.not_hasForm trivial)
  | pointer _ hx ih =>
    obtain ⟨-, u, -, hform⟩ := h.pointer hx
    cases hu with
    | ground hu => exact absurd hu (hown hform.1)
    | declared hm =>
      obtain ⟨-, k, -, hsketch⟩ := h.declared hm
      exact absurd hform (hsketch.not_hasForm trivial)
    | pointer hq hx' =>
      obtain ⟨-, u', -, hform'⟩ := h.pointer hx'
      obtain rfl := TypeForm.pointer.inj (hform.form_eq hform')
      rw [ih hq]
    | function _ _ _ hx' =>
      obtain ⟨-, us', u', -, -, hform'⟩ := h.function hx'
      exact TypeForm.noConfusion (hform.form_eq hform')
  | function hlength _ _ hx ihs ih =>
    obtain ⟨-, us, u, -, -, hform⟩ := h.function hx
    cases hu with
    | ground hu => exact absurd hu (hown hform.1)
    | declared hm =>
      obtain ⟨-, k, -, hsketch⟩ := h.declared hm
      exact absurd hform (hsketch.not_hasForm trivial)
    | pointer _ hx' =>
      obtain ⟨-, u', -, hform'⟩ := h.pointer hx'
      exact TypeForm.noConfusion (hform.form_eq hform')
    | function hlength' hqs hq hx' =>
      obtain ⟨-, us', u', -, -, hform'⟩ := h.function hx'
      obtain ⟨rfl, rfl⟩ := TypeForm.function.inj (hform.form_eq hform')
      rw [ih hq, eq_of_forall₂_left (List.forall₂_iff_zip.2 ⟨hlength, ihs⟩)
        (List.forall₂_iff_zip.2 ⟨hlength', hqs⟩)]

theorem eq_of_ground {t : Entity} {x y : SymbolId} (hx : lib.Means G row t x) (hy : G t y) :
    x = y := by
  induction hx generalizing y with
  | ground hx => exact hW.biUnique.2 hx hy
  | declared hn => exact absurd hy ((h.declared hn).1 _)
  | pointer _ hx ih =>
    obtain ⟨p, hp, hpointer⟩ := hW.pointer hy
    obtain rfl := ih hp
    have hnone := (h.pointer hx).1
    simp [hpointer] at hnone
  | function hlength _ _ hx ihs ih =>
    obtain ⟨ps, r, hps, hr, hfunction⟩ := hW.function hy
    obtain rfl := ih hr
    obtain rfl := eq_of_forall₂_right (List.forall₂_iff_zip.2 ⟨hlength, ihs⟩) hps
    have hnone := (h.function hx).1
    simp [hfunction] at hnone

theorem right_unique {t : Entity} {x y : SymbolId} (hx : lib.Means G row t x)
    (hy : lib.Means G row t y) : x = y := by
  induction hx generalizing y with
  | ground hx => exact (h.eq_of_ground hW hy hx).symm
  | declared hn =>
    cases hy with
    | ground hy => exact absurd hy ((h.declared hn).1 _)
    | declared hm => exact Option.some.inj (hn.symm.trans hm)
  | pointer hp hx ih =>
    cases hy with
    | ground hy => exact h.eq_of_ground hW (.pointer hp hx) hy
    | pointer hq hy =>
      obtain rfl := ih hq
      exact Option.some.inj (hx.symm.trans hy)
  | function hlength hps hr hx ihs ih =>
    cases hy with
    | ground hy => exact h.eq_of_ground hW (.function hlength hps hr hx) hy
    | function hlength' hqs hq hy =>
      obtain rfl := ih hq
      obtain rfl := eq_of_forall₂_right (List.forall₂_iff_zip.2 ⟨hlength, ihs⟩)
        (List.forall₂_iff_zip.2 ⟨hlength', hqs⟩)
      exact Option.some.inj (hx.symm.trans hy)

theorem biUnique : Relator.BiUnique (lib.Means G row) :=
  ⟨fun _ _ _ => h.left_unique hW, fun _ _ _ => h.right_unique hW⟩

omit hW in
theorem symbol?_eq {x : SymbolId} (hne : x.library ≠ lib.id) : lib.symbol? x = lib₀.symbol? x := by
  have hapart := h.isApart.congr h.id_eq.symm h.dependencies_eq.symm
  rw [h.isApart.symbol?, hapart.symbol?, if_neg hne, if_neg (h.id_eq ▸ hne), h.dependencies_eq]

theorem nameOf_eq {t : Entity} {x : SymbolId} (hx : lib.Means G row t x) :
    lib.nameOf x = W.name t := by
  cases hx with
  | ground hx =>
    have hne := hW.library_ne hx
    rw [← hW.name_eq hx, nameOf, nameOf, h.symbol?_eq (h.id_eq ▸ hne)]
  | declared hn =>
    obtain ⟨-, k, hk, -, s, hs, hname, -⟩ := h.declared hn
    rw [nameOf, hs, World.name, hk]
    exact hname
  | pointer hp hx =>
    obtain ⟨-, u, hu, -, s, hs, hname, -⟩ := h.pointer hx
    rw [nameOf, hs, h.left_unique hW hp hu]
    exact hname
  | function hlength hps hr hx =>
    obtain ⟨-, us, u, hus, hu, -, s, hs, hname, -⟩ := h.function hx
    obtain rfl := h.left_unique hW hr hu
    obtain rfl := List.left_unique_forall₂' (h.biUnique hW).1
      (List.forall₂_iff_zip.2 ⟨hlength, hps⟩) hus
    rw [nameOf, hs]
    exact hname

/-- A symbol is a type if it stands for one. -/
theorem isSome_type? {t : Entity} {x : SymbolId} (hx : lib.Means G row t x) :
    (lib.type? x).isSome = (W.shape? t).isSome := by
  cases hx with
  | ground hx =>
    have hne := hW.library_ne hx
    have hfits := hW.fits hx
    rw [type?, h.symbol?_eq (h.id_eq ▸ hne), World.shape?]
    generalize W.sketch? t = k, lib₀.symbol? x = s at hfits ⊢
    cases hfits with
    | none => rfl
    | some hfits =>
      rw [Option.bind_some, Option.bind_some, ← Option.isSome_map (f := TypeSymbol.form)]
      exact (isSome_eq_of_rel hfits.shape).symm
  | declared hn =>
    obtain ⟨-, k, hk, -, s, hs, -, ⟨hshape, htype⟩ | ⟨hshape, htype⟩⟩ := h.declared hn
    · rw [type?, hs, Option.bind_some, World.shape?, World.sketch?, hk, Option.bind_some, hshape,
        htype]
      rfl
    · rw [type?, hs, Option.bind_some, World.shape?, World.sketch?, hk, Option.bind_some, hshape,
        ← Option.isSome_map (f := TypeSymbol.form), htype]
      rfl
  | pointer _ hx =>
    obtain ⟨-, u, -, -, s, hs, -, hform, -⟩ := h.pointer hx
    rw [type?, hs, Option.bind_some, ← Option.isSome_map (f := TypeSymbol.form), hform]
    rfl
  | function _ _ _ hx =>
    obtain ⟨-, us, u, -, -, -, s, hs, -, hform, -⟩ := h.function hx
    rw [type?, hs, Option.bind_some, ← Option.isSome_map (f := TypeSymbol.form), hform]
    rfl

theorem rel_filter_isSome {t : Option Entity} {x : Option SymbolId}
    (hx : Option.Rel (lib.Means G row) t x) : Option.Rel (lib.Means G row)
      (t.filter fun t => (W.shape? t).isSome) (x.filter fun x => (lib.type? x).isSome) := by
  cases hx with
  | none => exact .none
  | some hx =>
    rw [Option.filter_some, Option.filter_some, h.isSome_type? hW hx]
    split
    · exact .some hx
    · exact .none

theorem map_nameOf_eq {ts : List Entity} {xs : List SymbolId}
    (hxs : List.Forall₂ (lib.Means G row) ts xs) : xs.map lib.nameOf = ts.map W.name := by
  induction hxs with
  | nil => rfl
  | cons hx _ ih => rw [List.map_cons, List.map_cons, h.nameOf_eq hW hx, ih]

theorem pointerType?_eq (p : SymbolId) :
    lib.pointerType? p = (lib.pointerTypes.get? p).or (lib₀.pointerType? p) := by
  rw [pointerType?, pointerType?, firstSome?_eq, firstSome?_eq, reach_eq, reach_eq lib₀,
    h.dependencies_eq, List.findSome?_cons, List.findSome?_cons, hW.pointerTypes_eq,
    OrderedMap.get?_empty]
  cases lib.pointerTypes.get? p <;> rfl

theorem functionType?_eq (ps : List SymbolId) (r : SymbolId) :
    lib.functionType? ps r = (lib.functionTypes.get? (ps, r)).or (lib₀.functionType? ps r) := by
  rw [functionType?, functionType?, firstSome?_eq, firstSome?_eq, reach_eq, reach_eq lib₀,
    h.dependencies_eq, List.findSome?_cons, List.findSome?_cons, hW.functionTypes_eq,
    OrderedMap.get?_empty]
  cases lib.functionTypes.get? (ps, r) <;> rfl

omit hW in
/-- A type is made that was not interned. -/
theorem of_makesType {x : SymbolId} {s : Symbol} {form : TypeForm}
    (hmakes : lib.MakesType x s ⟨form, .empty⟩ lib') (htype : s.type = none)
    (hremembers : lib.Remembers lib')
    (hpointer : ∀ {p y}, lib'.pointerTypes.get? p = some y → lib.pointerTypes.get? p = some y ∨
      form = .pointer p ∧ y = x ∧ lib₀.pointerType? p = none ∧
        ∃ t, lib.Means G row t p ∧ s.name = W.name (.pointer t))
    (hfunction : ∀ {ps r y}, lib'.functionTypes.get? (ps, r) = some y →
      lib.functionTypes.get? (ps, r) = some y ∨
      form = .function ps r ∧ y = x ∧ lib₀.functionType? ps r = none ∧
        ∃ ts t, List.Forall₂ (lib.Means G row) ts ps ∧ lib.Means G row t r ∧
          s.name = W.name (.function ts t)) : lib'.Represents W G row lib₀ := by
  have hmono {t : Entity} {y : SymbolId} (hy : lib.Means G row t y) : lib'.Means G row t y :=
    hy.mono hremembers fun h => h
  have hsymbol : ∀ {y s}, lib.symbol? y = some s → lib'.symbol? y = some s :=
    hmakes.interns.symbol?_mono
  have hform : lib'.HasForm x s.name form :=
    ⟨hmakes.library_eq.trans hmakes.id_eq.symm, s, by rw [hmakes.symbol?_eq, if_pos rfl], rfl,
      by rw [Symbol.type?, hmakes.kind_eq, Option.map_some], htype⟩
  exact
    { isApart := hmakes.interns.isApart h.isApart
      id_eq := hmakes.id_eq.trans h.id_eq
      dependencies_eq := hmakes.dependencies_eq.trans h.dependencies_eq
      row_inj := h.row_inj
      declared := fun hn => by
        obtain ⟨hground, k, hk, hlibrary, s, hs, hrest⟩ := h.declared hn
        exact ⟨hground, k, hk, hlibrary.trans hmakes.id_eq.symm, s, hsymbol hs, hrest⟩
      pointer := fun hy => by
        rcases hpointer hy with hy | ⟨rfl, rfl, hnone, t, ht, hname⟩
        · obtain ⟨hnone, t, ht, hy⟩ := h.pointer hy
          exact ⟨hnone, t, hmono ht, hy.mono hmakes.id_eq (.of_symbol? hsymbol)⟩
        · exact ⟨hnone, t, hmono ht, hname ▸ hform⟩
      function := fun hy => by
        rcases hfunction hy with hy | ⟨rfl, rfl, hnone, ts, t, hts, ht, hname⟩
        · obtain ⟨hnone, ts, t, hts, ht, hy⟩ := h.function hy
          exact ⟨hnone, ts, t, hts.imp fun _ _ => hmono, hmono ht,
            hy.mono hmakes.id_eq (.of_symbol? hsymbol)⟩
        · exact ⟨hnone, ts, t, hts.imp fun _ _ => hmono, hmono ht, hname ▸ hform⟩ }

theorem means_pointerTo {t : Entity} {p x : SymbolId} (hp : lib.Means G row t p)
    (hx : lib.pointerType? p = some x) : lib.Means G row (W.pointerTo t) x := by
  rw [h.pointerType?_eq hW] at hx
  cases hown : lib.pointerTypes.get? p with
  | some y =>
    obtain rfl : y = x := by simpa [hown] using hx
    rw [hp.pointerTo_eq hW (h.pointer hown).1]
    exact .pointer hp hown
  | none =>
    rw [hown, Option.none_or] at hx
    have hne : p.library ≠ lib.id := fun heq => by
      simp [hW.pointerType? (heq.trans h.id_eq)] at hx
    exact .ground (hW.pointerTo (h.ground_of_library_ne hp hne) hx)

theorem means_functionType {ts : List Entity} {t : Entity} {ps : List SymbolId} {r x : SymbolId}
    (hps : List.Forall₂ (lib.Means G row) ts ps) (hr : lib.Means G row t r)
    (hx : lib.functionType? ps r = some x) : lib.Means G row (W.functionType ts t) x := by
  rw [h.functionType?_eq hW] at hx
  cases hown : lib.functionTypes.get? (ps, r) with
  | some y =>
    obtain rfl : y = x := by simpa [hown] using hx
    rw [Means.functionType_eq hW hps hr (h.function hown).1]
    exact .functionType hps hr hown
  | none =>
    rw [hown, Option.none_or] at hx
    have hne : ∀ p ∈ r :: ps, p.library ≠ lib.id := fun p hp heq => by
      simp [hW.functionType? hp (heq.trans h.id_eq)] at hx
    rw [List.forall_mem_cons] at hne
    have hground : List.Forall₂ G ts ps := List.forall₂_iff_zip.2 ⟨hps.length_eq, fun hmem =>
      h.ground_of_library_ne (List.forall₂_zip hps hmem) (hne.2 _ (List.of_mem_zip hmem).2)⟩
    exact .ground (hW.functionType hground (h.ground_of_library_ne hr hne.1) hx)

/-- A pointer type stands for the pointer type of what its pointee stands for. -/
theorem pointerTo {t : Entity} {p : SymbolId} (hp : lib.Means G row t p) :
    (lib.pointerTo p).2.Represents W G row lib₀ ∧ lib.Remembers (lib.pointerTo p).2 ∧
      (lib.pointerTo p).2.Means G row (W.pointerTo t) (lib.pointerTo p).1 := by
  rcases h.isApart.pointerTo_cases p with ⟨x, hx, hrun⟩ | ⟨hnone, hmakes, hpointers, hfunctions⟩
  · rw [hrun]
    exact ⟨h, .refl lib, h.means_pointerTo hW hp hx⟩
  · rw [h.pointerType?_eq hW, Option.or_eq_none_iff] at hnone
    have hremembers : lib.Remembers (lib.pointerTo p).2 :=
      { pointer := fun {q x} hx => by
          have hne : q ≠ p := fun heq => by simp [← heq, hx] at hnone
          rw [hpointers, OrderedMap.get?_insert, if_neg hne, hx]
        function := fun hx => by rw [hfunctions, hx] }
    refine ⟨h.of_makesType hmakes rfl hremembers (fun {q y} hy => ?_) (fun hy => ?_), hremembers, ?_⟩
    · rw [hpointers, OrderedMap.get?_insert] at hy
      split at hy
      · next heq =>
        subst heq
        refine .inr ⟨rfl, (Option.some.inj hy).symm, hnone.2, t, hp, ?_⟩
        rw [World.name, ← h.nameOf_eq hW hp]
        rfl
      · exact .inl hy
    · rw [hfunctions] at hy
      exact .inl hy
    · rw [hp.pointerTo_eq hW hnone.2]
      refine .pointer (hp.mono hremembers fun h => h) ?_
      rw [hpointers, OrderedMap.get?_insert, if_pos rfl]

theorem functionType {ts : List Entity} {t : Entity} {ps : List SymbolId} {r : SymbolId}
    (hps : List.Forall₂ (lib.Means G row) ts ps) (hr : lib.Means G row t r) :
    (lib.functionType ps r).2.Represents W G row lib₀ ∧
      lib.Remembers (lib.functionType ps r).2 ∧
      (lib.functionType ps r).2.Means G row (W.functionType ts t) (lib.functionType ps r).1 := by
  rcases h.isApart.functionType_cases ps r with ⟨x, hx, hrun⟩ | ⟨hnone, hmakes, hpointers, hfunctions⟩
  · rw [hrun]
    exact ⟨h, .refl lib, h.means_functionType hW hps hr hx⟩
  · rw [h.functionType?_eq hW, Option.or_eq_none_iff] at hnone
    have hremembers : lib.Remembers (lib.functionType ps r).2 :=
      { pointer := fun hx => by rw [hpointers, hx]
        function := fun {f x} hx => by
          have hne : f ≠ (ps, r) := fun heq => by simp [← heq, hx] at hnone
          rw [hfunctions, OrderedMap.get?_insert, if_neg hne, hx] }
    refine ⟨h.of_makesType hmakes rfl hremembers (fun hy => ?_) (fun {qs q y} hy => ?_),
      hremembers, ?_⟩
    · rw [hpointers] at hy
      exact .inl hy
    · rw [hfunctions, OrderedMap.get?_insert] at hy
      split at hy
      · next heq =>
        obtain ⟨rfl, rfl⟩ := Prod.mk.inj heq
        refine .inr ⟨rfl, (Option.some.inj hy).symm, hnone.2, ts, t, hps, hr, ?_⟩
        rw [World.name, World.names_eq_map, ← h.nameOf_eq hW hr, ← h.map_nameOf_eq hW hps]
        rfl
      · exact .inl hy
    · rw [Means.functionType_eq hW hps hr hnone.2]
      refine .functionType (hps.imp fun _ _ hp => hp.mono hremembers fun h => h)
        (hr.mono hremembers fun h => h) ?_
      rw [hfunctions, OrderedMap.get?_insert, if_pos rfl]

theorem pointerType {t : Entity} {p : SymbolId} (hp : lib.Means G row t p) (depth : Nat) :
    (lib.pointerType p depth).2.Represents W G row lib₀ ∧
      lib.Remembers (lib.pointerType p depth).2 ∧
      (lib.pointerType p depth).2.Means G row (W.pointers t depth) (lib.pointerType p depth).1 := by
  induction depth generalizing lib t p with
  | zero => exact ⟨h, .refl lib, hp⟩
  | succ depth ih =>
    obtain ⟨hmade, hremembers, hx⟩ := h.pointerTo hW hp
    obtain ⟨hdeep, hremembers', hy⟩ := ih hmade hx
    exact ⟨hdeep, hremembers.trans hremembers', hy⟩

/-- Pointer types to types with names are not published under a star alone. -/
theorem get?_globals_star_pointerType {t : Entity} {p : SymbolId} (hp : lib.Means G row t p)
    (hne : W.name t ≠ "") (hnames : ∀ t, W.name (W.pointerTo t) ≠ "") (depth : Nat) :
    (lib.pointerType p depth).2.globals.get? "*" = lib.globals.get? "*" := by
  induction depth generalizing lib t p with
  | zero => rfl
  | succ depth ih =>
    obtain ⟨hmade, -, hx⟩ := h.pointerTo hW hp
    have hfirst := h.isApart.get?_globals_star_pointerTo (p := p) (h.nameOf_eq hW hp ▸ hne)
    exact (ih hmade hx (hnames t)).trans hfirst

end Represents

/-- Moreover, what declarations made is as it is sketched. -/
structure Portrays (W : World) (G : Entity → SymbolId → Prop) (row : NodeId → Option SymbolId)
    (lib lib₀ : Library) : Prop extends lib.Represents W G row lib₀ where
  fits : ∀ {n x}, row n = some x → ∃ k s, W.declared? n = some k ∧ lib.symbol? x = some s ∧
    s.Fits (lib.Means G row) k

namespace Portrays

variable (h : lib.Portrays W G row lib₀)
include h

theorem interns (hlib : lib'.Represents W G row lib₀) (hinterns : lib.Interns lib')
    (hremembers : lib.Remembers lib') : lib'.Portrays W G row lib₀ where
  toRepresents := hlib
  fits hn := by
    obtain ⟨k, s, hk, hs, hfits⟩ := h.fits hn
    exact ⟨k, s, hk, hinterns.symbol?_mono hs, hfits.mono fun hx => hx.mono hremembers fun h => h⟩

variable (hW : W.Grounds G lib₀)
include hW

/-- A symbol is as the entity is sketched that it stands for. -/
theorem symbol? {t : Entity} {x : SymbolId} (hx : lib.Means G row t x) :
    Option.Rel (Symbol.Fits (lib.Means G row)) (W.sketch? t) (lib.symbol? x) := by
  cases hx with
  | ground hx =>
    have hne := hW.library_ne hx
    rw [h.symbol?_eq (h.id_eq ▸ hne)]
    exact rel_mono (fun hfits => hfits.mono .ground) (hW.fits hx)
  | declared hn =>
    obtain ⟨k, s, hk, hs, hfits⟩ := h.fits hn
    rw [World.sketch?, hk, hs]
    exact .some hfits
  | pointer hp hx =>
    obtain ⟨-, u, hu, -, s, hs, hname, hform, htype⟩ := h.pointer hx
    obtain rfl := h.left_unique hW hp hu
    rw [World.sketch?, hs]
    exact .some (Symbol.fits_of_form hname hform trivial htype (.pointer hp))
  | function hlength hps hr hx =>
    obtain ⟨-, us, u, hus, hu, -, s, hs, hname, hform, htype⟩ := h.function hx
    have hps := List.forall₂_iff_zip.2 ⟨hlength, hps⟩
    obtain rfl := h.left_unique hW hr hu
    obtain rfl := List.left_unique_forall₂' (h.biUnique hW).1 hps hus
    rw [World.sketch?, hs]
    exact .some (Symbol.fits_of_form hname hform trivial htype (.function hps hr))

theorem pointerTo {t : Entity} {p : SymbolId} (hp : lib.Means G row t p) :
    (lib.pointerTo p).2.Portrays W G row lib₀ ∧ lib.Remembers (lib.pointerTo p).2 ∧
      (lib.pointerTo p).2.Means G row (W.pointerTo t) (lib.pointerTo p).1 := by
  obtain ⟨hrepresents, hremembers, hx⟩ := h.toRepresents.pointerTo hW hp
  exact ⟨h.interns hrepresents (h.isApart.interns_pointerTo p) hremembers, hremembers, hx⟩

end Portrays

end Library

end Sable
