import Sable.Proofs.Symbol.Meaning
import Sable.Proofs.Symbol.Stable

/-!
# Symbols of a dependency

A library whose declarations have their symbols is linked to a new library. What its symbols stand
for they stand for there as well, now as the symbols of a linked library. In which order the linked
libraries are asked makes no difference, since no type is interned in two of them.

## Main definitions

* `Library.Sees`: a library without symbols that sees those of another one.

## Main statements

* `Library.Portrays.of_world`: another world that says the same of what has a symbol.
* `Library.Represents.sees`: a new library sees what is linked to it last.
* `Library.Portrays.grounds`: what the symbols stand for there.
-/
namespace Sable.Library

variable {V W : World} {G : Entity → SymbolId → Prop} {row : NodeId → Option SymbolId}
  {lib₀ lib lib' : Library}

/-! ## Another world -/

section World

variable (hG : ∀ {t x}, G t x → ∃ y, t = .given y) (hgiven : W.given? = V.given?)
  (hdeclared : ∀ {n x}, row n = some x → W.declared? n = V.declared? n)

include hG hgiven hdeclared

/-- What symbols stand for has the same name in worlds that say the same of it. -/
theorem Means.name_eq {t : Entity} {x : SymbolId} (hx : lib.Means G row t x) :
    W.name t = V.name t := by
  induction hx with
  | ground hx =>
    obtain ⟨y, rfl⟩ := hG hx
    rw [World.name, World.name, hgiven]
  | declared hn => rw [World.name, World.name, hdeclared hn]
  | pointer _ _ ih => rw [World.name, World.name, ih]
  | @function ts t ps r x hlength _ _ _ ihs ih =>
    have hnames : W.names ts = V.names ts := by
      rw [World.names_eq_map, World.names_eq_map]
      apply List.map_congr_left
      intro s hs
      rw [← List.map_fst_zip (Nat.le_of_eq hlength)] at hs
      obtain ⟨⟨s, p⟩, hmem, rfl⟩ := List.mem_map.1 hs
      exact ihs hmem
    rw [World.name, World.name, hnames, ih]

/-- A library stays right about its symbols. -/
theorem Portrays.of_world (h : lib.Portrays V G row lib₀) : lib.Portrays W G row lib₀ where
  isApart := h.isApart
  id_eq := h.id_eq
  dependencies_eq := h.dependencies_eq
  row_inj := h.row_inj
  declared hn := by
    rw [hdeclared hn]
    exact h.declared hn
  pointer hx := by
    obtain ⟨hnone, t, ht, hform⟩ := h.pointer hx
    have hname : W.name (.pointer t) = V.name (.pointer t) :=
      (Means.pointer ht hx).name_eq hG hgiven hdeclared
    exact ⟨hnone, t, ht, hname ▸ hform⟩
  function hx := by
    obtain ⟨hnone, ts, t, hts, ht, hform⟩ := h.function hx
    have hfunction : W.name (.function ts t) = V.name (.function ts t) :=
      (Means.functionType hts ht hx).name_eq hG hgiven hdeclared
    exact ⟨hnone, ts, t, hts, ht, hfunction ▸ hform⟩
  fits hn := by
    rw [hdeclared hn]
    exact h.fits hn

end World

/-! ## Linked libraries -/

/-- The library has no symbols of its own, and whatever it sees the other library sees. -/
structure Sees (lib' lib : Library) : Prop where
  id_ne : lib.id ≠ lib'.id
  pointerTypes_eq : lib'.pointerTypes = .empty
  functionTypes_eq : lib'.functionTypes = .empty
  symbol?_eq : ∀ x, lib'.symbol? x = lib.symbol? x
  pointerType?_eq : ∀ p, lib'.pointerType? p = lib.pointerType? p
  functionType?_eq : ∀ ps r, lib'.functionType? ps r = lib.functionType? ps r

/-- What a library answers may be asked in front of it, if nobody answers instead. -/
theorem findSome?_twice {α β : Type} {f : α → Option β} {x : α} {xs : List α}
    (h : (f x).isSome → xs.findSome? f = none) :
    (xs ++ x :: xs).findSome? f = (x :: xs).findSome? f := by
  rw [List.findSome?_append, List.findSome?_cons]
  cases hx : f x with
  | none => cases xs.findSome? f <;> rfl
  | some y => rw [h (hx ▸ rfl), Option.none_or]

/-- A new library is linked to what another one is linked to, and to that one. -/
theorem firstSome?_new_linked {α : Type} {f : Library → Option α} {k : LibraryId} {name : String}
    (hnew : f { new k name with dependencies := lib.dependencies ++ [lib] } = none)
    (h : (f lib).isSome → (reachAll lib.dependencies).findSome? f = none) :
    { new k name with dependencies := lib.dependencies ++ [lib] }.firstSome? f =
      lib.firstSome? f := by
  rw [firstSome?_eq, firstSome?_eq, reach_eq, List.findSome?_cons, hnew, reachAll_append, reachAll,
    reachAll, List.append_nil, reach_eq lib]
  exact findSome?_twice h

namespace Represents

variable (h : lib.Represents W G row lib₀)

include h

/-- A symbol of the library's own, or else of a library that it is linked to. -/
theorem library_ne (hk : lib.id ≠ lib'.id) (hground : ∀ {t x}, G t x → x.library ≠ lib'.id)
    {t : Entity} {x : SymbolId} (hx : lib.Means G row t x) : x.library ≠ lib'.id := by
  by_cases hown : x.library = lib.id
  · exact hown ▸ hk
  · exact hground (h.ground_of_library_ne hx hown)

theorem findSome?_pointerTypes {p : SymbolId} (hp : (lib.pointerTypes.get? p).isSome) :
    (reachAll lib.dependencies).findSome? (·.pointerTypes.get? p) = none := by
  obtain ⟨x, hx⟩ := Option.isSome_iff_exists.1 hp
  have hnone := (h.pointer hx).1
  rw [pointerType?, firstSome?_eq, reach_eq, List.findSome?_cons, ← h.dependencies_eq] at hnone
  split at hnone
  · exact absurd hnone (Option.some_ne_none _)
  · exact hnone

theorem findSome?_functionTypes {ps : List SymbolId} {r : SymbolId}
    (hr : (lib.functionTypes.get? (ps, r)).isSome) :
    (reachAll lib.dependencies).findSome? (·.functionTypes.get? (ps, r)) = none := by
  obtain ⟨x, hx⟩ := Option.isSome_iff_exists.1 hr
  have hnone := (h.function hx).1
  rw [functionType?, firstSome?_eq, reach_eq, List.findSome?_cons, ← h.dependencies_eq] at hnone
  split at hnone
  · exact absurd hnone (Option.some_ne_none _)
  · exact hnone

/-- A new library sees what the library sees that is linked to it last. -/
theorem sees {k : LibraryId} (hk : lib.id ≠ k) (name : String) :
    { new k name with dependencies := lib.dependencies ++ [lib] }.Sees lib where
  id_ne := hk
  pointerTypes_eq := rfl
  functionTypes_eq := rfl
  symbol?_eq x := by
    refine firstSome?_new_linked (by simp [owned?, new]) fun hx => ?_
    rw [List.findSome?_eq_none_iff]
    intro dep hdep
    rw [owned?] at hx ⊢
    split at hx
    · next heq => exact if_neg fun heq' => h.isApart dep hdep (heq'.symm.trans heq)
    · simp at hx
  pointerType?_eq p := firstSome?_new_linked (by simp [new]) h.findSome?_pointerTypes
  functionType?_eq ps r := firstSome?_new_linked (by simp [new]) h.findSome?_functionTypes

end Represents

/-- In a library that sees no more than this one, symbols stand for what they stand for here. -/
theorem Portrays.grounds (h : lib.Portrays W G row lib₀) (hW : W.Grounds G lib₀)
    (hsees : lib'.Sees lib) (hground : ∀ {t x}, G t x → x.library ≠ lib'.id)
    (hpointer : ∀ {p}, p.library = lib'.id → lib₀.pointerType? p = none)
    (hfunction : ∀ {ps r p}, p ∈ r :: ps → p.library = lib'.id → lib₀.functionType? ps r = none) :
    W.Grounds (lib.Means G row) lib' := by
  have hlib := h.toRepresents
  have hne {t : Entity} {x : SymbolId} (hx : lib.Means G row t x) : x.library ≠ lib'.id :=
    hlib.library_ne hsees.id_ne hground hx
  have hpointers (p : SymbolId) :
      lib'.pointerType? p = (lib.pointerTypes.get? p).or (lib₀.pointerType? p) :=
    (hsees.pointerType?_eq p).trans (hlib.pointerType?_eq hW p)
  have hfunctions (ps : List SymbolId) (r : SymbolId) : lib'.functionType? ps r =
      (lib.functionTypes.get? (ps, r)).or (lib₀.functionType? ps r) :=
    (hsees.functionType?_eq ps r).trans (hlib.functionType?_eq hW ps r)
  refine
    { pointerTypes_eq := hsees.pointerTypes_eq
      functionTypes_eq := hsees.functionTypes_eq
      library_ne := hne
      biUnique := hlib.biUnique hW
      name_eq := fun {t x} hx => ?_
      fits := fun {t x} hx => ?_
      pointerTo := fun {t x y} hx hy => ?_
      pointerTo_eq := fun {t x} hx hnone => ?_
      pointer := fun {t y} hy => ?_
      functionType := fun {ts t xs x y} hxs hx hy => ?_
      functionType_eq := fun {ts t xs x} hxs hx hnone => ?_
      function := fun {ts t y} hy => ?_
      pointerType? := fun {p} hp => ?_
      functionType? := fun {ps r p} hmem hp => ?_ }
  · rw [nameOf, hsees.symbol?_eq]
    exact hlib.nameOf_eq hW hx
  · rw [hsees.symbol?_eq]
    exact h.symbol? hW hx
  · exact hlib.means_pointerTo hW hx ((hsees.pointerType?_eq x).symm.trans hy)
  · rw [hpointers, Option.or_eq_none_iff] at hnone
    exact hx.pointerTo_eq hW hnone.2
  · cases hy with
    | ground hy =>
      obtain ⟨x, hx, hy⟩ := hW.pointer hy
      refine ⟨x, .ground hx, ?_⟩
      cases hown : lib.pointerTypes.get? x with
      | none => rw [hpointers, hown, Option.none_or, hy]
      | some z => exact absurd (hy.symm.trans (hlib.pointer hown).1) (Option.some_ne_none y)
    | pointer hx hy => exact ⟨_, hx, by rw [hpointers, hy, Option.some_or]⟩
  · exact hlib.means_functionType hW hxs hx ((hsees.functionType?_eq xs x).symm.trans hy)
  · rw [hfunctions, Option.or_eq_none_iff] at hnone
    exact Means.functionType_eq hW hxs hx hnone.2
  · cases hy with
    | ground hy =>
      obtain ⟨xs, x, hxs, hx, hy⟩ := hW.function hy
      refine ⟨xs, x, hxs.imp fun _ _ => .ground, .ground hx, ?_⟩
      cases hown : lib.functionTypes.get? (xs, x) with
      | none => rw [hfunctions, hown, Option.none_or, hy]
      | some z => exact absurd (hy.symm.trans (hlib.function hown).1) (Option.some_ne_none y)
    | function hlength hxs hx hy =>
      refine ⟨_, _, List.forall₂_iff_zip.2 ⟨hlength, hxs⟩, hx, ?_⟩
      rw [hfunctions, hy, Option.some_or]
  · rw [hpointers, hpointer hp, Option.or_none]
    by_contra hsome
    obtain ⟨x, hx⟩ := Option.ne_none_iff_exists'.1 hsome
    obtain ⟨-, t, ht, -⟩ := hlib.pointer hx
    exact hne ht hp
  · rw [hfunctions, hfunction hmem hp, Option.or_none]
    by_contra hsome
    obtain ⟨x, hx⟩ := Option.ne_none_iff_exists'.1 hsome
    obtain ⟨-, ts, t, hts, ht, -⟩ := hlib.function hx
    obtain ⟨u, hu⟩ : ∃ u, lib.Means G row u p := by
      rcases List.mem_cons.1 hmem with rfl | hmem
      · exact ⟨t, ht⟩
      · rw [← List.map_snd_zip (Nat.le_of_eq hts.length_eq.symm)] at hmem
        obtain ⟨⟨u, p⟩, hzip, rfl⟩ := List.mem_map.1 hmem
        exact ⟨u, List.forall₂_zip hts hzip⟩
    exact hne hu hp

end Sable.Library
