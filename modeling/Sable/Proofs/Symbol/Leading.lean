import Sable.Proofs.Symbol.Lookup

/-!
# What happens to a library in use

A library in use keeps its number, its name and its links. It never loses a symbol, and as long as
it has none, it publishes nothing and interns nothing: it is still the library that it was.

## Main definitions

* `Library.Leads`: what a library may become.

## Main statements

* `Library.leads_pointerType`, `Library.leads_functionType`: interned types.
* `Library.leads_createType`: classes.
* `Library.leads_addMember`, `Library.leads_addLocal`, `Library.leads_addLabel`: owners.
-/
namespace Sable.Library

variable {lib lib' lib'' : Library}

/-- What a library may become. -/
structure Leads (lib lib' : Library) : Prop where
  id_eq : lib'.id = lib.id
  name_eq : lib'.name = lib.name
  dependencies_eq : lib'.dependencies = lib.dependencies
  size_le : lib.symbols.size ≤ lib'.symbols.size
  eq_of_size : lib'.symbols.size = 0 → lib' = lib

namespace Leads

theorem refl (lib : Library) : lib.Leads lib := ⟨rfl, rfl, rfl, Nat.le_refl _, fun _ => rfl⟩

theorem trans (h : lib.Leads lib') (h' : lib'.Leads lib'') : lib.Leads lib'' where
  id_eq := h'.id_eq.trans h.id_eq
  name_eq := h'.name_eq.trans h.name_eq
  dependencies_eq := h'.dependencies_eq.trans h.dependencies_eq
  size_le := Nat.le_trans h.size_le h'.size_le
  eq_of_size hsize := by
    have heq := h'.eq_of_size hsize
    rw [heq, h.eq_of_size (heq ▸ hsize)]

/-- A library with symbols may publish and intern. -/
theorem of_pos (hid : lib'.id = lib.id) (hname : lib'.name = lib.name)
    (hdependencies : lib'.dependencies = lib.dependencies)
    (hsize : lib.symbols.size ≤ lib'.symbols.size) (hpos : 0 < lib'.symbols.size) :
    lib.Leads lib' :=
  ⟨hid, hname, hdependencies, hsize, fun h => absurd h (Nat.ne_of_gt hpos)⟩

end Leads

/-! ## New symbols -/

theorem leads_alloc (lib : Library) (s : Symbol) : lib.Leads (lib.alloc s).2 :=
  .of_pos rfl rfl rfl (by simp [alloc]) (by simp [alloc])

theorem size_alloc_pos (lib : Library) (s : Symbol) : 0 < (lib.alloc s).2.symbols.size := by
  simp [alloc]

theorem leads_pointerTo (lib : Library) (pointee : SymbolId) :
    lib.Leads (lib.pointerTo pointee).2 := by
  unfold pointerTo
  split
  · exact .refl lib
  · exact .of_pos rfl rfl rfl (by simp [alloc, publishNew]) (by simp [alloc, publishNew])

theorem leads_pointerType (lib : Library) (base : SymbolId) (depth : Nat) :
    lib.Leads (lib.pointerType base depth).2 := by
  induction depth generalizing lib base with
  | zero => exact .refl lib
  | succ depth ih => exact (lib.leads_pointerTo base).trans (ih _ _)

theorem leads_functionType (lib : Library) (parameters : List SymbolId) (returns : SymbolId) :
    lib.Leads (lib.functionType parameters returns).2 := by
  unfold functionType
  split
  · exact .refl lib
  · exact .of_pos rfl rfl rfl (by simp [alloc, publishNew]) (by simp [alloc, publishNew])

theorem leads_createType (lib : Library) (name : String) (isGlobal : Bool) (span : Span) :
    lib.Leads (lib.createType name isGlobal span).2 := by
  unfold createType
  split
  · split
    · exact lib.leads_pointerType _ _
    · exact .refl lib
  · split
    · exact .refl lib
    · cases isGlobal with
      | true => exact .of_pos rfl rfl rfl (by simp [alloc, publish]) (by simp [alloc, publish])
      | false => exact lib.leads_alloc _

/-- A name without a star at its end makes a symbol. -/
theorem size_createType_pos (lib : Library) {name : String} (h : (splitStars name).2 = 0)
    (span : Span) : 0 < (lib.createType name false span).2.symbols.size := by
  unfold createType
  split
  · next hstars => simp [hstars] at h
  · simp [alloc]

/-! ## Changes -/

theorem leads_update (lib : Library) (id : SymbolId) (f : Symbol → Symbol) :
    lib.Leads (lib.update id f) := by
  unfold update
  split
  · refine ⟨rfl, rfl, rfl, by simp, fun hsize => ?_⟩
    have hnil : lib.symbols = #[] := by simpa using hsize
    cases lib
    simp_all
  · exact .refl lib

theorem leads_publish (h : 0 < lib.symbols.size) (name : String) (id : SymbolId) :
    lib.Leads (lib.publish name id) :=
  .of_pos rfl rfl rfl (Nat.le_refl _) h

theorem leads_registerGlobal (h : 0 < lib.symbols.size) (id : SymbolId) :
    lib.Leads (lib.registerGlobal id).2 := by
  unfold registerGlobal
  split
  · exact .refl lib
  · split
    · exact .refl lib
    · exact leads_publish h _ _

theorem leads_addMember (lib : Library) (owner member : SymbolId) :
    lib.Leads (lib.addMember owner member).2 := by
  unfold addMember
  split
  · exact .refl lib
  · split
    · exact .refl lib
    · split
      · exact .refl lib
      · exact (lib.leads_update _ _).trans (leads_update _ _ _)

theorem leads_addLocal (lib : Library) (function member : SymbolId) :
    lib.Leads (lib.addLocal function member).2 := by
  unfold addLocal
  split
  · exact .refl lib
  · split
    · exact .refl lib
    · split
      · exact .refl lib
      · exact (lib.leads_update _ _).trans (leads_update _ _ _)

theorem leads_addLabel (lib : Library) (function label : SymbolId) :
    lib.Leads (lib.addLabel function label).2 := by
  unfold addLabel
  split
  · exact .refl lib
  · split
    · exact .refl lib
    · split
      · exact .refl lib
      · exact (lib.leads_update _ _).trans (leads_addLocal _ _ _)

end Sable.Library
