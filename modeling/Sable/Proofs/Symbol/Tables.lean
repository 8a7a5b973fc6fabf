import Sable.Proofs.Symbol.Stable

/-!
# Tables of interned types

A library enters every pointer type and every function type that it makes into a table, under what
the type is made of. So none of these types is anywhere but in a table, and no library has two types
that are made of the same. If it was linked before it made any, it has none that it reaches either.

## Main definitions

* `Library.HasTables`: the pointer types and function types of a library are in its tables.
* `Library.IsOriginal`: the library has interned nothing that it reaches.

## Main statements

* `Library.HasTables.step`: whatever is done to a library, its tables are complete.
* `Library.exists_cached?`: types that a library sees are in the tables of their owners.
-/
namespace Sable

namespace Library

variable {lib lib' : Library} {form : TypeForm} {x : SymbolId}

/-- The types of the library's own that are made of others are in its tables. -/
def HasTables (lib : Library) : Prop :=
  ∀ ⦃x form⦄, lib.Owns x (.type form) → form.IsMade → lib.cached? form = some x

theorem owns_of_alloc {s : Symbol} {sort : SymbolSort} (h : (lib.alloc s).2.Owns x sort) :
    lib.Owns x sort ∨ x = (lib.alloc s).1 ∧ s.sort = sort := by
  obtain ⟨t, ht, rfl⟩ := h
  obtain ⟨hlibrary, ht⟩ := owned?_eq_some.1 ht
  change (lib.symbols.push s)[x.index]? = some t at ht
  rw [Array.getElem?_push] at ht
  split at ht
  · next hindex =>
    obtain rfl := Option.some.inj ht
    have hx : (⟨x.library, x.index⟩ : SymbolId) = ⟨lib.id, lib.symbols.size⟩ := by
      rw [hindex, ← hlibrary]
      rfl
    exact .inr ⟨hx, rfl⟩
  · exact .inl ⟨t, owned?_eq_some.2 ⟨hlibrary, ht⟩, rfl⟩

theorem owns_of_update {f : Symbol → Symbol} (hf : ∀ s, (f s).sort = s.sort) {y : SymbolId}
    {sort : SymbolSort} (h : (lib.update y f).Owns x sort) : lib.Owns x sort := by
  unfold Library.update at h
  split at h
  · obtain ⟨t, ht, rfl⟩ := h
    obtain ⟨hlibrary, ht⟩ := owned?_eq_some.1 ht
    change (lib.symbols.modify y.index f)[x.index]? = some t at ht
    rw [Array.getElem?_modify] at ht
    split at ht
    · obtain ⟨s, hs, rfl⟩ := Option.map_eq_some_iff.1 ht
      exact ⟨s, owned?_eq_some.2 ⟨hlibrary, hs⟩, (hf s).symm⟩
    · exact ⟨t, owned?_eq_some.2 ⟨hlibrary, ht⟩, rfl⟩
  · exact h

namespace HasTables

/-- The tables stay, and so do all types that belong into them. -/
theorem of_owns (h : lib.HasTables) (hpointers : lib'.pointerTypes = lib.pointerTypes)
    (hfunctions : lib'.functionTypes = lib.functionTypes)
    (howns : ∀ {x form}, form.IsMade → lib'.Owns x (.type form) → lib.Owns x (.type form)) :
    lib'.HasTables := by
  intro x form hx hmade
  have hcached : lib'.cached? form = lib.cached? form := by
    cases form <;> simp [cached?, hpointers, hfunctions]
  exact hcached.trans (h (howns hmade hx) hmade)

theorem alloc (h : lib.HasTables) {s : Symbol} (hs : ∀ form, s.sort = .type form → ¬form.IsMade) :
    (lib.alloc s).2.HasTables :=
  h.of_owns rfl rfl fun hmade hx => (owns_of_alloc hx).resolve_right fun hnew =>
    hs _ hnew.2 hmade

theorem update (h : lib.HasTables) (x : SymbolId) {f : Symbol → Symbol}
    (hf : ∀ s, (f s).sort = s.sort) : (lib.update x f).HasTables := by
  obtain ⟨symbols, hupdate⟩ := exists_update_eq lib x f
  exact h.of_owns (by rw [hupdate]) (by rw [hupdate]) fun _ => owns_of_update hf

theorem publish (h : lib.HasTables) (name : String) (x : SymbolId) :
    (lib.publish name x).HasTables :=
  h.of_owns rfl rfl fun _ hx => hx

theorem link (h : lib.HasTables) (dep : Library) : (lib.link dep).HasTables := by
  unfold Library.link
  split <;> exact h

theorem of_symbols (h : lib.symbols = #[]) : lib.HasTables := by
  rintro x form ⟨s, hs, -⟩
  have hnone := (owned?_eq_some.1 hs).2
  simp [h] at hnone

/-- A type that is made is entered, in place of nothing. -/
theorem intern (h : lib.HasTables) {s : LibraryStep} (hs : s.interns? = some form) :
    (lib.step s).2.HasTables := by
  rcases intern_cases lib hs with ⟨x, -, heq⟩ | ⟨hnone, sym, hsort, -, hsymbols, hcached⟩
  · rw [heq]
    exact h
  · intro x form' hx hmade
    have howns : (lib.alloc sym).2.Owns x (.type form') := by
      rw [Owns, owned?, (lib.step_links s).1, hsymbols] at hx
      exact hx
    rw [hcached]
    rcases owns_of_alloc howns with hx | ⟨rfl, hform⟩
    · have hold := h hx hmade
      rw [if_neg, hold]
      rintro rfl
      rw [interned?_eq, Option.or_eq_none_iff, hold] at hnone
      cases hnone.1
    · rw [if_pos (SymbolSort.type.inj (hform.symm.trans hsort))]

theorem pointerType (h : lib.HasTables) (base : SymbolId) (depth : Nat) :
    (lib.pointerType base depth).2.HasTables := by
  induction depth generalizing lib base with
  | zero => exact h
  | succ depth ih => exact ih (h.intern (s := .pointerTo base) rfl) _

theorem setMembers (h : lib.HasTables) (x : SymbolId) (members : Names) :
    (lib.setMembers x members).HasTables := by
  refine h.update x fun s => ?_
  split
  · next t hkind => rw [Symbol.sort, Symbol.sort, hkind]; rfl
  · rfl

theorem setFunction (h : lib.HasTables) (x : SymbolId) (f : FunctionSymbol) :
    (lib.setFunction x f).HasTables := by
  refine h.update x fun s => ?_
  split
  · next g hkind => rw [Symbol.sort, Symbol.sort, hkind]; rfl
  · rfl

theorem addLocal (h : lib.HasTables) (function member : SymbolId) :
    (lib.addLocal function member).2.HasTables := by
  unfold Library.addLocal
  split
  · exact h
  · split
    · exact h
    · split
      · exact h
      · exact (h.setFunction _ _).update _ fun _ => rfl

/-- Whatever is done to a library, its types are in its tables. -/
theorem step (h : lib.HasTables) (s : LibraryStep) : (lib.step s).2.HasTables := by
  cases s with
  | pointerTo | functionType => exact h.intern rfl
  | pointerType base depth => exact h.pointerType base depth
  | createType name isGlobal span =>
    change (lib.createType name isGlobal span).2.HasTables
    unfold Library.createType
    split
    · split
      · exact h.pointerType _ _
      · exact h
    · split
      · exact h
      · have hmade := h.alloc (s := { name, kind := .type ⟨.classType, .empty⟩, span }) (by
          rintro _ ⟨⟩ hmade
          exact hmade)
        cases isGlobal with
        | true => exact hmade.publish _ _
        | false => exact hmade
  | createVariable | createFunction | createLabel => exact h.alloc (by rintro _ ⟨⟩)
  | setType | setDeclaration => exact h.update _ fun _ => rfl
  | registerGlobal x =>
    change (lib.registerGlobal x).2.HasTables
    unfold Library.registerGlobal
    split
    · exact h
    · split
      · exact h
      · exact h.publish _ _
  | addMember owner member =>
    change (lib.addMember owner member).2.HasTables
    unfold Library.addMember
    split
    · exact h
    · split
      · exact h
      · split
        · exact h
        · exact (h.setMembers _ _).update _ fun _ => rfl
  | addLocal function member => exact h.addLocal function member
  | addLabel function label =>
    change (lib.addLabel function label).2.HasTables
    unfold Library.addLabel
    split
    · exact h
    · split
      · exact h
      · split
        · exact h
        · exact (h.setFunction _ _).addLocal _ _
  | reset => exact of_symbols rfl

theorem primitives (h : lib.HasTables) (names : List String) :
    (names.foldl primitive lib).HasTables := by
  induction names generalizing lib with
  | nil => exact h
  | cons name names ih =>
    refine ih ?_
    have hmade := h.alloc (s := { name, kind := .type ⟨.primitive, .empty⟩, span := .dummy }) (by
      rintro _ ⟨⟩ hmade
      exact hmade)
    exact hmade.publish _ _

end HasTables

theorem hasTables_core (id : LibraryId) : (core id).HasTables := by
  have hnew : (new id "core").HasTables := .of_symbols rfl
  have hprimitives := hnew.primitives [voidName, booleanName, integerName, floatName, byteName, nullName]
  exact (hprimitives.intern (s := .pointerTo ⟨id, 4⟩) rfl).intern (s := .pointerTo ⟨id, 5⟩) rfl

/-! ## Types of one form -/

/-- The library has interned nothing that a library within reach has. -/
def IsOriginal (lib : Library) : Prop :=
  ∀ ⦃form x⦄, lib.cached? form = some x → ∀ dep ∈ reachAll lib.dependencies, dep.cached? form = none

theorem IsOriginal.enters (h : lib.IsOriginal) (henters : lib.Enters lib') : lib'.IsOriginal := by
  intro form x hx dep hdep
  rw [henters.dependencies_eq] at hdep
  rcases henters.entered hx with hx | ⟨hnone, -⟩
  · exact h hx dep hdep
  · rw [interned?_eq, Option.or_eq_none_iff, List.findSome?_eq_none_iff] at hnone
    exact hnone.2 dep hdep

/-- No library with an entry for the same form reaches the other one. -/
theorem IsOriginal.notMem_reach {dep : Library} {y : SymbolId} (h : lib.IsOriginal)
    (hx : lib.cached? form = some x) (hy : dep.cached? form = some y) (hne : dep ≠ lib) :
    dep ∉ lib.reach := by
  rw [reach_eq, List.mem_cons, not_or]
  refine ⟨hne, fun hdep => ?_⟩
  rw [h hx dep hdep] at hy
  cases hy

/-- A type that a library sees is in the table of the library that owns it. -/
theorem exists_cached? {t : TypeSymbol} (h : ∀ dep ∈ lib.reach, dep.HasTables)
    (hx : lib.type? x = some t) (hmade : t.form.IsMade) :
    ∃ dep ∈ lib.reach, dep.id = x.library ∧ dep.cached? t.form = some x := by
  obtain ⟨s, hs, hkind⟩ := type?_eq_some.1 hx
  obtain ⟨dep, hdep, hs⟩ := exists_owned?_of_symbol? hs
  have howns : dep.Owns x (.type t.form) := ⟨s, hs, by rw [Symbol.sort, hkind]; rfl⟩
  exact ⟨dep, hdep, (owned?_eq_some.1 hs).1, h dep hdep howns hmade⟩

end Library

end Sable
