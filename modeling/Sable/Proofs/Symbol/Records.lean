import Sable.Proofs.Symbol.Sound

/-!
# What a declaration says of its symbol

A symbol is made with a name, a place and a sort, it gets the node that declares it, and then it is
registered with a function or a class. The entries of a symbol and its type are not part of this
record, so that registration changes one record only.

## Main definitions

* `Symbol.Record`: what a declaration says of its symbol.
* `Library.record?`: the record of a symbol.
* `Library.Registers`: a symbol gets its parents, unless its name is taken.

## Main statements

* `Library.IsApart.registers_addMember`, `Library.IsApart.registers_addLocal`,
  `Library.IsApart.registers_addLabel`: registration with an owner.
-/
namespace Sable

namespace Symbol

/-- The function or the class that a symbol is registered with. -/
structure Parents where
  function : Option SymbolId := none
  type : Option SymbolId := none
  deriving DecidableEq

def parents (s : Symbol) : Parents := ⟨s.parentFunction, s.parentType⟩

structure Record where
  name : String
  span : Span
  sort : SymbolSort
  declaration : Option NodeId
  parents : Parents

def record (s : Symbol) : Record := ⟨s.name, s.span, s.sort, s.declaration, s.parents⟩

theorem isSome_function?_iff (s : Symbol) : s.function?.isSome ↔ s.sort = .function := by
  unfold function? sort
  cases s.kind <;> simp [SymbolKind.sort]

theorem isSome_type?_iff (s : Symbol) : s.type?.isSome ↔ s.sort.IsType := by
  unfold type? sort
  cases s.kind <;> simp [SymbolKind.sort, SymbolSort.IsType]

end Symbol

open Sable.Symbol (Record Parents)

namespace Library

variable {lib lib' : Library} {x y owner f : SymbolId} {r : Record} {p : Parents}

def record? (lib : Library) (x : SymbolId) : Option Record := (lib.symbol? x).map Symbol.record

theorem record?_eq_some : lib.record? x = some r ↔ ∃ s, lib.symbol? x = some s ∧ s.record = r :=
  Option.map_eq_some_iff

theorem isSome_function?_iff :
    ((lib.symbol? x).bind Symbol.function?).isSome ↔ ∃ r, lib.record? x = some r ∧ r.sort = .function := by
  cases h : lib.symbol? x with
  | none => simp [record?, h]
  | some s => simp [record?, h, s.isSome_function?_iff, Symbol.record]

theorem isSome_type?_iff :
    ((lib.symbol? x).bind Symbol.type?).isSome ↔ ∃ r, lib.record? x = some r ∧ r.sort.IsType := by
  cases h : lib.symbol? x with
  | none => simp [record?, h]
  | some s => simp [record?, h, s.isSome_type?_iff, Symbol.record]

theorem record?_congr (h : ∀ y, lib'.symbol? y = lib.symbol? y) (y : SymbolId) :
    lib'.record? y = lib.record? y :=
  congrArg (Option.map _) (h y)

/-! ## Changes of a symbol -/

theorem IsApart.record?_update (hlib : lib.IsApart) (hx : x.library = lib.id) {f : Symbol → Symbol}
    {g : Record → Record} (hf : ∀ s, (f s).record = g s.record) (y : SymbolId) :
    (lib.update x f).record? y = if y = x then (lib.record? x).map g else lib.record? y := by
  rw [record?, hlib.symbol?_update]
  by_cases hy : y = x
  · subst hy
    rw [if_pos ⟨rfl, hx⟩, if_pos rfl, record?, Option.map_map, Option.map_map]
    exact congrArg (Option.map · _) (funext hf)
  · rw [if_neg fun h => hy h.1, if_neg hy]
    rfl

/-- A change of what is not recorded. -/
theorem IsApart.record?_update_eq (hlib : lib.IsApart) (x : SymbolId) {f : Symbol → Symbol}
    (hf : ∀ s, (f s).record = s.record) (y : SymbolId) :
    (lib.update x f).record? y = lib.record? y := by
  rw [record?, hlib.symbol?_update]
  split
  · rw [Option.map_map]
    exact congrArg (Option.map · _) (funext hf)
  · rfl

theorem IsApart.record?_setMembers (hlib : lib.IsApart) (x : SymbolId) (members : Names)
    (y : SymbolId) : (lib.setMembers x members).record? y = lib.record? y := by
  refine hlib.record?_update_eq x (fun s => ?_) y
  split
  · next t hkind => simp [Symbol.record, Symbol.sort, Symbol.parents, hkind, SymbolKind.sort]
  · rfl

theorem IsApart.record?_setFunction (hlib : lib.IsApart) (x : SymbolId) (g : FunctionSymbol)
    (y : SymbolId) : (lib.setFunction x g).record? y = lib.record? y := by
  refine hlib.record?_update_eq x (fun s => ?_) y
  split
  · next h hkind => simp [Symbol.record, Symbol.sort, Symbol.parents, hkind, SymbolKind.sort]
  · rfl

/-! ## Registration -/

/-- The symbol gets these parents, unless its name is taken. Of no other symbol anything is said. -/
structure Registers (lib : Library) (x : SymbolId) (r : Record) (p : Parents)
    (result : Except SemanticError Unit × Library) : Prop where
  id_eq : result.2.id = lib.id
  dependencies_eq : result.2.dependencies = lib.dependencies
  others : ∀ y, y ≠ x → result.2.record? y = lib.record? y
  own : result.2.record? x = some { r with parents := p } ∨
    result.1 = .error (.sameName r.name r.span) ∧ result.2.record? x = some r

theorem Registers.failed (hx : lib.record? x = some r) :
    lib.Registers x r p (.error (.sameName r.name r.span), lib) :=
  ⟨rfl, rfl, fun _ _ => rfl, .inr ⟨rfl, hx⟩⟩

/-- What was done before is of no concern if nothing was recorded. -/
theorem Registers.of_record?_eq {result : Except SemanticError Unit × Library}
    (h : lib'.Registers x r p result) (hid : lib'.id = lib.id)
    (hdependencies : lib'.dependencies = lib.dependencies)
    (hrecord : ∀ y, lib'.record? y = lib.record? y) : lib.Registers x r p result :=
  ⟨h.id_eq.trans hid, h.dependencies_eq.trans hdependencies,
    fun y hy => (h.others y hy).trans (hrecord y), h.own⟩

theorem update_links (lib : Library) (x : SymbolId) (f : Symbol → Symbol) :
    (lib.update x f).id = lib.id ∧ (lib.update x f).dependencies = lib.dependencies := by
  obtain ⟨symbols, hupdate⟩ := exists_update_eq lib x f
  rw [hupdate]
  exact ⟨rfl, rfl⟩

theorem setMembers_links (lib : Library) (x : SymbolId) (members : Names) :
    (lib.setMembers x members).id = lib.id ∧
      (lib.setMembers x members).dependencies = lib.dependencies :=
  lib.update_links x _

theorem setFunction_links (lib : Library) (x : SymbolId) (g : FunctionSymbol) :
    (lib.setFunction x g).id = lib.id ∧ (lib.setFunction x g).dependencies = lib.dependencies :=
  lib.update_links x _

theorem IsApart.registers_update (hlib : lib.IsApart) (hx : x.library = lib.id)
    (hr : lib.record? x = some r) {f : Symbol → Symbol}
    (hf : ∀ s, s.record = r → (f s).record = { r with parents := p }) :
    lib.Registers x r p (.ok (), lib.update x f) := by
  obtain ⟨hid, hdependencies⟩ := lib.update_links x f
  have hrecord : ∀ y, (lib.update x f).record? y =
      if y = x then some { r with parents := p } else lib.record? y := by
    intro y
    rw [record?, hlib.symbol?_update]
    by_cases hy : y = x
    · subst hy
      obtain ⟨s, hs, hrecord⟩ := record?_eq_some.1 hr
      rw [if_pos ⟨rfl, hx⟩, if_pos rfl, hs, Option.map_some, Option.map_some, hf s hrecord]
    · rw [if_neg fun h => hy h.1, if_neg hy]
      rfl
  exact ⟨hid, hdependencies, fun y hy => (hrecord y).trans (if_neg hy),
    .inl ((hrecord x).trans (if_pos rfl))⟩

section Owners

variable (hlib : lib.IsApart) (hx : x.library = lib.id) (hr : lib.record? x = some r)
  (hparents : r.parents = {})

include hlib hx hr hparents

/-- The owner is a type of the library's own. -/
theorem IsApart.registers_addMember (howner : ((lib.owned? owner).bind Symbol.type?).isSome) :
    lib.Registers x r ⟨none, some owner⟩ (lib.addMember owner x) := by
  obtain ⟨s, hs, hrecord⟩ := record?_eq_some.1 hr
  obtain ⟨t, ht⟩ := Option.isSome_iff_exists.1 howner
  subst hrecord
  simp only [Library.addMember, hs, ht]
  split
  · exact .failed hr
  · obtain ⟨hid, hdependencies⟩ := lib.setMembers_links owner (t.members.insert s.name x)
    have hset := hlib.record?_setMembers owner (t.members.insert s.name x)
    refine Registers.of_record?_eq ?_ hid hdependencies hset
    refine (hlib.congr hid hdependencies).registers_update (hx.trans hid.symm)
      ((hset x).trans hr) fun s' hs' => ?_
    have hfunction : s'.parentFunction = none :=
      congrArg Parents.function ((congrArg Record.parents hs').trans hparents)
    rw [← hs']
    simp [Symbol.record, Symbol.parents, Symbol.sort, hfunction]

theorem IsApart.registers_addLocal (hf : ((lib.symbol? f).bind Symbol.function?).isSome) :
    lib.Registers x r ⟨some f, none⟩ (lib.addLocal f x) := by
  obtain ⟨s, hs, hrecord⟩ := record?_eq_some.1 hr
  obtain ⟨g, hg⟩ := Option.isSome_iff_exists.1 hf
  subst hrecord
  simp only [Library.addLocal, hs, hg]
  split
  · exact .failed hr
  · obtain ⟨hid, hdependencies⟩ := lib.setFunction_links f { g with locals := g.locals ++ [x] }
    have hset := hlib.record?_setFunction f { g with locals := g.locals ++ [x] }
    refine Registers.of_record?_eq ?_ hid hdependencies hset
    refine (hlib.congr hid hdependencies).registers_update (hx.trans hid.symm)
      ((hset x).trans hr) fun s' hs' => ?_
    have htype : s'.parentType = none :=
      congrArg Parents.type ((congrArg Record.parents hs').trans hparents)
    rw [← hs']
    simp [Symbol.record, Symbol.parents, Symbol.sort, htype]

/-- The function is the library's own. The label may be in its table already when its name turns
out to be that of a local. -/
theorem IsApart.registers_addLabel (hlibrary : f.library = lib.id)
    (hf : ((lib.symbol? f).bind Symbol.function?).isSome) :
    lib.Registers x r ⟨some f, none⟩ (lib.addLabel f x) := by
  obtain ⟨s, hs, hrecord⟩ := record?_eq_some.1 hr
  obtain ⟨g, hg⟩ := Option.isSome_iff_exists.1 hf
  have howned := hg
  rw [← hlib.owned?_eq hlibrary] at howned
  subst hrecord
  simp only [Library.addLabel, hs, howned]
  split
  · exact .failed hr
  · obtain ⟨hid, hdependencies⟩ :=
      lib.setFunction_links f { g with labels := g.labels.insert s.name x }
    have hset := hlib.record?_setFunction f { g with labels := g.labels.insert s.name x }
    refine Registers.of_record?_eq ?_ hid hdependencies hset
    refine IsApart.registers_addLocal (hlib.congr hid hdependencies) (hx.trans hid.symm)
      ((hset x).trans hr) hparents ?_
    rw [isSome_function?_iff] at hf ⊢
    rwa [hset]

end Owners

end Library

end Sable
