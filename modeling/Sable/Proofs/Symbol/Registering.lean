import Sable.Proofs.Symbol.Interning

/-!
# Registration of symbols

A declaration makes a symbol and registers it with an owner. Of the symbols that were there before,
only the owner gets a new entry; no name and no type changes.

## Main definitions

* `Library.Owner`: which symbols may get entries.
* `Library.Binds`: a step that makes and registers symbols.
* `Library.Creates`: a step that makes one symbol.
* `Library.withName`: a table of names with one more, unless it is taken.
* `Library.HasLocals`, `Library.HasMembers`: what is registered with a function and with a class.
* `Library.HasForm`: what type a symbol is.

## Main statements

* `Library.HasLocals.addLocal`, `Library.HasLocals.addLabel`, `Library.HasMembers.addMember`: a name
  is registered unless it is taken, which is an error.
-/
namespace Sable

/-- What is said of a symbol apart from its entries. -/
structure Symbol.Keeps (s s' : Symbol) : Prop where
  name_eq : s'.name = s.name
  span_eq : s'.span = s.span
  type_eq : s'.type = s.type
  isValue_eq : s'.isValue = s.isValue
  form_eq : s'.type?.map TypeSymbol.form = s.type?.map TypeSymbol.form

namespace Library

/-- Which symbols may get entries, by whether they are values. -/
def Owner := SymbolId → Bool → Prop

namespace Owner

def nobody : Owner := fun _ _ => False

def function (f : SymbolId) : Owner := fun x _ => x = f

/-- A class is not a value; what is one gets no members. -/
def classes (ys : List (Option SymbolId)) : Owner := fun x isValue => some x ∈ ys ∧ isValue = false

end Owner

variable {lib lib' lib'' : Library} {k : LibraryId} {owner : Owner}

/-- Symbols are made and registered with the owner. -/
structure Binds (owner : Owner) (lib lib' : Library) : Prop where
  id_eq : lib'.id = lib.id
  dependencies_eq : lib'.dependencies = lib.dependencies
  pointerTypes_eq : lib'.pointerTypes = lib.pointerTypes
  functionTypes_eq : lib'.functionTypes = lib.functionTypes
  form?_eq : ∀ x, lib'.form? x = lib.form? x
  symbol : ∀ {x s}, lib.symbol? x = some s →
    ∃ s', lib'.symbol? x = some s' ∧ s.Keeps s' ∧ (¬owner x s.isValue → s'.kind = s.kind)

namespace Binds

theorem refl (lib : Library) : lib.Binds owner lib :=
  ⟨rfl, rfl, rfl, rfl, fun _ => rfl, fun hx => ⟨_, hx, ⟨rfl, rfl, rfl, rfl, rfl⟩, fun _ => rfl⟩⟩

theorem trans (h : lib.Binds owner lib') (h' : lib'.Binds owner lib'') : lib.Binds owner lib'' where
  id_eq := h'.id_eq.trans h.id_eq
  dependencies_eq := h'.dependencies_eq.trans h.dependencies_eq
  pointerTypes_eq := h'.pointerTypes_eq.trans h.pointerTypes_eq
  functionTypes_eq := h'.functionTypes_eq.trans h.functionTypes_eq
  form?_eq x := (h'.form?_eq x).trans (h.form?_eq x)
  symbol hx := by
    obtain ⟨s', hx', hkeeps, hkind⟩ := h.symbol hx
    obtain ⟨s'', hx'', hkeeps', hkind'⟩ := h'.symbol hx'
    rw [hkeeps.isValue_eq] at hkind'
    refine ⟨s'', hx'', ⟨?_, ?_, ?_, ?_, ?_⟩, fun hne => (hkind' hne).trans (hkind hne)⟩
    · exact hkeeps'.name_eq.trans hkeeps.name_eq
    · exact hkeeps'.span_eq.trans hkeeps.span_eq
    · exact hkeeps'.type_eq.trans hkeeps.type_eq
    · exact hkeeps'.isValue_eq.trans hkeeps.isValue_eq
    · exact hkeeps'.form_eq.trans hkeeps.form_eq

theorem mono {owner' : Owner} (h : lib.Binds owner lib')
    (howner : ∀ x isValue, owner x isValue → owner' x isValue) : lib.Binds owner' lib' where
  __ := h
  symbol hx := by
    obtain ⟨s', hx', hkeeps, hkind⟩ := h.symbol hx
    exact ⟨s', hx', hkeeps, fun hne => hkind (mt (howner _ _) hne)⟩

/-- An owner that is made on the way is of no concern. -/
theorem of_fresh {f : SymbolId} (h : lib.Binds (.function f) lib') (hf : lib.symbol? f = none) :
    lib.Binds owner lib' where
  __ := h
  symbol {y s} hy := by
    obtain ⟨s', hy', hkeeps, hkind⟩ := h.symbol hy
    refine ⟨s', hy', hkeeps, fun _ => hkind ?_⟩
    rintro rfl
    rw [hf] at hy
    exact absurd hy (by simp)

theorem isApart (h : lib.Binds owner lib') (hlib : lib.IsApart) : lib'.IsApart :=
  hlib.congr h.id_eq h.dependencies_eq

end Binds

/-- A change of one symbol that keeps what is said of it, unless it is the owner. -/
theorem IsApart.binds_update (hlib : lib.IsApart) {x : SymbolId} {f : Symbol → Symbol}
    (hf : ∀ s, lib.symbol? x = some s →
      s.Keeps (f s) ∧ (¬owner x s.isValue → (f s).kind = s.kind)) :
    lib.Binds owner (lib.update x f) := by
  have hsymbol : ∀ {y s}, lib.symbol? y = some s → ∃ s', (lib.update x f).symbol? y = some s' ∧
      s.Keeps s' ∧ (¬owner y s.isValue → s'.kind = s.kind) := by
    intro y s hy
    rw [hlib.symbol?_update, hy]
    split
    · next hyx =>
      rw [hyx.1] at hy
      rw [hyx.1]
      exact ⟨f s, rfl, hf s hy⟩
    · exact ⟨s, rfl, ⟨rfl, rfl, rfl, rfl, rfl⟩, fun _ => rfl⟩
  obtain ⟨symbols, hupdate⟩ := exists_update_eq lib x f
  refine ⟨?_, ?_, ?_, ?_, ?_, hsymbol⟩
  · rw [hupdate]
  · rw [hupdate]
  · rw [hupdate]
  · rw [hupdate]
  · intro y
    cases hy : lib.symbol? y with
    | none =>
      have hy' : (lib.update x f).symbol? y = none := by simp [hlib.symbol?_update, hy]
      rw [form?, form?, hy, hy']
    | some s =>
      obtain ⟨s', hy', hkeeps, -⟩ := hsymbol hy
      have hform := hkeeps.form_eq
      rw [form?, form?, hy, hy', Option.bind_some, Option.bind_some, hkeeps.name_eq]
      cases ht : s.type? <;> cases ht' : s'.type? <;> simp_all

theorem globals_update (lib : Library) (x : SymbolId) (f : Symbol → Symbol) :
    (lib.update x f).globals = lib.globals := by
  obtain ⟨symbols, hupdate⟩ := exists_update_eq lib x f
  rw [hupdate]

theorem binds_publish (lib : Library) (name : String) (x : SymbolId) :
    lib.Binds owner (lib.publish name x) :=
  ⟨rfl, rfl, rfl, rfl, fun y => by rw [form?, form?, symbol?_publish],
    fun {y s} hy => ⟨s, (symbol?_publish ..).trans hy, ⟨rfl, rfl, rfl, rfl, rfl⟩, fun _ => rfl⟩⟩

/-! ## New symbols -/

/-- One symbol is made that is not a type. -/
structure Creates (lib : Library) (x : SymbolId) (s : Symbol) (lib' : Library) : Prop where
  fresh : lib.symbol? x = none
  library_eq : x.library = lib.id
  type?_eq : s.type? = none
  tables_eq : ∃ symbols, lib' = { lib with symbols }
  symbol?_eq : ∀ y, lib'.symbol? y = if y = x then some s else lib.symbol? y

namespace Creates

variable {x : SymbolId} {s : Symbol}

theorem alloc (hlib : lib.IsApart) (hs : s.type? = none) :
    lib.Creates (lib.alloc s).1 s (lib.alloc s).2 :=
  ⟨hlib.symbol?_alloc_fst s, rfl, hs, ⟨_, rfl⟩, hlib.symbol?_alloc s⟩

/-- The new symbol may still be changed. -/
theorem update (h : lib.Creates x s lib') (hlib : lib.IsApart) {f : Symbol → Symbol}
    (hf : (f s).type? = none) : lib.Creates x (f s) (lib'.update x f) := by
  obtain ⟨symbols, hlib'⟩ := h.tables_eq
  have hapart : lib'.IsApart := hlib.congr (by rw [hlib']) (by rw [hlib'])
  have hid : x.library = lib'.id := by rw [hlib', h.library_eq]
  refine ⟨h.fresh, h.library_eq, hf, ?_, ?_⟩
  · obtain ⟨symbols', hupdate⟩ := exists_update_eq lib' x f
    exact ⟨symbols', by rw [hupdate, hlib']⟩
  · intro y
    rw [hapart.symbol?_update, h.symbol?_eq]
    by_cases hy : y = x <;> simp [hy, hid]

theorem symbol (h : lib.Creates x s lib') : lib'.symbol? x = some s :=
  (h.symbol?_eq x).trans (if_pos rfl)

theorem globals_eq (h : lib.Creates x s lib') : lib'.globals = lib.globals := by
  obtain ⟨symbols, rfl⟩ := h.tables_eq
  rfl

theorem ne_of_symbol? (h : lib.Creates x s lib') {y : SymbolId} {t : Symbol}
    (hy : lib.symbol? y = some t) : y ≠ x := by
  rintro rfl
  rw [h.fresh] at hy
  exact absurd hy (by simp)

theorem binds (h : lib.Creates x s lib') : lib.Binds owner lib' := by
  have hform : ∀ y, lib'.form? y = lib.form? y := by
    intro y
    rw [form?_of_symbol? h.symbol?_eq]
    split
    · next hy => rw [hy, form?, h.fresh, h.type?_eq, Option.bind_none, Option.map_none]
    · rfl
  have hsymbol : ∀ {y t}, lib.symbol? y = some t → ∃ t', lib'.symbol? y = some t' ∧ t.Keeps t' ∧
      (¬owner y t.isValue → t'.kind = t.kind) := by
    intro y t hy
    refine ⟨t, ?_, ⟨rfl, rfl, rfl, rfl, rfl⟩, fun _ => rfl⟩
    rw [h.symbol?_eq, if_neg (h.ne_of_symbol? hy), hy]
  obtain ⟨symbols, rfl⟩ := h.tables_eq
  exact ⟨rfl, rfl, rfl, rfl, hform, hsymbol⟩

end Creates

/-! ## Locals of functions -/

/-- A name that is taken stays with what has it. -/
def withName (names : String → Option SymbolId) (name : String) (x : SymbolId) :
    String → Option SymbolId :=
  fun n => (names n).or (if n = name then some x else none)

/-- An entry of a table for a name that it does not have. -/
theorem get?_insert_eq_withName {m : Names} {names : String → Option SymbolId} {name : String}
    (h : ∀ n, m.get? n = names n) (hname : names name = none) (x : SymbolId) (n : String) :
    (m.insert name x).get? n = withName names name x n := by
  rw [OrderedMap.get?_insert, withName, ← h]
  by_cases hn : n = name
  · rw [if_pos hn, if_pos hn, hn, h, hname, Option.none_or]
  · rw [if_neg hn, if_neg hn, Option.or_none]

/-- For a name that it has there is nothing to enter. -/
theorem withName_of_isSome {names : String → Option SymbolId} {name : String}
    (h : (names name).isSome) (x : SymbolId) : withName names name x = names := by
  funext n
  rw [withName]
  by_cases hn : n = name
  · obtain ⟨y, hy⟩ := Option.isSome_iff_exists.1 h
    rw [hn, hy, Option.some_or]
  · rw [if_neg hn, Option.or_none]

/-- These symbols have these names. -/
structure AreNamed (lib : Library) (xs : List SymbolId) (names : List String) : Prop where
  mem_names : ∀ x ∈ xs, ∃ s, lib.symbol? x = some s ∧ s.name ∈ names
  exists_mem : ∀ n ∈ names, ∃ x ∈ xs, ∃ s, lib.symbol? x = some s ∧ s.name = n

namespace AreNamed

variable {xs : List SymbolId} {names : List String} {x : SymbolId} {s : Symbol}

theorem congr (h : lib.AreNamed xs names) (hsymbol : ∀ {x s}, lib.symbol? x = some s →
    ∃ s', lib'.symbol? x = some s' ∧ s'.name = s.name) : lib'.AreNamed xs names where
  mem_names x hx := by
    obtain ⟨s, hs, hname⟩ := h.mem_names x hx
    obtain ⟨s', hs', heq⟩ := hsymbol hs
    exact ⟨s', hs', heq ▸ hname⟩
  exists_mem n hn := by
    obtain ⟨x, hx, s, hs, hname⟩ := h.exists_mem n hn
    obtain ⟨s', hs', heq⟩ := hsymbol hs
    exact ⟨x, hx, s', hs', heq.trans hname⟩

theorem binds (h : lib.AreNamed xs names) (hbinds : lib.Binds owner lib') :
    lib'.AreNamed xs names :=
  h.congr fun hs => by
    obtain ⟨s', hs', hkeeps, -⟩ := hbinds.symbol hs
    exact ⟨s', hs', hkeeps.name_eq⟩

theorem any_iff (h : lib.AreNamed xs names) (n : String) :
    (xs.any fun x => (lib.symbol? x).any (·.name == n)) = true ↔ n ∈ names := by
  rw [List.any_eq_true]
  constructor
  · rintro ⟨x, hx, hany⟩
    obtain ⟨s, hs, hname⟩ := h.mem_names x hx
    rw [hs, Option.any_some, beq_iff_eq] at hany
    exact hany ▸ hname
  · intro hn
    obtain ⟨x, hx, s, hs, hname⟩ := h.exists_mem n hn
    exact ⟨x, hx, by simp [hs, hname]⟩

/-- A name that is taken comes once more, or a symbol with it. -/
theorem concat (h : lib.AreNamed xs names) (hx : lib.symbol? x = some s) :
    lib.AreNamed (xs ++ [x]) (names ++ [s.name]) where
  mem_names y hy := by
    rcases List.mem_append.1 hy with hy | hy
    · obtain ⟨t, ht, hname⟩ := h.mem_names y hy
      exact ⟨t, ht, List.mem_append_left _ hname⟩
    · exact ⟨s, List.mem_singleton.1 hy ▸ hx, by simp⟩
  exists_mem n hn := by
    rcases List.mem_append.1 hn with hn | hn
    · obtain ⟨y, hy, t, ht, hname⟩ := h.exists_mem n hn
      exact ⟨y, List.mem_append_left _ hy, t, ht, hname⟩
    · exact ⟨x, by simp, s, hx, (List.mem_singleton.1 hn).symm⟩

theorem concat_of_mem (h : lib.AreNamed xs names) {n : String} (hn : n ∈ names) :
    lib.AreNamed xs (names ++ [n]) where
  mem_names y hy := by
    obtain ⟨t, ht, hname⟩ := h.mem_names y hy
    exact ⟨t, ht, List.mem_append_left _ hname⟩
  exists_mem m hm := by
    rcases List.mem_append.1 hm with hm | hm
    · exact h.exists_mem m hm
    · exact h.exists_mem m (List.mem_singleton.1 hm ▸ hn)

end AreNamed

/-- The locals of a function have these names, and its labels are those of the table. -/
structure HasLocals (lib : Library) (f : SymbolId) (names : List String)
    (labels : String → Option SymbolId) : Prop where
  library_eq : f.library = lib.id
  entries : ∃ s g, lib.symbol? f = some s ∧ s.kind = .function g ∧
    lib.AreNamed g.locals names ∧ ∀ n, g.labels.get? n = labels n

section Locals

variable {f x : SymbolId} {s : Symbol} {names : List String} {labels : String → Option SymbolId}

theorem Binds.hasLocals (h : lib.Binds owner lib') (hf : lib.HasLocals f names labels)
    (hne : ¬owner f true) : lib'.HasLocals f names labels := by
  obtain ⟨t, g, ht, hkind, hnamed, hlabels⟩ := hf.entries
  obtain ⟨t', ht', -, hkind'⟩ := h.symbol ht
  rw [Symbol.isValue, hkind] at hkind'
  exact ⟨hf.library_eq.trans h.id_eq.symm, t', g, ht', hkind' hne, hnamed.binds h, hlabels⟩

/-- A function is given other entries. -/
theorem IsApart.setFunction (hlib : lib.IsApart) {t : Symbol} {g : FunctionSymbol}
    (hlibrary : f.library = lib.id) (ht : lib.symbol? f = some t) (hkind : t.kind = .function g)
    (g' : FunctionSymbol) : lib.Binds (.function f) (lib.setFunction f g') ∧
      ∃ t', (lib.setFunction f g').symbol? f = some t' ∧ t'.kind = .function g' := by
  constructor
  · refine hlib.binds_update fun u hu => ⟨?_, fun hne => absurd rfl hne⟩
    obtain rfl := Option.some.inj (ht.symm.trans hu)
    rw [hkind]
    refine ⟨rfl, rfl, rfl, ?_, ?_⟩
    · simp [Symbol.isValue, hkind]
    · simp [Symbol.type?, hkind]
  · refine ⟨{ t with kind := .function g' }, ?_, rfl⟩
    rw [Library.setFunction, hlib.symbol?_update, if_pos ⟨rfl, hlibrary⟩, ht, Option.map_some]
    simp [hkind]

/-- A local is entered unless its name is taken. -/
theorem HasLocals.addLocal (h : lib.HasLocals f names labels) (hlib : lib.IsApart)
    (hx : lib.symbol? x = some s) (hne : x ≠ f) :
    ∃ lib', lib.addLocal f x =
        (if s.name ∈ names then .error (.sameName s.name s.span) else .ok (), lib') ∧
      lib.Binds (.function f) lib' ∧ lib'.globals = lib.globals ∧
      lib'.HasLocals f (names ++ [s.name]) labels := by
  obtain ⟨t, g, ht, hkind, hnamed, hlabels⟩ := h.entries
  rw [Library.addLocal, hx, ht]
  simp only [Option.bind_some, Symbol.function?, hkind, hnamed.any_iff]
  by_cases htaken : s.name ∈ names
  · rw [if_pos htaken, if_pos htaken]
    exact ⟨lib, rfl, .refl lib, rfl, h.library_eq, t, g, ht, hkind, hnamed.concat_of_mem htaken,
      hlabels⟩
  · let g' : FunctionSymbol := { g with locals := g.locals ++ [x] }
    let parent (s : Symbol) : Symbol := { s with parentFunction := some f }
    obtain ⟨hbinds, t', ht', hkind'⟩ := hlib.setFunction h.library_eq ht hkind g'
    have hlib' := hbinds.isApart hlib
    have hboth : lib.Binds (.function f) ((lib.setFunction f g').update x parent) :=
      hbinds.trans (hlib'.binds_update fun _ _ => ⟨⟨rfl, rfl, rfl, rfl, rfl⟩, fun _ => rfl⟩)
    rw [if_neg htaken, if_neg htaken]
    refine ⟨_, rfl, hboth, (globals_update ..).trans (globals_update ..),
      h.library_eq.trans hboth.id_eq.symm, t', g', ?_, hkind', (hnamed.concat hx).binds hboth,
      hlabels⟩
    rw [hlib'.symbol?_update, if_neg fun hfx => hne hfx.1.symm, ht']

/-- A label is also a local. It is found under its name if no label had the name before, even if
another local has it. -/
theorem HasLocals.addLabel (h : lib.HasLocals f names labels) (hlib : lib.IsApart)
    (hmem : ∀ n, (labels n).isSome → n ∈ names) (hx : lib.symbol? x = some s) (hne : x ≠ f) :
    ∃ lib', lib.addLabel f x =
        (if s.name ∈ names then .error (.sameName s.name s.span) else .ok (), lib') ∧
      lib.Binds (.function f) lib' ∧ lib'.globals = lib.globals ∧
      lib'.HasLocals f (names ++ [s.name]) (withName labels s.name x) := by
  obtain ⟨t, g, ht, hkind, hnamed, hlabels⟩ := h.entries
  rw [Library.addLabel, hx, hlib.owned?_eq h.library_eq, ht]
  simp only [Option.bind_some, Symbol.function?, hkind, OrderedMap.contains, hlabels]
  by_cases htaken : (labels s.name).isSome
  · rw [if_pos htaken, if_pos (hmem _ htaken), withName_of_isSome htaken]
    exact ⟨lib, rfl, .refl lib, rfl, h.library_eq, t, g, ht, hkind,
      hnamed.concat_of_mem (hmem _ htaken), hlabels⟩
  · rw [if_neg htaken]
    obtain ⟨hbinds, t', ht', hkind'⟩ :=
      hlib.setFunction h.library_eq ht hkind { g with labels := g.labels.insert s.name x }
    obtain ⟨s', hs', hkeeps, -⟩ := hbinds.symbol hx
    have hlocals : (lib.setFunction f { g with labels := g.labels.insert s.name x }).HasLocals f
        names (withName labels s.name x) :=
      ⟨h.library_eq.trans hbinds.id_eq.symm, t', _, ht', hkind', hnamed.binds hbinds,
        get?_insert_eq_withName hlabels (Option.not_isSome_iff_eq_none.1 htaken) x⟩
    obtain ⟨lib', hrun, hbinds', hglobals, hlocals'⟩ :=
      hlocals.addLocal (hbinds.isApart hlib) hs' hne
    rw [hkeeps.name_eq, hkeeps.span_eq] at hrun
    rw [hkeeps.name_eq] at hlocals'
    exact ⟨lib', hrun, hbinds.trans hbinds', hglobals.trans (globals_update ..), hlocals'⟩

end Locals

/-! ## Types of one form -/

/-- All symbols stay, though they may be noted to be declared by other nodes. -/
def Redeclares (lib lib' : Library) : Prop :=
  ∀ ⦃x s⦄, lib.symbol? x = some s → ∃ declaration, lib'.symbol? x = some { s with declaration }

theorem Redeclares.of_symbol? (h : ∀ {x s}, lib.symbol? x = some s → lib'.symbol? x = some s) :
    lib.Redeclares lib' := fun _ s hs => ⟨s.declaration, h hs⟩

theorem Redeclares.trans {lib'' : Library} (h : lib.Redeclares lib') (h' : lib'.Redeclares lib'') :
    lib.Redeclares lib'' := by
  intro x s hs
  obtain ⟨declaration, hs'⟩ := h hs
  obtain ⟨declaration', hs''⟩ := h' hs'
  exact ⟨declaration', hs''⟩

theorem Redeclares.nameOf {x : SymbolId} {s : Symbol} (h : lib.Redeclares lib')
    (hs : lib.symbol? x = some s) : lib'.nameOf x = lib.nameOf x := by
  obtain ⟨declaration, hs'⟩ := h hs
  rw [Library.nameOf, Library.nameOf, hs, hs']

/-- A type of the library's own. -/
def HasForm (lib : Library) (x : SymbolId) (name : String) (form : TypeForm) : Prop :=
  x.library = lib.id ∧ ∃ s, lib.symbol? x = some s ∧ s.name = name ∧
    s.type?.map TypeSymbol.form = some form ∧ s.type = none

section Form

variable {x : SymbolId} {name name' : String} {form form' : TypeForm}

theorem HasForm.mono (hx : lib.HasForm x name form) (hid : lib'.id = lib.id)
    (h : lib.Redeclares lib') : lib'.HasForm x name form := by
  obtain ⟨hlibrary, s, hs, hrest⟩ := hx
  obtain ⟨declaration, hs'⟩ := h hs
  exact ⟨hlibrary.trans hid.symm, _, hs', hrest⟩

theorem HasForm.form_eq (h : lib.HasForm x name form) (h' : lib.HasForm x name' form') :
    form = form' := by
  obtain ⟨-, s, hs, -, hform, -⟩ := h
  obtain ⟨-, s', hs', -, hform', -⟩ := h'
  obtain rfl := Option.some.inj (hs.symm.trans hs')
  exact Option.some.inj (hform.symm.trans hform')

end Form

/-! ## Members of classes -/

/-- The members of a class are those of the table. -/
structure HasMembers (lib : Library) (x : SymbolId) (members : String → Option SymbolId) :
    Prop where
  library_eq : x.library = lib.id
  entries : ∃ s t, lib.symbol? x = some s ∧ s.kind = .type t ∧ ∀ n, t.members.get? n = members n

section Members

variable {x y : SymbolId} {s : Symbol} {members : String → Option SymbolId}

theorem Binds.hasMembers (h : lib.Binds owner lib') (hx : lib.HasMembers x members)
    (hne : ¬owner x false) : lib'.HasMembers x members := by
  obtain ⟨s, t, hs, hkind, hmembers⟩ := hx.entries
  obtain ⟨s', hs', -, hkind'⟩ := h.symbol hs
  rw [Symbol.isValue, hkind] at hkind'
  exact ⟨hx.library_eq.trans h.id_eq.symm, s', t, hs', hkind' hne, hmembers⟩

theorem HasMembers.mono (hx : lib.HasMembers x members) (hid : lib'.id = lib.id)
    (h : lib.Redeclares lib') : lib'.HasMembers x members := by
  obtain ⟨s, t, hs, hkind, hmembers⟩ := hx.entries
  obtain ⟨declaration, hs'⟩ := h hs
  exact ⟨hx.library_eq.trans hid.symm, _, t, hs', hkind, hmembers⟩

theorem Interns.hasMembers (h : lib.Interns lib') (hx : lib.HasMembers x members) :
    lib'.HasMembers x members :=
  hx.mono h.id_eq (.of_symbol? h.symbol?_mono)

theorem IsApart.binds_setMembers (hlib : lib.IsApart) (x : SymbolId) (members : Names) :
    lib.Binds (.classes [some x]) (lib.setMembers x members) := by
  refine hlib.binds_update fun u _ => ?_
  cases hkind : u.kind with
  | type t =>
    refine ⟨⟨rfl, rfl, rfl, ?_, ?_⟩, fun hne => absurd ⟨List.mem_singleton_self _, ?_⟩ hne⟩
    · simp [Symbol.isValue, hkind]
    · simp [Symbol.type?, hkind]
    · simp [Symbol.isValue, hkind]
  | _ => exact ⟨⟨rfl, rfl, rfl, rfl, rfl⟩, fun _ => hkind⟩

/-- A member that is entered knows its owner. -/
theorem IsApart.binds_enterMember (hlib : lib.IsApart) (x y : SymbolId) (members : Names) :
    lib.Binds (.classes [some x])
      ((lib.setMembers x members).update y fun s => { s with parentType := some x }) :=
  have hbinds := hlib.binds_setMembers x members
  hbinds.trans ((hbinds.isApart hlib).binds_update
    fun _ _ => ⟨⟨rfl, rfl, rfl, rfl, rfl⟩, fun _ => rfl⟩)

/-- Whatever the owner is, no other symbol gets entries. -/
theorem IsApart.addMember (hlib : lib.IsApart) (hy : lib.symbol? y = some s) (x : SymbolId) :
    lib.Binds (.classes [some x]) (lib.addMember x y).2 ∧ (lib.addMember x y).2.globals = lib.globals ∧
      ∀ e, (lib.addMember x y).1 = .error e → e.span = s.span := by
  simp only [Library.addMember, hy]
  split
  · exact ⟨.refl lib, rfl, fun e he => by rw [← Except.error.inj he]; rfl⟩
  · split
    · exact ⟨.refl lib, rfl, fun e he => by rw [← Except.error.inj he]; rfl⟩
    · exact ⟨hlib.binds_enterMember x y _, (globals_update ..).trans (globals_update ..),
        fun e he => absurd he (by simp)⟩

/-- A member is entered into a class unless its name is taken. -/
theorem HasMembers.addMember (h : lib.HasMembers x members) (hlib : lib.IsApart)
    (hy : lib.symbol? y = some s) (hne : y ≠ x) :
    (lib.addMember x y).1 =
        (if (members s.name).isSome then .error (.sameName s.name s.span) else .ok ()) ∧
      (lib.addMember x y).2.HasMembers x (withName members s.name y) := by
  obtain ⟨u, t, hu, hkind, hmembers⟩ := h.entries
  simp only [Library.addMember, hy, hlib.owned?_eq h.library_eq, hu, Option.bind_some,
    Symbol.type?, hkind, OrderedMap.contains, hmembers]
  by_cases htaken : (members s.name).isSome
  · rw [if_pos htaken, if_pos htaken, withName_of_isSome htaken]
    exact ⟨rfl, h⟩
  · rw [if_neg htaken, if_neg htaken]
    have hbinds := hlib.binds_setMembers x (t.members.insert s.name y)
    have hlib' := hbinds.isApart hlib
    refine ⟨rfl, h.library_eq.trans (hlib.binds_enterMember x y _).id_eq.symm,
      { u with kind := .type { t with members := t.members.insert s.name y } }, _, ?_, rfl,
      get?_insert_eq_withName hmembers (Option.not_isSome_iff_eq_none.1 htaken) y⟩
    rw [hlib'.symbol?_update, if_neg fun hxy => hne hxy.1.symm, Library.setMembers,
      hlib.symbol?_update, if_pos ⟨rfl, h.library_eq⟩, hu, Option.map_some]
    simp [hkind]

end Members

end Library

end Sable
