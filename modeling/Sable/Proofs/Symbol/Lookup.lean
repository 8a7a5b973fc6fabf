import Mathlib.Tactic.Common
import Sable.Symbol.Library

/-!
# Look-up of symbols

A library whose number no other library within reach has finds its own symbols by their place, and
all others through its links. So a change of one symbol is seen by all that look it up.

## Main definitions

* `Library.IsApart`: no other library within reach has the same number.
* `Library.form?`: the name and the form of a type.

## Main statements

* `Library.IsApart.symbol?_alloc`, `Library.IsApart.symbol?_update`: look-up after a change.
-/
namespace Sable

/-! ## Maps -/

namespace OrderedMap

variable {κ α : Type} [DecidableEq κ]

theorem contains_eq_true {m : OrderedMap κ α} {k : κ} :
    m.contains k = true ↔ ∃ v, m.get? k = some v := by
  rw [contains, Option.isSome_iff_exists]

theorem contains_eq_false {m : OrderedMap κ α} {k : κ} :
    m.contains k = false ↔ m.get? k = none := by
  rw [contains, Option.isSome_eq_false_iff, Option.isNone_iff_eq_none]

theorem get?_insertNew (m : OrderedMap κ α) (k k' : κ) (v : α) :
    (m.insertNew k v).get? k' = if k' = k then some ((m.get? k).getD v) else m.get? k' := by
  unfold insertNew
  cases h : m.contains k with
  | true =>
    obtain ⟨v', hv'⟩ := contains_eq_true.1 h
    by_cases hk : k' = k
    · simp [hk, hv']
    · simp [hk]
  | false => simp [get?_insert, contains_eq_false.1 h]

end OrderedMap

namespace Library

/-! ## Look-up -/

/-- No other library within reach has the number of this one. -/
def IsApart (lib : Library) : Prop := ∀ dep ∈ reachAll lib.dependencies, dep.id ≠ lib.id

section Apart

variable {lib lib' : Library}

theorem IsApart.congr (h : lib.IsApart) (hid : lib'.id = lib.id)
    (hdependencies : lib'.dependencies = lib.dependencies) : lib'.IsApart := by
  intro dep hdep
  rw [hid]
  exact h dep (hdependencies ▸ hdep)

/-- Look-up depends on the symbols and the links only. -/
theorem symbol?_congr (hid : lib'.id = lib.id) (hsymbols : lib'.symbols = lib.symbols)
    (hdependencies : lib'.dependencies = lib.dependencies) (x : SymbolId) :
    lib'.symbol? x = lib.symbol? x := by
  simp only [symbol?, firstSome?_eq, reach_eq, List.findSome?_cons, owned?, hid, hsymbols,
    hdependencies]

@[simp] theorem symbol?_publish (lib : Library) (name : String) (x y : SymbolId) :
    (lib.publish name x).symbol? y = lib.symbol? y :=
  have hcongr := @symbol?_congr lib (lib.publish name x)
  hcongr rfl rfl rfl y

theorem IsApart.symbol? (h : lib.IsApart) (x : SymbolId) : lib.symbol? x =
    if x.library = lib.id then lib.symbols[x.index]?
    else (reachAll lib.dependencies).findSome? (·.owned? x) := by
  rw [Library.symbol?, firstSome?_eq, reach_eq, List.findSome?_cons, owned?]
  by_cases hx : x.library = lib.id
  · have hnone : (reachAll lib.dependencies).findSome? (·.owned? x) = none := by
      rw [List.findSome?_eq_none_iff]
      intro dep hdep
      rw [owned?, if_neg]
      rw [hx]
      exact (h dep hdep).symm
    rw [hnone, if_pos hx]
    cases lib.symbols[x.index]? <;> rfl
  · rw [if_neg hx, if_neg hx]

theorem IsApart.owned?_eq (h : lib.IsApart) {x : SymbolId} (hx : x.library = lib.id) :
    lib.owned? x = lib.symbol? x := by
  rw [h.symbol?, owned?, if_pos hx, if_pos hx]

/-- The new symbol has a number that no other has. -/
theorem IsApart.symbol?_alloc_fst (h : lib.IsApart) (s : Symbol) :
    lib.symbol? (lib.alloc s).1 = none := by
  rw [h.symbol?]
  simp [Library.alloc]

theorem IsApart.symbol?_alloc (h : lib.IsApart) (s : Symbol) (x : SymbolId) :
    (lib.alloc s).2.symbol? x = if x = (lib.alloc s).1 then some s else lib.symbol? x := by
  have halloc : (lib.alloc s).2.IsApart := h.congr rfl rfl
  rw [halloc.symbol?, h.symbol?]
  obtain ⟨library, index⟩ := x
  simp only [Library.alloc, SymbolId.mk.injEq, Array.getElem?_push]
  by_cases hx : library = lib.id <;> by_cases hi : index = lib.symbols.size <;> simp [hx, hi]

theorem exists_update_eq (lib : Library) (x : SymbolId) (f : Symbol → Symbol) :
    ∃ symbols, lib.update x f = { lib with symbols } := by
  by_cases hx : x.library = lib.id
  · exact ⟨lib.symbols.modify x.index f, if_pos hx⟩
  · have hupdate : lib.update x f = lib := if_neg hx
    rw [hupdate]
    cases lib
    exact ⟨_, rfl⟩

theorem IsApart.update (h : lib.IsApart) (x : SymbolId) (f : Symbol → Symbol) :
    (lib.update x f).IsApart := by
  obtain ⟨symbols, hupdate⟩ := exists_update_eq lib x f
  rw [hupdate]
  exact h.congr rfl rfl

theorem IsApart.symbol?_update (h : lib.IsApart) (x : SymbolId) (f : Symbol → Symbol)
    (y : SymbolId) : (lib.update x f).symbol? y =
      if y = x ∧ x.library = lib.id then (lib.symbol? y).map f else lib.symbol? y := by
  have hupdate := h.update x f
  rw [hupdate.symbol?, h.symbol?]
  unfold Library.update
  obtain ⟨library, index⟩ := y
  obtain ⟨library', index'⟩ := x
  by_cases hx : library' = lib.id
  · simp only [hx, if_true, SymbolId.mk.injEq, Array.getElem?_modify, and_true]
    by_cases hy : library = lib.id <;> by_cases hi : index = index' <;> simp [hy, hi, eq_comm]
  · simp [hx]


/-! ## Types -/

/-- The name and the form of a type. -/
def form? (lib : Library) (id : SymbolId) : Option (String × TypeForm) :=
  (lib.symbol? id).bind fun s => s.type?.map fun t => (s.name, t.form)

theorem form?_eq_some {id : SymbolId} {name : String} {form : TypeForm} :
    lib.form? id = some (name, form) ↔
      ∃ s t, lib.symbol? id = some s ∧ s.kind = .type t ∧ s.name = name ∧ t.form = form := by
  simp only [form?, Option.bind_eq_some_iff, Option.map_eq_some_iff, Prod.mk.injEq]
  constructor
  · rintro ⟨s, hs, t, ht, hname, hform⟩
    refine ⟨s, t, hs, ?_, hname, hform⟩
    unfold Symbol.type? at ht
    split at ht
    · next hkind => rw [hkind, Option.some.inj ht]
    · simp at ht
  · rintro ⟨s, t, hs, hkind, hname, hform⟩
    exact ⟨s, hs, t, by rw [Symbol.type?, hkind], hname, hform⟩

theorem type?_of_form? {id : SymbolId} {name : String} {form : TypeForm}
    (h : lib.form? id = some (name, form)) : ∃ t, lib.type? id = some t ∧ t.form = form := by
  obtain ⟨s, t, hs, hkind, -, hform⟩ := form?_eq_some.1 h
  refine ⟨t, ?_, hform⟩
  rw [type?, hs, Option.bind_some, Symbol.type?, hkind]

/-- The form of a symbol in a library that has one symbol more. -/
theorem form?_of_symbol? {x : SymbolId} {s : Symbol}
    (h : ∀ y, lib'.symbol? y = if y = x then some s else lib.symbol? y) (y : SymbolId) :
    lib'.form? y = if y = x then s.type?.map fun t => (s.name, t.form) else lib.form? y := by
  rw [form?, form?, h]
  split <;> rfl

end Apart

end Library

end Sable
