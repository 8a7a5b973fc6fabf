import Sable.Proofs.Symbol.Stable

/-!
# Names lead to their symbols

What is entered by name is entered under the name of the symbol: the published names of a library,
the members of a type and the labels of a function. The locals of a function are entered without
their names, but no two of them have the same one.

Symbols are never taken away, short of emptying the library, and keep their names. So an entry that
was right when it was made stays right.

## Main definitions

* `Symbol.Same`: one symbol at two times.
* `Library.Grows`: all symbols that can be looked up stay.
* `Library.HasNames`: all entries lead to symbols of the name that they are entered under.

## Main statements

* `Library.IsApart.proceeds_step`, `Library.HasNames.reset`: all steps.
* `Library.link_symbol?`, `Library.HasNames.link`: links.
* `Library.symbol?_of_step`: a step that answers with a symbol.
-/
namespace Sable

/-- One symbol at two times. What is entered into it and what is noted of it may differ. -/
structure Symbol.Same (s s' : Symbol) : Prop where
  name_eq : s'.name = s.name
  sort_eq : s'.sort = s.sort
  span_eq : s'.span = s.span

namespace Symbol.Same

variable {s s' s'' : Symbol}

theorem refl (s : Symbol) : s.Same s := ⟨rfl, rfl, rfl⟩

theorem trans (h : s.Same s') (h' : s'.Same s'') : s.Same s'' :=
  ⟨h'.name_eq.trans h.name_eq, h'.sort_eq.trans h.sort_eq, h'.span_eq.trans h.span_eq⟩

end Symbol.Same

namespace Library

/-- The symbol can be looked up, and this is its name. -/
def Named (lib : Library) (x : SymbolId) (name : String) : Prop :=
  ∃ s, lib.symbol? x = some s ∧ s.name = name

/-- Each entry of the table leads to a symbol of the name that it is entered under. -/
def Lists (lib : Library) (names : Names) : Prop :=
  ∀ name x, names.get? name = some x → lib.Named x name

/-- The symbols can be looked up, and no two of them have the same name. -/
def Distinct (lib : Library) (xs : List SymbolId) : Prop :=
  (∀ x ∈ xs, ∃ name, lib.Named x name) ∧
    xs.Pairwise fun x y => ∀ name, lib.Named x name → ¬lib.Named y name

end Library

/-- What is entered into the symbol has its names. -/
def SymbolKind.HasNames (lib : Library) : SymbolKind → Prop
  | .type t => lib.Lists t.members
  | .function f => lib.Distinct f.locals ∧ lib.Lists f.labels
  | .variable _ | .label => True

namespace Library

variable {lib lib' lib'' : Library} {x : SymbolId} {s : Symbol}

/-- All that is entered into the library, and into symbols of its own, has its names. -/
structure HasNames (lib : Library) : Prop where
  globals : lib.Lists lib.globals
  symbol : ∀ x s, lib.owned? x = some s → s.kind.HasNames lib

/-- All symbols that can be looked up stay. -/
def Retains (lib lib' : Library) : Prop :=
  ∀ x s, lib.symbol? x = some s → ∃ s', lib'.symbol? x = some s' ∧ s.Same s'

/-- The library has more than it had: no symbol of its own is taken away, and each one that can be
looked up stays the same. -/
structure Grows (lib lib' : Library) : Prop where
  id_eq : lib'.id = lib.id
  size_le : lib.symbols.size ≤ lib'.symbols.size
  retains : lib.Retains lib'

/-- The library keeps its links and all symbols, and its names, if it has them. -/
structure Proceeds (lib lib' : Library) : Prop where
  id_eq : lib'.id = lib.id
  dependencies_eq : lib'.dependencies = lib.dependencies
  retains : lib.Retains lib'
  hasNames : lib.HasNames → lib'.HasNames

/-! ## What is retained -/

theorem Retains.refl (lib : Library) : lib.Retains lib := fun _ s hs => ⟨s, hs, .refl s⟩

theorem Retains.trans (h : lib.Retains lib') (h' : lib'.Retains lib'') : lib.Retains lib'' := by
  intro x s hs
  obtain ⟨s', hs', hsame⟩ := h x s hs
  obtain ⟨s'', hs'', hsame'⟩ := h' x s' hs'
  exact ⟨s'', hs'', hsame.trans hsame'⟩

theorem Retains.of_symbol? (h : ∀ x s, lib.symbol? x = some s → lib'.symbol? x = some s) :
    lib.Retains lib' := fun x s hs => ⟨s, h x s hs, .refl s⟩

theorem Grows.refl (lib : Library) : lib.Grows lib := ⟨rfl, Nat.le_refl _, .refl lib⟩

theorem Grows.trans (h : lib.Grows lib') (h' : lib'.Grows lib'') : lib.Grows lib'' :=
  ⟨h'.id_eq.trans h.id_eq, Nat.le_trans h.size_le h'.size_le, h.retains.trans h'.retains⟩

namespace Proceeds

theorem refl (lib : Library) : lib.Proceeds lib := ⟨rfl, rfl, .refl lib, fun h => h⟩

theorem trans (h : lib.Proceeds lib') (h' : lib'.Proceeds lib'') : lib.Proceeds lib'' :=
  ⟨h'.id_eq.trans h.id_eq, h'.dependencies_eq.trans h.dependencies_eq,
    h.retains.trans h'.retains, fun hnames => h'.hasNames (h.hasNames hnames)⟩

theorem isApart (h : lib.Proceeds lib') (hlib : lib.IsApart) : lib'.IsApart :=
  hlib.congr h.id_eq h.dependencies_eq

end Proceeds

section Retained

variable {name : String}

theorem Named.retained (hx : lib.Named x name) (h : lib.Retains lib') : lib'.Named x name := by
  obtain ⟨s, hs, rfl⟩ := hx
  obtain ⟨s', hs', hsame⟩ := h x s hs
  exact ⟨s', hs', hsame.name_eq⟩

theorem Named.unique {name' : String} (hx : lib.Named x name) (hx' : lib.Named x name') :
    name = name' := by
  obtain ⟨s, hs, rfl⟩ := hx
  obtain ⟨s', hs', rfl⟩ := hx'
  rw [Option.some.inj (hs.symm.trans hs')]

theorem Lists.retained {names : Names} (hnames : lib.Lists names) (h : lib.Retains lib') :
    lib'.Lists names :=
  fun name x hx => (hnames name x hx).retained h

theorem Distinct.retained {xs : List SymbolId} (hxs : lib.Distinct xs) (h : lib.Retains lib') :
    lib'.Distinct xs := by
  refine ⟨fun x hx => (hxs.1 x hx).imp fun _ hname => hname.retained h, ?_⟩
  refine hxs.2.imp_of_mem fun {x y} hx hy hne name hnx hny => ?_
  -- the names that the symbols have now are those that they had before
  obtain ⟨n, hn⟩ := hxs.1 x hx
  obtain ⟨m, hm⟩ := hxs.1 y hy
  obtain rfl := hnx.unique (hn.retained h)
  obtain rfl := hny.unique (hm.retained h)
  exact hne _ hn hm

theorem kindHasNames_retained {kind : SymbolKind} (hkind : kind.HasNames lib)
    (h : lib.Retains lib') : kind.HasNames lib' := by
  cases kind with
  | type t => exact Lists.retained hkind h
  | function f => exact ⟨hkind.1.retained h, hkind.2.retained h⟩
  | «variable» | label => trivial

theorem lists_empty (lib : Library) : lib.Lists .empty := by
  intro name x hx
  simp at hx

theorem Lists.insert {names : Names} (hnames : lib.Lists names) (hx : lib.Named x name) :
    lib.Lists (names.insert name x) := by
  intro n y hy
  rw [OrderedMap.get?_insert] at hy
  split at hy
  · next heq => rwa [heq, ← Option.some.inj hy]
  · exact hnames n y hy

theorem distinct_nil (lib : Library) : lib.Distinct [] := ⟨by simp, .nil⟩

theorem Distinct.concat {xs : List SymbolId} (hxs : lib.Distinct xs) (hs : lib.symbol? x = some s)
    (hnew : xs.any (fun y => (lib.symbol? y).any (·.name == s.name)) = false) :
    lib.Distinct (xs ++ [x]) := by
  refine ⟨?_, List.pairwise_append.2 ⟨hxs.2, List.pairwise_singleton _ _, ?_⟩⟩
  · rw [List.forall_mem_append]
    exact ⟨hxs.1, by simpa using ⟨s.name, s, hs, rfl⟩⟩
  · intro y hy z hz name hny hnz
    obtain rfl := List.mem_singleton.1 hz
    obtain ⟨t, ht, rfl⟩ := hny
    have hname := hnz.unique ⟨s, hs, rfl⟩
    have hne := List.any_eq_false.1 hnew y hy
    simp [ht, hname] at hne

end Retained

/-- What is entered into a function of the library's own. -/
theorem HasNames.function {f : FunctionSymbol} (hnames : lib.HasNames) (hlib : lib.IsApart)
    (hx : x.library = lib.id) (hf : (lib.symbol? x).bind Symbol.function? = some f) :
    (SymbolKind.function f).HasNames lib := by
  obtain ⟨u, hu, hf⟩ := Option.bind_eq_some_iff.1 hf
  have hkind := hnames.symbol x u ((hlib.owned?_eq hx).trans hu)
  unfold Symbol.function? at hf
  split at hf
  · next heq => rwa [heq, Option.some.inj hf] at hkind
  · simp at hf

/-! ## Single changes -/

/-- What is new in the tables of the library, and in the symbols of its own, has its names. -/
theorem IsApart.hasNames_of_retains (hlib : lib.IsApart) (hnames : lib.HasNames)
    (hid : lib'.id = lib.id) (hdependencies : lib'.dependencies = lib.dependencies)
    (hretains : lib.Retains lib')
    (hglobals : ∀ n y, lib'.globals.get? n = some y → lib.globals.get? n = some y ∨ lib'.Named y n)
    (hkind : ∀ y s, lib'.symbol? y = some s → y.library = lib.id →
      (∃ t, lib.symbol? y = some t ∧ s.kind = t.kind) ∨ s.kind.HasNames lib') : lib'.HasNames := by
  refine ⟨fun n y hy => ?_, fun y s hs => ?_⟩
  · exact (hglobals n y hy).elim (fun hy => (hnames.globals n y hy).retained hretains) fun h => h
  · have hlib' : lib'.IsApart := hlib.congr hid hdependencies
    have hy : y.library = lib.id := (owned?_eq_some.1 hs).1.symm.trans hid
    rw [hlib'.owned?_eq (hy.trans hid.symm)] at hs
    rcases hkind y s hs hy with ⟨t, ht, heq⟩ | h
    · rw [← hlib.owned?_eq hy] at ht
      rw [heq]
      exact kindHasNames_retained (hnames.symbol y t ht) hretains
    · exact h

namespace IsApart

/-- One symbol is new, and nothing is entered into it yet. -/
theorem proceeds_of_new (hlib : lib.IsApart) (hid : lib'.id = lib.id)
    (hdependencies : lib'.dependencies = lib.dependencies) (hfresh : lib.symbol? x = none)
    (hsymbol : ∀ y, lib'.symbol? y = if y = x then some s else lib.symbol? y)
    (hs : s.kind.HasNames lib') (hglobals : ∀ n y, lib'.globals.get? n = some y →
      lib.globals.get? n = some y ∨ n = s.name ∧ y = x) : lib.Proceeds lib' := by
  have hretains : lib.Retains lib' := .of_symbol? fun y t ht => by
    rw [hsymbol, if_neg, ht]
    rintro rfl
    simp [hfresh] at ht
  refine ⟨hid, hdependencies, hretains, fun hnames => ?_⟩
  refine hlib.hasNames_of_retains hnames hid hdependencies hretains (fun n y hy => ?_)
    fun y t ht _ => ?_
  · refine (hglobals n y hy).imp_right ?_
    rintro ⟨rfl, rfl⟩
    exact ⟨s, (hsymbol y).trans (if_pos rfl), rfl⟩
  · rw [hsymbol] at ht
    split at ht
    · exact .inr (Option.some.inj ht ▸ hs)
    · exact .inl ⟨t, ht, rfl⟩

theorem proceeds_alloc (hlib : lib.IsApart) (hs : s.kind.HasNames (lib.alloc s).2) :
    lib.Proceeds (lib.alloc s).2 :=
  hlib.proceeds_of_new rfl rfl (hlib.symbol?_alloc_fst s) (hlib.symbol?_alloc s) hs
    fun _ _ hy => .inl hy

theorem named_alloc (hlib : lib.IsApart) (s : Symbol) :
    (lib.alloc s).2.Named (lib.alloc s).1 s.name :=
  ⟨s, (hlib.symbol?_alloc s _).trans (if_pos rfl), rfl⟩

theorem proceeds_publish (hlib : lib.IsApart) {name : String} (hx : lib.Named x name) :
    lib.Proceeds (lib.publish name x) := by
  have hsymbol := symbol?_publish lib name x
  have hretains : lib.Retains (lib.publish name x) := .of_symbol? fun y s hs => (hsymbol y).trans hs
  refine ⟨rfl, rfl, hretains, fun hnames => ?_⟩
  refine hlib.hasNames_of_retains hnames rfl rfl hretains (fun n y hy => ?_) fun y s hs _ => ?_
  · rw [publish, OrderedMap.get?_insert] at hy
    split at hy
    · next heq => exact .inr (by rw [heq, ← Option.some.inj hy]; exact hx.retained hretains)
    · exact .inl hy
  · rw [hsymbol] at hs
    exact .inl ⟨s, hs, rfl⟩

/-- A symbol is changed, and what is entered into it then has its names. -/
theorem proceeds_update (hlib : lib.IsApart) (x : SymbolId) {f : Symbol → Symbol}
    (hf : ∀ s : Symbol, s.Same (f s)) (hkind : lib.HasNames → ∀ s, lib.owned? x = some s →
      (f s).kind = s.kind ∨ (f s).kind.HasNames lib) : lib.Proceeds (lib.update x f) := by
  obtain ⟨symbols, heq⟩ := exists_update_eq lib x f
  have hid : (lib.update x f).id = lib.id := by rw [heq]
  have hdependencies : (lib.update x f).dependencies = lib.dependencies := by rw [heq]
  have hretains : lib.Retains (lib.update x f) := by
    intro y s hs
    rw [hlib.symbol?_update, hs]
    split
    · exact ⟨f s, rfl, hf s⟩
    · exact ⟨s, rfl, .refl s⟩
  refine ⟨hid, hdependencies, hretains, fun hnames => ?_⟩
  refine hlib.hasNames_of_retains hnames hid hdependencies hretains (fun n y hy => .inl ?_)
    fun y s hs _ => ?_
  · rwa [heq] at hy
  · rw [hlib.symbol?_update] at hs
    split at hs
    · next hyx =>
      obtain ⟨t, ht, rfl⟩ := Option.map_eq_some_iff.1 hs
      have howned : lib.owned? x = some t := by rw [hlib.owned?_eq hyx.2, ← hyx.1, ht]
      exact (hkind hnames t howned).imp (fun h => ⟨t, ht, h⟩)
        fun h => kindHasNames_retained h hretains
    · exact .inl ⟨s, hs, rfl⟩

/-! ## Types -/

theorem proceeds_makesType (hlib : lib.IsApart) {form : TypeForm}
    (h : lib.MakesType x s ⟨form, .empty⟩ lib') : lib.Proceeds lib' := by
  refine hlib.proceeds_of_new h.id_eq h.dependencies_eq h.fresh h.symbol?_eq
    (by rw [h.kind_eq]; exact lists_empty lib') fun n y hy => ?_
  rw [h.globals_eq, OrderedMap.get?_insertNew] at hy
  split at hy
  · next hn =>
    cases hname : lib.globals.get? s.name with
    | none =>
      rw [hname] at hy
      exact .inr ⟨hn, (Option.some.inj hy).symm⟩
    | some z =>
      rw [hname] at hy
      exact .inl (by rw [hn, hname]; exact hy)
  · exact .inl hy

theorem proceeds_pointerTo (hlib : lib.IsApart) (p : SymbolId) :
    lib.Proceeds (lib.pointerTo p).2 := by
  rcases hlib.pointerTo_cases p with ⟨x, -, hrun⟩ | ⟨-, hmakes, -⟩
  · rw [hrun]
    exact .refl lib
  · exact hlib.proceeds_makesType hmakes

theorem proceeds_pointerType (hlib : lib.IsApart) (base : SymbolId) (depth : Nat) :
    lib.Proceeds (lib.pointerType base depth).2 := by
  induction depth generalizing lib base with
  | zero => exact .refl lib
  | succ depth ih =>
    have hfirst := hlib.proceeds_pointerTo base
    exact hfirst.trans (ih (hfirst.isApart hlib) _)

theorem proceeds_functionType (hlib : lib.IsApart) (ps : List SymbolId) (r : SymbolId) :
    lib.Proceeds (lib.functionType ps r).2 := by
  rcases hlib.functionType_cases ps r with ⟨x, -, hrun⟩ | ⟨-, hmakes, -⟩
  · rw [hrun]
    exact .refl lib
  · exact hlib.proceeds_makesType hmakes

theorem proceeds_createType (hlib : lib.IsApart) (name : String) (isGlobal : Bool) (span : Span) :
    lib.Proceeds (lib.createType name isGlobal span).2 := by
  unfold Library.createType
  split
  · split
    · exact hlib.proceeds_pointerType _ _
    · exact .refl lib
  · split
    · exact .refl lib
    · have hclass := hlib.proceeds_alloc (s := { name, kind := .type ⟨.classType, .empty⟩, span })
        (lists_empty _)
      cases isGlobal with
      | true => exact hclass.trans ((hclass.isApart hlib).proceeds_publish (hlib.named_alloc _))
      | false => exact hclass

/-! ## Registration -/

theorem proceeds_registerGlobal (hlib : lib.IsApart) (x : SymbolId) :
    lib.Proceeds (lib.registerGlobal x).2 := by
  unfold registerGlobal
  split
  · exact .refl lib
  · next s hs =>
    split
    · exact .refl lib
    · exact hlib.proceeds_publish ⟨s, hs, rfl⟩

theorem proceeds_setMembers (hlib : lib.IsApart) (x : SymbolId) {members : Names}
    (hmembers : lib.HasNames → lib.Lists members) : lib.Proceeds (lib.setMembers x members) := by
  refine hlib.proceeds_update x (fun s => ?_) fun hnames s _ => ?_
  · split
    · next t hkind => exact ⟨rfl, by rw [Symbol.sort, Symbol.sort, hkind]; rfl, rfl⟩
    · exact .refl s
  · split
    · exact .inr (hmembers hnames)
    · exact .inl rfl

theorem proceeds_setFunction (hlib : lib.IsApart) (x : SymbolId) {f : FunctionSymbol}
    (hf : lib.HasNames → x.library = lib.id → (SymbolKind.function f).HasNames lib) :
    lib.Proceeds (lib.setFunction x f) := by
  refine hlib.proceeds_update x (fun s => ?_) fun hnames s hs => ?_
  · split
    · next g hkind => exact ⟨rfl, by rw [Symbol.sort, Symbol.sort, hkind]; rfl, rfl⟩
    · exact .refl s
  · split
    · exact .inr (hf hnames (owned?_eq_some.1 hs).1.symm)
    · exact .inl rfl

theorem proceeds_addMember (hlib : lib.IsApart) (owner member : SymbolId) :
    lib.Proceeds (lib.addMember owner member).2 := by
  unfold Library.addMember
  split
  · exact .refl lib
  next s hs =>
  split
  · exact .refl lib
  next t ht =>
  split
  · exact .refl lib
  have hentered : lib.Proceeds (lib.setMembers owner (t.members.insert s.name member)) :=
    hlib.proceeds_setMembers owner fun hnames => by
      obtain ⟨u, hu, ht⟩ := Option.bind_eq_some_iff.1 ht
      have hkind := hnames.symbol owner u hu
      unfold Symbol.type? at ht
      split at ht
      · next heq =>
        rw [heq, Option.some.inj ht] at hkind
        exact Lists.insert hkind ⟨s, hs, rfl⟩
      · simp at ht
  exact hentered.trans ((hentered.isApart hlib).proceeds_update member (fun _ => ⟨rfl, rfl, rfl⟩)
    fun _ _ _ => .inl rfl)

theorem proceeds_addLocal (hlib : lib.IsApart) (function member : SymbolId) :
    lib.Proceeds (lib.addLocal function member).2 := by
  unfold Library.addLocal
  split
  · exact .refl lib
  next s hs =>
  split
  · exact .refl lib
  next f hf =>
  split
  · exact .refl lib
  next hnew =>
  have hentered := hlib.proceeds_setFunction function (f := { f with locals := f.locals ++ [member] })
    fun hnames hfunction =>
      have hkind := hnames.function hlib hfunction hf
      ⟨hkind.1.concat hs (by simpa using hnew), hkind.2⟩
  exact hentered.trans ((hentered.isApart hlib).proceeds_update member (fun _ => ⟨rfl, rfl, rfl⟩)
    fun _ _ _ => .inl rfl)

theorem proceeds_addLabel (hlib : lib.IsApart) (function label : SymbolId) :
    lib.Proceeds (lib.addLabel function label).2 := by
  unfold Library.addLabel
  split
  · exact .refl lib
  next s hs =>
  split
  · exact .refl lib
  next f hf =>
  split
  · exact .refl lib
  have hentered := hlib.proceeds_setFunction function
    (f := { f with labels := f.labels.insert s.name label }) fun hnames hfunction => by
      rw [hlib.owned?_eq hfunction] at hf
      have hkind := hnames.function hlib hfunction hf
      exact ⟨hkind.1, Lists.insert hkind.2 ⟨s, hs, rfl⟩⟩
  exact hentered.trans ((hentered.isApart hlib).proceeds_addLocal function label)

/-! ## All steps -/

/-- Whatever is done to a library short of emptying it. -/
theorem proceeds_step (hlib : lib.IsApart) (s : LibraryStep) (hreset : s ≠ .reset) :
    lib.Proceeds (lib.step s).2 := by
  have hunchanged : ∀ (x : SymbolId) (f : Symbol → Symbol), (∀ s, (f s).kind = s.kind) →
      (∀ s : Symbol, s.Same (f s)) → lib.Proceeds (lib.update x f) :=
    fun x f hkind hf => hlib.proceeds_update x hf fun _ s _ => .inl (hkind s)
  cases s with
  | createType name isGlobal span => exact hlib.proceeds_createType name isGlobal span
  | pointerTo p => exact hlib.proceeds_pointerTo p
  | pointerType base depth => exact hlib.proceeds_pointerType base depth
  | functionType ps r => exact hlib.proceeds_functionType ps r
  | createVariable | createLabel => exact hlib.proceeds_alloc trivial
  | createFunction => exact hlib.proceeds_alloc ⟨distinct_nil _, lists_empty _⟩
  | setType | setDeclaration => exact hunchanged _ _ (fun _ => rfl) fun _ => ⟨rfl, rfl, rfl⟩
  | registerGlobal x => exact hlib.proceeds_registerGlobal x
  | addMember owner member => exact hlib.proceeds_addMember owner member
  | addLocal function member => exact hlib.proceeds_addLocal function member
  | addLabel function label => exact hlib.proceeds_addLabel function label
  | reset => exact absurd rfl hreset

end IsApart

theorem size_le_step (lib : Library) (s : LibraryStep) (hreset : s ≠ .reset) :
    lib.symbols.size ≤ (lib.step s).2.symbols.size := by
  by_cases hs : ∃ x, s = .registerGlobal x
  · obtain ⟨x, rfl⟩ := hs
    change _ ≤ (lib.registerGlobal x).2.symbols.size
    unfold registerGlobal
    split
    · exact Nat.le_refl _
    · split <;> exact Nat.le_refl _
  · have hleads : lib.Leads (lib.step s).2 := leads_step s hreset fun x hx => absurd ⟨x, hx⟩ hs
    exact hleads.size_le

theorem IsApart.grows_step (hlib : lib.IsApart) (s : LibraryStep) (hreset : s ≠ .reset) :
    lib.Grows (lib.step s).2 :=
  have hproceeds := hlib.proceeds_step s hreset
  ⟨hproceeds.id_eq, lib.size_le_step s hreset, hproceeds.retains⟩

/-- Nothing is left in a library that is emptied. -/
theorem hasNames_of_empty (hglobals : lib.globals = .empty) (hsymbols : lib.symbols = #[]) :
    lib.HasNames := by
  refine ⟨hglobals ▸ lists_empty lib, fun x s hs => ?_⟩
  rw [owned?_eq_some, hsymbols] at hs
  simp at hs

theorem HasNames.step (hnames : lib.HasNames) (hlib : lib.IsApart) (s : LibraryStep) :
    (lib.step s).2.HasNames := by
  by_cases hreset : s = .reset
  · subst hreset
    exact hasNames_of_empty rfl rfl
  · exact (hlib.proceeds_step s hreset).hasNames hnames

/-- A library without symbols has nothing to lose. -/
theorem grows_reset (hempty : lib.symbols.isEmpty) : lib.Grows lib.reset := by
  have hsymbols : lib.symbols = #[] := Array.isEmpty_iff.1 hempty
  have hsymbol : ∀ x, lib.reset.symbol? x = lib.symbol? x := symbol?_congr rfl hsymbols.symm rfl
  exact ⟨rfl, by simp [hsymbols], .of_symbol? fun x s hs => (hsymbol x).trans hs⟩

theorem hasNames_core (id : LibraryId) : (core id).HasNames := by
  have hprimitive : ∀ (lib : Library) (name : String), lib.IsApart →
      lib.Proceeds (lib.primitive name) := by
    intro lib name hlib
    have hmade := hlib.proceeds_alloc
      (s := { name, kind := .type ⟨.primitive, .empty⟩, span := .dummy }) (lists_empty _)
    exact hmade.trans ((hmade.isApart hlib).proceeds_publish (hlib.named_alloc _))
  have hfold : ∀ (names : List String) (lib : Library), lib.IsApart →
      lib.Proceeds (names.foldl primitive lib) := by
    intro names
    induction names with
    | nil => exact fun lib _ => .refl lib
    | cons name names ih =>
      intro lib hlib
      have hfirst := hprimitive lib name hlib
      exact hfirst.trans (ih _ (hfirst.isApart hlib))
  have hnew : (new id "core").IsApart := by
    intro dep hdep
    simp [new, reachAll] at hdep
  have hnames := hfold [voidName, booleanName, integerName, floatName, byteName, nullName] _ hnew
  have hbyte := (hnames.isApart hnew).proceeds_pointerTo ⟨id, 4⟩
  have hall := (hnames.trans hbyte)
  have hnull := (hall.isApart hnew).proceeds_pointerTo ⟨id, 5⟩
  exact (hall.trans hnull).hasNames (hasNames_of_empty rfl rfl)

/-! ## Links -/

/-- What can be looked up is found in front of what a new link leads to. -/
theorem retains_link (lib dep : Library) : lib.Retains (lib.link dep) := by
  refine .of_symbol? fun x s hs => ?_
  unfold link
  split
  · exact hs
  · rw [symbol?, firstSome?_eq, reach_eq, List.findSome?_cons] at hs ⊢
    rw [reachAll_append, List.findSome?_append]
    have howned : owned? { lib with dependencies := lib.dependencies ++ [dep] } x = lib.owned? x := rfl
    rw [howned]
    cases hown : lib.owned? x with
    | some t => rwa [hown] at hs
    | none =>
      rw [hown] at hs
      exact Option.or_eq_some_iff.2 (.inl hs)

theorem link_tables (lib dep : Library) : (lib.link dep).id = lib.id ∧
    (lib.link dep).symbols = lib.symbols ∧ (lib.link dep).globals = lib.globals := by
  unfold link
  split <;> exact ⟨rfl, rfl, rfl⟩

theorem grows_link (lib dep : Library) : lib.Grows (lib.link dep) :=
  ⟨(lib.link_tables dep).1, (lib.link_tables dep).2.1 ▸ Nat.le_refl _, lib.retains_link dep⟩

theorem HasNames.link (hnames : lib.HasNames) (dep : Library) : (lib.link dep).HasNames := by
  obtain ⟨hid, hsymbols, hglobals⟩ := lib.link_tables dep
  have hretains := lib.retains_link dep
  refine ⟨hglobals ▸ hnames.globals.retained hretains, fun x s hs => ?_⟩
  rw [owned?, hid, hsymbols] at hs
  exact kindHasNames_retained (hnames.symbol x s hs) hretains

/-- A link takes no library out of reach. -/
theorem IsApart.of_link {dep : Library} (h : (lib.link dep).IsApart) : lib.IsApart := by
  unfold Library.link at h
  split at h
  · exact h
  · intro d hd
    refine h d ?_
    rw [reachAll_append]
    exact List.mem_append_left _ hd

/-! ## Answers -/

/-- A pointer type of some depth is the pointer type to another one. -/
theorem exists_pointerType_succ (lib : Library) (base : SymbolId) (depth : Nat) :
    ∃ (l : Library) (p : SymbolId), lib.pointerType base (depth + 1) = l.pointerTo p := by
  induction depth generalizing lib base with
  | zero => exact ⟨lib, base, rfl⟩
  | succ depth ih => exact ih _ _

/-- A symbol that a step answers with is there. A pointer type of no depth is what was asked with,
which need not be. -/
theorem symbol?_of_step {t : LibraryStep} (hlib : lib.IsApart)
    (hinterned : ∀ form y, (lib.step t).2.interned? form = some y →
      ∃ s, (lib.step t).2.symbol? y = some s) (h : (lib.step t).1 = .ok (some x)) :
    t = .pointerType x 0 ∨ ∃ s, (lib.step t).2.symbol? x = some s := by
  have hpointer : ∀ (base : SymbolId) (depth : Nat), (lib.pointerType base (depth + 1)).1 = x →
      (lib.step t).2 = (lib.pointerType base (depth + 1)).2 →
      ∃ s, (lib.step t).2.symbol? x = some s := by
    intro base depth hx hstep
    obtain ⟨l, p, heq⟩ := lib.exists_pointerType_succ base depth
    rw [heq] at hx hstep
    refine hinterned (.pointer p) x ?_
    rw [hstep]
    exact interned?_of_step l (s := .pointerTo p) rfl (by rw [← hx]; rfl)
  have hmade : ∀ s : Symbol, (lib.alloc s).1 = x → ∃ s', (lib.alloc s).2.symbol? x = some s' :=
    fun s hx => ⟨s, (hlib.symbol?_alloc s x).trans (if_pos hx.symm)⟩
  have hregistered : ∀ r : Except SemanticError Unit × Library,
      (registered r).1 ≠ .ok (some x) := by
    rintro ⟨_ | _, l⟩ <;> simp [registered, Except.map]
  cases t with
  | pointerTo p => exact .inr (hinterned _ _ (interned?_of_step lib (s := .pointerTo p) rfl h))
  | functionType ps r =>
    exact .inr (hinterned _ _ (interned?_of_step lib (s := .functionType ps r) rfl h))
  | pointerType base depth =>
    have hx : (lib.pointerType base depth).1 = x := Option.some.inj (Except.ok.inj h)
    cases depth with
    | zero => exact .inl (by rw [← hx]; rfl)
    | succ depth => exact .inr (hpointer base depth hx rfl)
  | createVariable | createFunction | createLabel =>
    exact .inr (hmade _ (Option.some.inj (Except.ok.inj h)))
  | createType name isGlobal span =>
    refine .inr ?_
    have hstep : (lib.step (.createType name isGlobal span)).2 =
      (lib.createType name isGlobal span).2 := rfl
    have hcreated : (lib.createType name isGlobal span).1 = .ok x := by
      change (lib.createType name isGlobal span).1.map some = _ at h
      cases hanswer : (lib.createType name isGlobal span).1 <;> simp_all [Except.map]
    unfold createType at hcreated hstep
    split at hcreated
    · next base depth heq =>
      simp only [heq] at hstep
      split at hcreated
      · next p hp =>
        simp only [hp] at hstep
        exact hpointer p depth (Except.ok.inj hcreated) hstep
      · simp at hcreated
    · next heq =>
      simp only [heq] at hstep
      split at hcreated
      · simp at hcreated
      · next hnew =>
        rw [if_neg hnew] at hstep
        rw [hstep]
        obtain ⟨s, hs⟩ := hmade _ (Except.ok.inj hcreated)
        cases isGlobal with
        | true => exact ⟨s, (symbol?_publish ..).trans hs⟩
        | false => exact ⟨s, hs⟩
  | setType | setDeclaration | reset => simp [Library.step] at h
  | registerGlobal | addMember | addLocal | addLabel => exact absurd h (hregistered _)

end Library

end Sable
