import Sable.Proofs.Symbol.Registering

/-!
# Sound libraries

A symbol mentions others: its type, its parents, what it is made of and what is entered into it. In
a sound library all of them can be looked up, and are of the sort that they are taken for. Whatever
is done to a library keeps it sound, and no symbol that it has changes its sort.

## Main definitions

* `SymbolSort`: what a symbol stands for.
* `Library.Knows`: a symbol can be looked up and is of some sort.
* `Symbol.IsSound`, `Library.IsSound`: all that is mentioned is known.
* `Library.Extends`: all symbols keep their sorts.
* `Library.Evolves`: a library becomes one that extends it and is sound.

## Main statements

* `Library.IsSound.pointerType`, `Library.IsSound.functionType`: interned types.
* `Library.IsSound.createType`, `Library.Creates.evolves`: new symbols.
* `Library.IsSound.addMember`, `Library.IsSound.addLocal`, `Library.IsSound.addLabel`: registration.
-/
namespace Sable

/-- What a symbol stands for, without what is entered into it. -/
inductive SymbolSort
  | type (form : TypeForm)
  | variable (isParameter : Bool)
  | function
  | label
  deriving DecidableEq

namespace SymbolSort

def Any (_ : SymbolSort) : Prop := True

def IsType : SymbolSort → Prop
  | .type _ => True
  | _ => False

def IsClass (s : SymbolSort) : Prop := s = .type .classType

/-- What the declaration of a class of this name makes; a name with stars spells a pointer type. -/
def IsDeclaredAs (name : String) (s : SymbolSort) : Prop :=
  s.IsType ∧ ((Library.splitStars name).2 = 0 → s.IsClass)

/-- The type of a function. -/
def IsSignature : SymbolSort → Prop
  | .type (.function ..) => True
  | _ => False

/-- Variables and functions can be used in expressions. -/
def IsValue : SymbolSort → Prop
  | .variable _ | .function => True
  | .type _ | .label => False

def IsFunction (s : SymbolSort) : Prop := s = .function

def IsLabel (s : SymbolSort) : Prop := s = .label

/-- What can belong to a class. -/
def IsMember (s : SymbolSort) : Prop := s = .variable false ∨ s = .function

/-- What can belong to a function. -/
def IsLocal : SymbolSort → Prop
  | .variable _ | .label => True
  | .type _ | .function => False

end SymbolSort

open SymbolSort

def SymbolKind.sort : SymbolKind → SymbolSort
  | .type t => .type t.form
  | .variable isParameter => .variable isParameter
  | .function _ => .function
  | .label => .label

def Symbol.sort (s : Symbol) : SymbolSort := s.kind.sort

theorem Symbol.isValue_iff (s : Symbol) : s.isValue = true ↔ s.sort.IsValue := by
  unfold isValue sort
  cases s.kind <;> simp [SymbolKind.sort, IsValue]

/-! ## Sound symbols -/

namespace Library

/-- The symbol can be looked up, and is of such a sort. -/
def Knows (lib : Library) (p : SymbolSort → Prop) (x : SymbolId) : Prop :=
  ∃ s, lib.symbol? x = some s ∧ p s.sort

/-- A library that has more, where all symbols keep their sorts. -/
structure Extends (lib lib' : Library) : Prop where
  id_eq : lib'.id = lib.id
  dependencies_eq : lib'.dependencies = lib.dependencies
  sort : ∀ {x s}, lib.symbol? x = some s → ∃ s', lib'.symbol? x = some s' ∧ s'.sort = s.sort

variable {lib lib' lib'' : Library} {p q : SymbolSort → Prop} {x : SymbolId}

theorem Knows.imp (h : lib.Knows p x) (hp : ∀ s, p s → q s) : lib.Knows q x := by
  obtain ⟨s, hs, hsort⟩ := h
  exact ⟨s, hs, hp _ hsort⟩

theorem Knows.any (h : lib.Knows p x) : lib.Knows Any x := h.imp fun _ _ => trivial

namespace Extends

theorem refl (lib : Library) : lib.Extends lib := ⟨rfl, rfl, fun h => ⟨_, h, rfl⟩⟩

theorem trans (h : lib.Extends lib') (h' : lib'.Extends lib'') : lib.Extends lib'' where
  id_eq := h'.id_eq.trans h.id_eq
  dependencies_eq := h'.dependencies_eq.trans h.dependencies_eq
  sort hs := by
    obtain ⟨s', hs', hsort⟩ := h.sort hs
    obtain ⟨s'', hs'', hsort'⟩ := h'.sort hs'
    exact ⟨s'', hs'', hsort'.trans hsort⟩

theorem knows (h : lib.Extends lib') (hx : lib.Knows p x) : lib'.Knows p x := by
  obtain ⟨s, hs, hp⟩ := hx
  obtain ⟨s', hs', hsort⟩ := h.sort hs
  exact ⟨s', hs', hsort ▸ hp⟩

/-- A library that has all symbols of another one. -/
theorem of_symbol? (hid : lib'.id = lib.id) (hdependencies : lib'.dependencies = lib.dependencies)
    (h : ∀ {x s}, lib.symbol? x = some s → lib'.symbol? x = some s) : lib.Extends lib' :=
  ⟨hid, hdependencies, fun hs => ⟨_, h hs, rfl⟩⟩

end Extends

theorem type?_eq_some {t : TypeSymbol} :
    lib.type? x = some t ↔ ∃ s, lib.symbol? x = some s ∧ s.kind = .type t := by
  rw [Library.type?, Option.bind_eq_some_iff]
  refine exists_congr fun s => and_congr_right fun _ => ?_
  unfold Symbol.type?
  cases s.kind <;> simp

theorem knows_of_type? {t : TypeSymbol} (h : lib.type? x = some t) :
    lib.Knows (· = .type t.form) x := by
  obtain ⟨s, hs, hkind⟩ := type?_eq_some.1 h
  exact ⟨s, hs, by rw [Symbol.sort, hkind, SymbolKind.sort]⟩

theorem knows_isType_of_type? {t : TypeSymbol} (h : lib.type? x = some t) : lib.Knows IsType x :=
  (knows_of_type? h).imp fun _ hs => hs ▸ trivial

end Library

/-- The types that a type is made of are known. -/
def TypeForm.IsSound (lib : Library) : TypeForm → Prop
  | .pointer p => lib.Knows IsType p
  | .function ps r => (∀ p ∈ ps, lib.Knows IsType p) ∧ lib.Knows IsType r
  | .primitive | .classType => True

/-- What is entered into the symbol is known. -/
def SymbolKind.IsSound (lib : Library) : SymbolKind → Prop
  | .type t => t.form.IsSound lib ∧ ∀ n x, t.members.get? n = some x → lib.Knows IsMember x
  | .function f => (∀ x ∈ f.locals, lib.Knows IsLocal x) ∧
      ∀ n x, f.labels.get? n = some x → lib.Knows IsLabel x
  | .variable _ | .label => True

/-- All that the symbol mentions is known. If `typed`, a variable or a function has a type. -/
structure Symbol.IsSound (lib : Library) (typed : Prop) (s : Symbol) : Prop where
  type : ∀ t, s.type = some t → lib.Knows IsType t
  signature : s.sort = .function → ∀ t, s.type = some t → lib.Knows IsSignature t
  isSome_type : typed → s.sort.IsValue → s.type.isSome
  parentType : ∀ p, s.parentType = some p → lib.Knows IsType p
  parentFunction : ∀ p, s.parentFunction = some p → lib.Knows IsFunction p
  kind : s.kind.IsSound lib

theorem Symbol.IsSound.mono {lib : Library} {typed typed' : Prop} {s : Symbol}
    (h : s.IsSound lib typed) (himp : typed' → typed) : s.IsSound lib typed' :=
  { h with isSome_type := fun ht => h.isSome_type (himp ht) }

/-- The symbol of a type without members. -/
theorem Symbol.isSound_of_form {lib : Library} {typed : Prop} {form : TypeForm}
    (hform : form.IsSound lib) (name : String) (span : Span) :
    Symbol.IsSound lib typed { name, kind := .type ⟨form, .empty⟩, span } :=
  ⟨by simp, by simp, fun _ h => h.elim, by simp, by simp, hform, by simp⟩

namespace Library

variable {lib lib' lib'' : Library} {typed : Prop} {x y : SymbolId} {s : Symbol}

section Mono

variable (h : ∀ {p x}, lib.Knows p x → lib'.Knows p x)

include h

theorem formIsSound_of_knows {form : TypeForm} (hform : form.IsSound lib) : form.IsSound lib' := by
  cases form with
  | pointer p => exact h hform
  | function ps r => exact ⟨fun p hp => h (hform.1 p hp), h hform.2⟩
  | primitive | classType => trivial

theorem kindIsSound_of_knows {kind : SymbolKind} (hkind : kind.IsSound lib) : kind.IsSound lib' := by
  cases kind with
  | type t => exact ⟨formIsSound_of_knows h hkind.1, fun n x hx => h (hkind.2 n x hx)⟩
  | function f => exact ⟨fun x hx => h (hkind.1 x hx), fun n x hx => h (hkind.2 n x hx)⟩
  | «variable» | label => trivial

theorem symbolIsSound_of_knows (hs : s.IsSound lib typed) : s.IsSound lib' typed where
  type t ht := h (hs.type t ht)
  signature hsort t ht := h (hs.signature hsort t ht)
  isSome_type := hs.isSome_type
  parentType p hp := h (hs.parentType p hp)
  parentFunction p hp := h (hs.parentFunction p hp)
  kind := kindIsSound_of_knows h hs.kind

end Mono

theorem Extends.symbolIsSound (h : lib.Extends lib') (hs : s.IsSound lib typed) :
    s.IsSound lib' typed := symbolIsSound_of_knows h.knows hs

/-! ## Sound libraries -/

/-- All that is mentioned within reach is known. -/
structure IsSound (lib : Library) (typed : Prop) : Prop where
  isApart : lib.IsApart
  symbol : ∀ {x s}, lib.symbol? x = some s → s.IsSound lib typed
  globals : ∀ dep ∈ lib.reach, ∀ n x, dep.globals.get? n = some x → lib.Knows Any x
  pointerTypes : ∀ dep ∈ lib.reach, ∀ p x, dep.pointerTypes.get? p = some x →
    lib.Knows (· = .type (.pointer p)) x
  functionTypes : ∀ dep ∈ lib.reach, ∀ ps r x, dep.functionTypes.get? (ps, r) = some x →
    lib.Knows (· = .type (.function ps r)) x

/-- A library that extends the one from before and is sound. -/
structure Evolves (typed : Prop) (lib lib' : Library) : Prop extends lib.Extends lib' where
  isSound : lib'.IsSound typed

theorem Evolves.trans (h : Evolves typed lib lib') (h' : Evolves typed lib' lib'') :
    Evolves typed lib lib'' :=
  ⟨h.toExtends.trans h'.toExtends, h'.isSound⟩

namespace IsSound

theorem refl (h : lib.IsSound typed) : Evolves typed lib lib := ⟨.refl lib, h⟩

theorem mono {typed' : Prop} (h : lib.IsSound typed) (himp : typed' → typed) :
    lib.IsSound typed' :=
  { h with symbol := fun hs => (h.symbol hs).mono himp }

/-- What is new in the library is sound. -/
theorem of_extends (h : lib.IsSound typed) (hext : lib.Extends lib')
    (hsymbol : ∀ {x s}, lib'.symbol? x = some s → lib.symbol? x = some s ∨ s.IsSound lib' typed)
    (hglobals : ∀ n x, lib'.globals.get? n = some x →
      lib.globals.get? n = some x ∨ lib'.Knows Any x)
    (hpointers : ∀ p x, lib'.pointerTypes.get? p = some x →
      lib.pointerTypes.get? p = some x ∨ lib'.Knows (· = .type (.pointer p)) x)
    (hfunctions : ∀ ps r x, lib'.functionTypes.get? (ps, r) = some x →
      lib.functionTypes.get? (ps, r) = some x ∨ lib'.Knows (· = .type (.function ps r)) x) :
    Evolves typed lib lib' := by
  have hreach : ∀ dep ∈ lib'.reach, dep = lib' ∨ dep ∈ lib.reach := by
    intro dep hdep
    rw [reach_eq, List.mem_cons, hext.dependencies_eq] at hdep
    rw [reach_eq, List.mem_cons]
    exact hdep.imp_right .inr
  have hself : lib ∈ lib.reach := by
    rw [reach_eq]
    exact List.mem_cons_self
  refine ⟨hext, h.isApart.congr hext.id_eq hext.dependencies_eq, fun hs => ?_, ?_, ?_, ?_⟩
  · exact (hsymbol hs).elim (fun hs => hext.symbolIsSound (h.symbol hs)) fun h => h
  · rintro dep hdep n x hx
    rcases hreach dep hdep with rfl | hdep
    · exact (hglobals n x hx).elim
        (fun hx => hext.knows (h.globals lib hself n x hx)) fun h => h
    · exact hext.knows (h.globals dep hdep n x hx)
  · rintro dep hdep p x hx
    rcases hreach dep hdep with rfl | hdep
    · exact (hpointers p x hx).elim
        (fun hx => hext.knows (h.pointerTypes lib hself p x hx)) fun h => h
    · exact hext.knows (h.pointerTypes dep hdep p x hx)
  · rintro dep hdep ps r x hx
    rcases hreach dep hdep with rfl | hdep
    · exact (hfunctions ps r x hx).elim
        (fun hx => hext.knows (h.functionTypes lib hself ps r x hx)) fun h => h
    · exact hext.knows (h.functionTypes dep hdep ps r x hx)

/-- One symbol is new, and it is sound. -/
theorem of_new (h : lib.IsSound typed) (hid : lib'.id = lib.id)
    (hdependencies : lib'.dependencies = lib.dependencies) (hfresh : lib.symbol? x = none)
    (hsymbol : ∀ y, lib'.symbol? y = if y = x then some s else lib.symbol? y)
    (hs : s.IsSound lib typed)
    (hglobals : ∀ n y, lib'.globals.get? n = some y → lib.globals.get? n = some y ∨ y = x)
    (hpointers : ∀ p y, lib'.pointerTypes.get? p = some y →
      lib.pointerTypes.get? p = some y ∨ s.sort = .type (.pointer p) ∧ y = x)
    (hfunctions : ∀ ps r y, lib'.functionTypes.get? (ps, r) = some y →
      lib.functionTypes.get? (ps, r) = some y ∨ s.sort = .type (.function ps r) ∧ y = x) :
    Evolves typed lib lib' := by
  have hext : lib.Extends lib' := .of_symbol? hid hdependencies fun {y t} hy => by
    rw [hsymbol, if_neg, hy]
    rintro rfl
    rw [hfresh] at hy
    exact absurd hy (by simp)
  have hx : lib'.symbol? x = some s := (hsymbol x).trans (if_pos rfl)
  refine h.of_extends hext (fun {y t} hy => ?_) (fun n y hy => ?_) (fun p y hy => ?_)
    fun ps r y hy => ?_
  · rw [hsymbol] at hy
    split at hy
    · exact .inr (Option.some.inj hy ▸ hext.symbolIsSound hs)
    · exact .inl hy
  · refine (hglobals n y hy).imp_right ?_
    rintro rfl
    exact ⟨s, hx, trivial⟩
  · refine (hpointers p y hy).imp_right ?_
    rintro ⟨hsort, rfl⟩
    exact ⟨s, hx, hsort⟩
  · refine (hfunctions ps r y hy).imp_right ?_
    rintro ⟨hsort, rfl⟩
    exact ⟨s, hx, hsort⟩

theorem alloc (h : lib.IsSound typed) (hs : s.IsSound lib typed) :
    Evolves typed lib (lib.alloc s).2 ∧ (lib.alloc s).2.Knows (· = s.sort) (lib.alloc s).1 :=
  ⟨h.of_new rfl rfl (h.isApart.symbol?_alloc_fst s) (h.isApart.symbol?_alloc s) hs
    (fun _ _ hy => .inl hy) (fun _ _ hy => .inl hy) fun _ _ _ hy => .inl hy,
    s, (h.isApart.symbol?_alloc s _).trans (if_pos rfl), rfl⟩

/-- A symbol is changed into a sound one of the same sort. -/
theorem update (h : lib.IsSound typed) (x : SymbolId) {f : Symbol → Symbol}
    (hf : ∀ s, lib.symbol? x = some s → (f s).sort = s.sort ∧ (f s).IsSound lib typed) :
    Evolves typed lib (lib.update x f) := by
  obtain ⟨symbols, heq⟩ := exists_update_eq lib x f
  have hext : lib.Extends (lib.update x f) := by
    refine ⟨by rw [heq], by rw [heq], fun {y s} hy => ?_⟩
    rw [h.isApart.symbol?_update, hy]
    split
    · next hyx =>
      rw [hyx.1] at hy
      exact ⟨f s, rfl, (hf s hy).1⟩
    · exact ⟨s, rfl, rfl⟩
  refine h.of_extends hext (fun {y s} hy => ?_) (fun n y hy => .inl ?_) (fun p y hy => .inl ?_)
    fun ps r y hy => .inl ?_
  · rw [h.isApart.symbol?_update] at hy
    split at hy
    · next hyx =>
      obtain ⟨t, ht, rfl⟩ := Option.map_eq_some_iff.1 hy
      rw [hyx.1] at ht
      exact .inr (hext.symbolIsSound (hf t ht).2)
    · exact .inl hy
  · rwa [heq] at hy
  · rwa [heq] at hy
  · rwa [heq] at hy

theorem publish (h : lib.IsSound typed) (name : String) (hx : lib.Knows Any x) :
    Evolves typed lib (lib.publish name x) := by
  have hext : lib.Extends (lib.publish name x) :=
    .of_symbol? rfl rfl fun hs => (symbol?_publish ..).trans hs
  refine h.of_extends hext (fun {y s} hy => .inl ?_) (fun n y hy => ?_) (fun _ _ hy => .inl hy)
    fun _ _ _ hy => .inl hy
  · rwa [symbol?_publish] at hy
  · rw [Library.publish, OrderedMap.get?_insert] at hy
    split at hy
    · exact .inr (Option.some.inj hy ▸ hext.knows hx)
    · exact .inl hy

theorem setDeclaration (h : lib.IsSound typed) (x : SymbolId) (n : NodeId) :
    Evolves typed lib (lib.setDeclaration x n) :=
  h.update x fun _ hs => ⟨rfl, { h.symbol hs with }⟩

theorem registerGlobal (h : lib.IsSound typed) (x : SymbolId) :
    Evolves typed lib (lib.registerGlobal x).2 := by
  unfold Library.registerGlobal
  split
  · exact h.refl
  · next s hs =>
    split
    · exact h.refl
    · exact h.publish _ ⟨s, hs, trivial⟩

/-! ## Interned types -/

theorem knows_pointerType? (h : lib.IsSound typed) {p : SymbolId}
    (hx : lib.pointerType? p = some x) : lib.Knows (· = .type (.pointer p)) x := by
  rw [pointerType?, firstSome?_eq] at hx
  obtain ⟨dep, hdep, hx⟩ := List.exists_of_findSome?_eq_some hx
  exact h.pointerTypes dep hdep p x hx

theorem knows_functionType? (h : lib.IsSound typed) {ps : List SymbolId} {r : SymbolId}
    (hx : lib.functionType? ps r = some x) : lib.Knows (· = .type (.function ps r)) x := by
  rw [functionType?, firstSome?_eq] at hx
  obtain ⟨dep, hdep, hx⟩ := List.exists_of_findSome?_eq_some hx
  exact h.functionTypes dep hdep ps r x hx

/-- A type that is made of known types, and is entered into its table. -/
theorem of_makesType (h : lib.IsSound typed) {t : TypeSymbol} (hmakes : lib.MakesType x s t lib')
    (hs : s.IsSound lib typed) (hpointers : ∀ p y, lib'.pointerTypes.get? p = some y →
      lib.pointerTypes.get? p = some y ∨ t.form = .pointer p ∧ y = x)
    (hfunctions : ∀ ps r y, lib'.functionTypes.get? (ps, r) = some y →
      lib.functionTypes.get? (ps, r) = some y ∨ t.form = .function ps r ∧ y = x) :
    Evolves typed lib lib' := by
  have hsort : s.sort = .type t.form := by rw [Symbol.sort, hmakes.kind_eq, SymbolKind.sort]
  refine h.of_new hmakes.id_eq hmakes.dependencies_eq hmakes.fresh hmakes.symbol?_eq hs
    (fun n y hy => ?_) (fun p y hy => ?_) fun ps r y hy => ?_
  · rw [hmakes.globals_eq, OrderedMap.get?_insertNew] at hy
    split at hy
    · next hn =>
      cases hname : lib.globals.get? s.name with
      | none =>
        rw [hname] at hy
        exact .inr (Option.some.inj hy).symm
      | some z =>
        rw [hname] at hy
        exact .inl (by rw [hn, hname, Option.some.inj hy.symm]; rfl)
    · exact .inl hy
  · exact (hpointers p y hy).imp_right (And.imp_left fun hform => by rw [hsort, hform])
  · exact (hfunctions ps r y hy).imp_right (And.imp_left fun hform => by rw [hsort, hform])

theorem pointerTo (h : lib.IsSound typed) {p : SymbolId} (hp : lib.Knows IsType p) :
    Evolves typed lib (lib.pointerTo p).2 ∧
      (lib.pointerTo p).2.Knows (· = .type (.pointer p)) (lib.pointerTo p).1 := by
  rcases h.isApart.pointerTo_cases p with ⟨x, hx, hrun⟩ | ⟨-, hmakes, hpointers, hfunctions⟩
  · rw [hrun]
    exact ⟨h.refl, h.knows_pointerType? hx⟩
  · have hform : (TypeForm.pointer p).IsSound lib := hp
    refine ⟨h.of_makesType hmakes (Symbol.isSound_of_form hform _ _) (fun q y hy => ?_)
      fun ps r y hy => ?_, lib.pointerSymbol p, (hmakes.symbol?_eq _).trans (if_pos rfl), rfl⟩
    · rw [hpointers, OrderedMap.get?_insert] at hy
      split at hy
      · next hq => exact .inr ⟨by rw [hq], (Option.some.inj hy).symm⟩
      · exact .inl hy
    · rw [hfunctions] at hy
      exact .inl hy

theorem pointerType (h : lib.IsSound typed) {base : SymbolId} (hbase : lib.Knows IsType base)
    (depth : Nat) : Evolves typed lib (lib.pointerType base depth).2 ∧
      (lib.pointerType base depth).2.Knows IsType (lib.pointerType base depth).1 := by
  induction depth generalizing lib base with
  | zero => exact ⟨h.refl, hbase⟩
  | succ depth ih =>
    obtain ⟨hstep, hknows⟩ := h.pointerTo hbase
    obtain ⟨hrest, hlast⟩ := ih hstep.isSound (hknows.imp fun _ hs => hs ▸ trivial)
    exact ⟨hstep.trans hrest, hlast⟩

theorem functionType (h : lib.IsSound typed) {ps : List SymbolId} {r : SymbolId}
    (hps : ∀ p ∈ ps, lib.Knows IsType p) (hr : lib.Knows IsType r) :
    Evolves typed lib (lib.functionType ps r).2 ∧
      (lib.functionType ps r).2.Knows IsSignature (lib.functionType ps r).1 := by
  rcases h.isApart.functionType_cases ps r with ⟨x, hx, hrun⟩ | ⟨-, hmakes, hpointers, hfunctions⟩
  · rw [hrun]
    exact ⟨h.refl, (h.knows_functionType? hx).imp fun _ hs => hs ▸ trivial⟩
  · have hform : (TypeForm.function ps r).IsSound lib := ⟨hps, hr⟩
    refine ⟨h.of_makesType hmakes (Symbol.isSound_of_form hform _ _) (fun q y hy => ?_)
      fun qs q y hy => ?_, lib.functionSymbol ps r, (hmakes.symbol?_eq _).trans (if_pos rfl),
      trivial⟩
    · rw [hpointers] at hy
      exact .inl hy
    · rw [hfunctions, OrderedMap.get?_insert] at hy
      split at hy
      · next hq =>
        obtain ⟨rfl, rfl⟩ := Prod.mk.inj hq
        exact .inr ⟨rfl, (Option.some.inj hy).symm⟩
      · exact .inl hy

/-! ## New symbols -/

/-- A class is new, or the name spells a pointer type. -/
theorem createType (h : lib.IsSound typed) (name : String) (span : Span) :
    Evolves typed lib (lib.createType name false span).2 ∧
      ∀ x, (lib.createType name false span).1 = .ok x →
        (lib.createType name false span).2.Knows (IsDeclaredAs name) x := by
  unfold Library.createType
  split
  · next base depth heq =>
    split
    · next p hp =>
      obtain ⟨-, hp⟩ := Option.filter_eq_some_iff.1 hp
      obtain ⟨t, ht⟩ := Option.isSome_iff_exists.1 hp
      obtain ⟨hstep, hknows⟩ := h.pointerType (knows_isType_of_type? ht) (depth + 1)
      exact ⟨hstep, fun x hx => Except.ok.inj hx ▸ hknows.imp fun _ hs => ⟨hs, by simp [heq]⟩⟩
    · exact ⟨h.refl, by simp⟩
  · have hclass : TypeForm.classType.IsSound lib := trivial
    obtain ⟨hstep, hknows⟩ := h.alloc (Symbol.isSound_of_form hclass name span)
    exact ⟨hstep, fun x hx => Except.ok.inj hx ▸
      hknows.imp fun _ hs => ⟨hs ▸ trivial, fun _ => hs⟩⟩

end IsSound

theorem Creates.evolves (hcreates : lib.Creates x s lib') (h : lib.IsSound typed)
    (hs : s.IsSound lib typed) : Evolves typed lib lib' := by
  obtain ⟨symbols, rfl⟩ := hcreates.tables_eq
  exact h.of_new rfl rfl hcreates.fresh hcreates.symbol?_eq hs (fun _ _ hy => .inl hy)
    (fun _ _ hy => .inl hy) fun _ _ _ hy => .inl hy

/-! ## Registration -/

/-- A table of names with one more entry. -/
theorem knows_insert {m : Names} {p : SymbolSort → Prop}
    (hm : ∀ n y, m.get? n = some y → lib.Knows p y) (name : String) (hx : lib.Knows p x) :
    ∀ n y, (m.insert name x).get? n = some y → lib.Knows p y := by
  intro n y hy
  rw [OrderedMap.get?_insert] at hy
  split at hy
  · exact Option.some.inj hy ▸ hx
  · exact hm n y hy

theorem symbol?_of_owned? (h : lib.IsApart) (hs : lib.owned? x = some s) :
    lib.symbol? x = some s := by
  rw [← hs, h.owned?_eq]
  unfold owned? at hs
  split at hs
  · assumption
  · exact absurd hs (by simp)

namespace IsSound

theorem members (h : lib.IsSound typed) {t : TypeSymbol} (hs : lib.symbol? x = some s)
    (ht : s.type? = some t) :
    lib.Knows IsType x ∧ ∀ n y, t.members.get? n = some y → lib.Knows IsMember y := by
  have hsound := (h.symbol hs).kind
  unfold Symbol.type? at ht
  split at ht
  · next t' hkind =>
    rw [hkind, Option.some.inj ht] at hsound
    exact ⟨⟨s, hs, by rw [Symbol.sort, hkind]; trivial⟩, hsound.2⟩
  · exact absurd ht (by simp)

/-- What a type is made of. -/
theorem form (h : lib.IsSound typed) {t : TypeSymbol} (ht : lib.type? x = some t) :
    t.form.IsSound lib := by
  obtain ⟨s, hs, hkind⟩ := type?_eq_some.1 ht
  have hsound := (h.symbol hs).kind
  rw [hkind] at hsound
  exact hsound.1

theorem pointee (h : lib.IsSound typed) {p : SymbolId}
    (hp : (lib.type? x).bind TypeSymbol.pointee? = some p) : lib.Knows IsType p := by
  obtain ⟨t, ht, hp⟩ := Option.bind_eq_some_iff.1 hp
  have hform := h.form ht
  unfold TypeSymbol.pointee? at hp
  split at hp
  · next heq =>
    rw [heq, Option.some.inj hp] at hform
    exact hform
  · exact absurd hp (by simp)

theorem entries (h : lib.IsSound typed) {f : FunctionSymbol} (hs : lib.symbol? x = some s)
    (hf : s.function? = some f) : lib.Knows IsFunction x ∧
      (∀ y ∈ f.locals, lib.Knows IsLocal y) ∧
      ∀ n y, f.labels.get? n = some y → lib.Knows IsLabel y := by
  have hsound := (h.symbol hs).kind
  unfold Symbol.function? at hf
  split at hf
  · next f' hkind =>
    rw [hkind, Option.some.inj hf] at hsound
    exact ⟨⟨s, hs, by rw [Symbol.sort, hkind]; rfl⟩, hsound⟩
  · exact absurd hf (by simp)

theorem setMembers (h : lib.IsSound typed) (x : SymbolId) {members : Names}
    (hmembers : ∀ n y, members.get? n = some y → lib.Knows IsMember y) :
    Evolves typed lib (lib.setMembers x members) := by
  refine h.update x fun s hs => ?_
  have hsound := h.symbol hs
  split
  · next t hkind =>
    have hsort : SymbolSort.type t.form = s.sort := by rw [Symbol.sort, hkind, SymbolKind.sort]
    have hform : t.form.IsSound lib := by
      have hkindSound := hsound.kind
      rw [hkind] at hkindSound
      exact hkindSound.1
    exact ⟨hsort,
      { hsound with
        signature := fun hs => absurd hs (by simp [Symbol.sort, SymbolKind.sort])
        isSome_type := fun _ hs => hs.elim
        kind := ⟨hform, hmembers⟩ }⟩
  · exact ⟨rfl, hsound⟩

theorem setFunction (h : lib.IsSound typed) (x : SymbolId) {f : FunctionSymbol}
    (hlocals : ∀ y ∈ f.locals, lib.Knows IsLocal y)
    (hlabels : ∀ n y, f.labels.get? n = some y → lib.Knows IsLabel y) :
    Evolves typed lib (lib.setFunction x f) := by
  refine h.update x fun s hs => ?_
  have hsound := h.symbol hs
  split
  · next g hkind =>
    have hsort : SymbolSort.function = s.sort := by rw [Symbol.sort, hkind, SymbolKind.sort]
    exact ⟨hsort,
      { hsound with
        signature := fun _ => hsound.signature hsort.symm
        isSome_type := fun htyped _ => hsound.isSome_type htyped (hsort ▸ trivial)
        kind := ⟨hlocals, hlabels⟩ }⟩
  · exact ⟨rfl, hsound⟩

theorem addMember (h : lib.IsSound typed) (owner : SymbolId) (hx : lib.Knows IsMember x) :
    Evolves typed lib (lib.addMember owner x).2 := by
  unfold Library.addMember
  split
  · exact h.refl
  next s _ =>
  split
  · exact h.refl
  next t ht =>
  split
  · exact h.refl
  obtain ⟨u, hu, ht⟩ := Option.bind_eq_some_iff.1 ht
  obtain ⟨howner, hmembers⟩ := h.members (symbol?_of_owned? h.isApart hu) ht
  have hentered := h.setMembers owner (knows_insert hmembers s.name hx)
  refine hentered.trans (hentered.isSound.update x fun s hs => ⟨rfl, ?_⟩)
  exact
    { hentered.isSound.symbol hs with
      parentType := fun p hp => Option.some.inj hp ▸ hentered.knows howner }

theorem addLocal (h : lib.IsSound typed) (function : SymbolId) (hx : lib.Knows IsLocal x) :
    Evolves typed lib (lib.addLocal function x).2 := by
  unfold Library.addLocal
  split
  · exact h.refl
  split
  · exact h.refl
  next f hf =>
  split
  · exact h.refl
  obtain ⟨u, hu, hf⟩ := Option.bind_eq_some_iff.1 hf
  obtain ⟨hfunction, hlocals, hlabels⟩ := h.entries hu hf
  have hentered := h.setFunction function (f := { f with locals := f.locals ++ [x] })
    (List.forall_mem_append.2 ⟨hlocals, by simpa using hx⟩) hlabels
  refine hentered.trans (hentered.isSound.update x fun s hs => ⟨rfl, ?_⟩)
  exact
    { hentered.isSound.symbol hs with
      parentFunction := fun p hp => Option.some.inj hp ▸ hentered.knows hfunction }

theorem addLabel (h : lib.IsSound typed) (function : SymbolId) (hx : lib.Knows IsLabel x) :
    Evolves typed lib (lib.addLabel function x).2 := by
  unfold Library.addLabel
  split
  · exact h.refl
  next s _ =>
  split
  · exact h.refl
  next f hf =>
  split
  · exact h.refl
  obtain ⟨u, hu, hf⟩ := Option.bind_eq_some_iff.1 hf
  obtain ⟨-, hlocals, hlabels⟩ := h.entries (symbol?_of_owned? h.isApart hu) hf
  have hentered := h.setFunction function (f := { f with labels := f.labels.insert s.name x })
    hlocals (knows_insert hlabels s.name hx)
  have hlocal : lib.Knows IsLocal x := hx.imp fun _ hs => hs ▸ trivial
  exact hentered.trans (hentered.isSound.addLocal function (hentered.knows hlocal))

end IsSound

end Library

end Sable
