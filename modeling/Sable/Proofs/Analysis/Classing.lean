import Sable.Proofs.Analysis.Declaring

/-!
# Classes by name

A class with a plain name gets a type of its own. In vocabularies where no sign begins with a star,
a star may be the name of a class. Such a class makes no type: it stands for the pointer type of the
type whose name is empty, if there is one.

## Main definitions

* `Library.nameless?`, `Library.star?`: the type whose name is empty, and its pointer type.
* `StarClass`: what a class that is named by a star stands for.
* `ClassDecl.listErrors`: the errors of the first phase.
* `Context.AllowsStar`: a star may be the name of a class.
* `Context.KeepsStar`: a star stands for what it stood for.
* `Context.MakesClass`: a class with a type of its own.
* `Context.DeclaresClasses`: the classes that are declared.

## Main statements

* `Analyzing.declaresClasses`: the first phase.
-/
namespace Sable

/-! ## What a star stands for -/

/-- What a class that is named by a star stands for, with the name of the type. -/
inductive StarClass
  | missing
  | foreign (name : String)
  | own (name : String)
  deriving DecidableEq

namespace Library

variable {lib lib' : Library} {p x : SymbolId}

/-- The type whose name is empty. -/
def nameless? (lib : Library) : Option SymbolId :=
  (lib.lookupGlobal? "").filter fun x => (lib.type? x).isSome

/-- The pointer type that a star stands for, if it was made. -/
def star? (lib : Library) : Option SymbolId := lib.nameless?.bind lib.pointerType?

def starClass (lib : Library) : StarClass :=
  lib.nameless?.elim .missing fun p =>
    (lib.pointerType? p).elim (.own (lib.nameOf p ++ "*")) fun x =>
      if x.library = lib.id then .own (lib.nameOf x) else .foreign (lib.nameOf x)

theorem starClass_eq_missing : lib.starClass = .missing ↔ lib.nameless? = none := by
  rw [starClass]
  cases lib.nameless? with
  | none => simp
  | some p =>
    rw [Option.elim_some]
    cases lib.pointerType? p with
    | none => simp
    | some x =>
      rw [Option.elim_some]
      split <;> simp

theorem createType_star (lib : Library) (span : Span) : lib.createType "*" false span =
    lib.nameless?.elim (.error (SemanticError.symbolNotFound "" span), lib)
      fun p => (.ok (lib.pointerTo p).1, (lib.pointerTo p).2) := by
  have hsplit : splitStars "*" = ("", 1) := by decide
  rw [createType, hsplit, nameless?]
  dsimp only
  cases (lib.lookupGlobal? "").filter fun x => (lib.type? x).isSome <;> rfl

/-- Symbols of other libraries depend on the links only. -/
theorem IsApart.symbol?_eq_of_library_ne (hlib : lib.IsApart) (hid : lib'.id = lib.id)
    (hdependencies : lib'.dependencies = lib.dependencies) (hx : x.library ≠ lib.id) :
    lib'.symbol? x = lib.symbol? x := by
  rw [hlib.symbol?, (hlib.congr hid hdependencies).symbol?, hid, if_neg hx, if_neg hx,
    hdependencies]

/-- Whether there is a type without a name depends on the links only, if the library itself
publishes none. -/
theorem IsApart.nameless?_eq (hlib : lib.IsApart) (hid : lib'.id = lib.id)
    (hdependencies : lib'.dependencies = lib.dependencies)
    (hempty : lib'.globals.get? "" = lib.globals.get? "")
    (hne : ∀ {p}, lib.lookupGlobal? "" = some p → p.library ≠ lib.id) :
    lib'.lookupGlobal? "" = lib.lookupGlobal? "" ∧ lib'.nameless? = lib.nameless? := by
  have hlookup : lib'.lookupGlobal? "" = lib.lookupGlobal? "" := by
    rw [lookupGlobal?_eq, lookupGlobal?_eq, hempty, hdependencies]
  refine ⟨hlookup, ?_⟩
  rw [nameless?, nameless?, hlookup]
  cases hp : lib.lookupGlobal? "" with
  | none => rfl
  | some p =>
    rw [Option.filter_some, Option.filter_some, type?, type?,
      hlib.symbol?_eq_of_library_ne hid hdependencies (hne hp)]

theorem pointerType?_eq_or (lib : Library) (p : SymbolId) :
    lib.pointerType? p = (lib.pointerTypes.get? p).or
      ((reachAll lib.dependencies).findSome? (·.pointerTypes.get? p)) := by
  rw [pointerType?, firstSome?_eq, reach_eq, List.findSome?_cons]
  cases lib.pointerTypes.get? p <;> rfl

/-- A class that is named by a star has the pointer type `x` of `p`, which may be new. -/
structure PlacesStar (lib : Library) (p x : SymbolId) (lib' : Library) (s : Symbol) : Prop where
  id_eq : lib'.id = lib.id
  dependencies_eq : lib'.dependencies = lib.dependencies
  functionTypes_eq : lib'.functionTypes = lib.functionTypes
  pointerTypes : ∀ {q y}, lib'.pointerTypes.get? q = some y →
    lib.pointerTypes.get? q = some y ∨ q = p ∧ lib.pointerType? p = none ∧
      lib'.HasForm y (lib.nameOf p ++ "*") (.pointer p)
  pointerType?_self : lib'.pointerType? p = some x
  pointerType? : ∀ {q y}, lib.pointerType? q = some y → lib'.pointerType? q = some y
  redeclares : lib.Redeclares lib'
  globals_eq : ∀ {n}, IsPlainName n → lib'.globals.get? n = lib.globals.get? n
  symbol : lib'.symbol? x = some s
  not_isPlainName : ¬IsPlainName s.name
  cases : x.library ≠ lib.id ∧ lib.starClass = .foreign s.name ∨
    x.library = lib.id ∧ lib.starClass = .own s.name ∧ (lib'.globals.get? s.name).isSome ∧
      (s.span = .dummy ∨ (lib.globals.get? s.name).isSome) ∧ lib'.HasMembers x fun _ => none

/-- The pointer type may be published once more. -/
theorem PlacesStar.publish {s : Symbol} (h : lib.PlacesStar p x lib' s) :
    lib.PlacesStar p x (lib'.publish s.name x) s := by
  have hmono : lib'.Redeclares (lib'.publish s.name x) :=
    .of_symbol? fun hy => (symbol?_publish ..).trans hy
  have hpointer (q : SymbolId) : (lib'.publish s.name x).pointerType? q = lib'.pointerType? q := by
    rw [pointerType?_eq_or, pointerType?_eq_or]
    rfl
  refine
    { id_eq := h.id_eq
      dependencies_eq := h.dependencies_eq
      functionTypes_eq := h.functionTypes_eq
      pointerTypes := fun hy => ?_
      pointerType?_self := (hpointer p).trans h.pointerType?_self
      pointerType? := fun hy => (hpointer _).trans (h.pointerType? hy)
      redeclares := h.redeclares.trans hmono
      globals_eq := fun {n} hn => ?_
      symbol := (symbol?_publish ..).trans h.symbol
      not_isPlainName := h.not_isPlainName
      cases := ?_ }
  · rcases h.pointerTypes hy with hy | ⟨hq, hnone, hform⟩
    · exact .inl hy
    · exact .inr ⟨hq, hnone, hform.mono rfl hmono⟩
  · have hne : n ≠ s.name := fun heq => h.not_isPlainName (heq ▸ hn)
    rw [Library.publish, OrderedMap.get?_insert, if_neg hne, h.globals_eq hn]
  · rcases h.cases with hforeign | ⟨hlibrary, hclass, -, hspan, hmembers⟩
    · exact .inl hforeign
    · refine .inr ⟨hlibrary, hclass, ?_, hspan, hmembers.mono rfl hmono⟩
      rw [Library.publish, OrderedMap.get?_insert, if_pos rfl, Option.isSome_some]

/-- The class keeps its own node with a type of the library itself. -/
theorem IsApart.redeclares_setDeclaration (hlib : lib.IsApart) (x : SymbolId) (n : NodeId) :
    lib.Redeclares (lib.setDeclaration x n) := by
  intro y s hs
  rw [setDeclaration, hlib.symbol?_update, hs]
  split
  · exact ⟨some n, rfl⟩
  · exact ⟨s.declaration, rfl⟩

/-- The node is noted in a symbol, and nowhere else. -/
theorem setDeclaration_eq (lib : Library) (x : SymbolId) (n : NodeId) :
    ∃ symbols, lib.setDeclaration x n = { lib with symbols } :=
  exists_update_eq lib x fun s => { s with declaration := some n }

/-- The pointer type is there already. -/
theorem IsApart.placesStar_of_some (hlib : lib.IsApart) (n : NodeId) (hp : lib.nameless? = some p)
    (hx : lib.pointerType? p = some x) {s : Symbol} (hs : lib.symbol? x = some s)
    (hplain : ¬IsPlainName s.name) (hown : x.library = lib.id →
      (lib.globals.get? s.name).isSome ∧ lib.HasMembers x fun _ => none) :
    ∃ s', lib.PlacesStar p x (lib.setDeclaration x n) s' ∧
      (lib.setDeclaration x n).globals = lib.globals := by
  have hredeclares := hlib.redeclares_setDeclaration x n
  obtain ⟨declaration, hs'⟩ := hredeclares hs
  obtain ⟨symbols, hplaced⟩ := lib.setDeclaration_eq x n
  have hpointer (q : SymbolId) :
      ({ lib with symbols } : Library).pointerType? q = lib.pointerType? q := by
    rw [pointerType?_eq_or, pointerType?_eq_or]
  have hname : lib.nameOf x = s.name := by rw [nameOf, hs]
  rw [hplaced] at hredeclares hs' ⊢
  refine ⟨_, ⟨rfl, rfl, rfl, .inl, (hpointer p).trans hx, fun hy => (hpointer _).trans hy,
    hredeclares, fun _ => rfl, hs', hplain, ?_⟩, rfl⟩
  by_cases hlibrary : x.library = lib.id
  · obtain ⟨hsome, hmembers⟩ := hown hlibrary
    refine .inr ⟨hlibrary, ?_, hsome, .inr hsome, hmembers.mono rfl hredeclares⟩
    rw [starClass, hp, Option.elim_some, hx, Option.elim_some, if_pos hlibrary, hname]
  · refine .inl ⟨hlibrary, ?_⟩
    rw [starClass, hp, Option.elim_some, hx, Option.elim_some, if_neg hlibrary, hname]

/-- The pointer type is made. -/
theorem IsApart.placesStar_of_makes (hlib : lib.IsApart) (n : NodeId)
    (hp : lib.nameless? = some p) (hnone : lib.pointerType? p = none) {lib₁ : Library}
    (hmakes : lib.MakesType x (lib.pointerSymbol p) ⟨.pointer p, .empty⟩ lib₁)
    (hpointers : lib₁.pointerTypes = lib.pointerTypes.insert p x)
    (hfunctions : lib₁.functionTypes = lib.functionTypes) :
    ∃ s, lib.PlacesStar p x (lib₁.setDeclaration x n) s := by
  have hmade := hmakes.interns.isApart hlib
  have hself := (hmakes.symbol?_eq x).trans (if_pos rfl)
  obtain ⟨declaration, hs'⟩ := hmade.redeclares_setDeclaration x n hself
  have hredeclares := (Redeclares.of_symbol? hmakes.interns.symbol?_mono).trans
    (hmade.redeclares_setDeclaration x n)
  obtain ⟨symbols, hplaced⟩ := lib₁.setDeclaration_eq x n
  rw [hplaced] at hredeclares hs' ⊢
  have hlibrary : x.library = lib₁.id := hmakes.library_eq.trans hmakes.id_eq.symm
  have hform : ({ lib₁ with symbols } : Library).HasForm x (lib.nameOf p ++ "*") (.pointer p) :=
    ⟨hlibrary, _, hs', rfl, rfl, rfl⟩
  have hpointer (q : SymbolId) : ({ lib₁ with symbols } : Library).pointerType? q =
      (if q = p then some x else lib.pointerTypes.get? q).or
        ((reachAll lib.dependencies).findSome? (·.pointerTypes.get? q)) := by
    rw [pointerType?_eq_or, ← hmakes.dependencies_eq, ← OrderedMap.get?_insert, ← hpointers]
  refine ⟨_, hmakes.id_eq, hmakes.dependencies_eq, hfunctions, fun {q y} hy => ?_, ?_,
    fun {q y} hy => ?_, hredeclares, fun hplain => hmakes.interns.globals_eq hplain, hs',
    hmakes.not_isPlainName, .inr ⟨hmakes.library_eq, ?_, ?_, .inl rfl, hlibrary, _, _, hs', rfl,
      fun _ => rfl⟩⟩
  · rw [hpointers, OrderedMap.get?_insert] at hy
    split at hy
    · next heq => exact .inr ⟨heq, hnone, Option.some.inj hy ▸ hform⟩
    · exact .inl hy
  · rw [hpointer, if_pos rfl, Option.some_or]
  · have hne : q ≠ p := fun heq => by simp [← heq, hy] at hnone
    rw [hpointer, if_neg hne, ← pointerType?_eq_or, hy]
  · rw [starClass, hp, Option.elim_some, hnone]
    rfl
  · change (lib₁.globals.get? (lib.pointerSymbol p).name).isSome
    rw [hmakes.globals_eq, OrderedMap.get?_insertNew]
    simp

/-- Only a pointer type that is made is published. -/
theorem IsApart.placesStar (hlib : lib.IsApart) (n : NodeId) (hp : lib.nameless? = some p)
    (hnamed : ∀ {x}, lib.pointerType? p = some x → ∃ s, lib.symbol? x = some s ∧
      ¬IsPlainName s.name ∧ (x.library = lib.id →
        (lib.globals.get? s.name).isSome ∧ lib.HasMembers x fun _ => none)) :
    ∃ x lib' s, (lib.pointerTo p).1 = x ∧ (lib.pointerTo p).2.setDeclaration x n = lib' ∧
      lib.PlacesStar p x lib' s ∧ (x.library ≠ lib.id → lib'.globals = lib.globals) := by
  rcases hlib.pointerTo_cases p with ⟨x, hx, hrun⟩ | ⟨hnone, hmakes, hpointers, hfunctions⟩
  · obtain ⟨s, hs, hplain, hown⟩ := hnamed hx
    obtain ⟨s', hplaces, hglobals⟩ := hlib.placesStar_of_some n hp hx hs hplain hown
    exact ⟨x, _, s', by rw [hrun], by rw [hrun], hplaces, fun _ => hglobals⟩
  · obtain ⟨s, hplaces⟩ := hlib.placesStar_of_makes n hp hnone hmakes hpointers hfunctions
    exact ⟨_, _, s, rfl, rfl, hplaces, fun hne => absurd hmakes.library_eq hne⟩

end Library

/-! ## Errors -/

/-- Whether the class gets its name, unless that is taken. -/
def ClassDecl.isMade (star : StarClass) (d : ClassDecl) : Bool :=
  d.name.name != "*" || star != .missing

/-- The pointer type that a star stands for is published as soon as it is made, so that it cannot
be published once more. -/
def ClassDecl.errors (star : StarClass) (taken : String → Bool) (d : ClassDecl) :
    List SemanticError :=
  if d.name.name = "*" then
    match star with
    | .missing => [.symbolNotFound "" d.name.span]
    | .foreign _ => sameNames (takenNames taken [d.name])
    | .own name => if taken "*" then sameNames [d.name] else [.sameName name .dummy]
  else sameNames (takenNames taken [d.name])

/-- The errors about the names of classes. -/
def ClassDecl.listErrors (star : StarClass) (taken : String → Bool) :
    List ClassDecl → List SemanticError
  | [] => []
  | d :: ds => d.errors star taken ++
      listErrors star (fun n => taken n || (d.isMade star && n == d.name.name)) ds

namespace ClassDecl

variable {star : StarClass} {taken : String → Bool} {d : ClassDecl} {ds : List ClassDecl}

theorem isMade_of_ne (h : d.name.name ≠ "*") : d.isMade star = true := by
  simp [isMade, h]

theorem errors_of_ne (h : d.name.name ≠ "*") :
    d.errors star taken = sameNames (takenNames taken [d.name]) := if_neg h

theorem errors_of_eq (h : d.name.name = "*") : d.errors star taken = match star with
    | .missing => [.symbolNotFound "" d.name.span]
    | .foreign _ => sameNames (takenNames taken [d.name])
    | .own name => if taken "*" then sameNames [d.name] else [.sameName name .dummy] := if_pos h

/-- The errors are about names only. -/
theorem listErrors_congr {ds' : List ClassDecl}
    (h : ds'.map ClassDecl.name = ds.map ClassDecl.name) :
    listErrors star taken ds' = listErrors star taken ds := by
  induction ds generalizing ds' taken with
  | nil => rw [List.map_eq_nil_iff.1 h]
  | cons d ds ih =>
    obtain ⟨d', ds', rfl, hname, hnames⟩ := List.map_eq_cons_iff.1 h
    have herrors : d'.errors star taken = d.errors star taken := by
      rw [errors.eq_def, errors.eq_def, hname]
    rw [listErrors, listErrors, herrors, isMade, isMade, hname, ih hnames]

/-- Without a star, the errors are about names that are taken. -/
theorem listErrors_of_ne (h : ∀ d ∈ ds, d.name.name ≠ "*") :
    listErrors star taken ds = sameNames (takenNames taken (ds.map ClassDecl.name)) := by
  induction ds generalizing taken with
  | nil => rfl
  | cons d ds ih =>
    rw [List.forall_mem_cons] at h
    simp only [listErrors, errors_of_ne h.1, isMade_of_ne h.1, ih h.2, List.map_cons, takenNames,
      List.append_nil, sameNames_append, Bool.true_and]

end ClassDecl

/-! ## Classes that are declared -/

/-- A star may be the name of a class: of what a star stands for the library publishes nothing that
is not known to the unit. -/
structure Context.AllowsStar (c : Context) : Prop where
  empty : c.library.globals.get? "" = none
  library_ne : ∀ {p}, c.library.lookupGlobal? "" = some p → p.library ≠ c.library.id
  named : ∀ {p x}, c.library.nameless? = some p → c.library.pointerType? p = some x →
    ∃ s, c.library.symbol? x = some s ∧ ¬IsPlainName s.name ∧
      (x.library = c.library.id → (c.library.globals.get? s.name).isSome ∧
        c.library.HasMembers x fun _ => none)
  published : ∀ {n}, ¬IsPlainName n → (c.library.globals.get? n).isSome →
    (c.globals.get? "*").isSome

/-- Nothing is changed about what a star stands for, but that the pointer type may be there now. -/
structure Context.KeepsStar (c c' : Context) : Prop where
  allowsStar : c'.AllowsStar
  nameless?_eq : c'.library.nameless? = c.library.nameless?
  starClass_eq : c'.library.starClass = c.library.starClass
  pointerType? : ∀ {p x}, c.library.pointerType? p = some x → c'.library.pointerType? p = some x

/-- These classes are declared on top of what is there. Each has a type of its own that has no
members yet; those that are named by a star have what the star stands for. -/
structure Context.DeclaresClasses (c : Context) (ds : List ClassDecl) (c' : Context) : Prop where
  covers : c'.Covers IsPlainName
  publishes : ∀ {others}, c.Publishes others → c'.Publishes others
  errors_eq : c'.errors = c.errors ++
    ClassDecl.listErrors c.library.starClass (fun n => (c.globals.get? n).isSome) ds
  id_eq : c'.library.id = c.library.id
  dependencies_eq : c'.library.dependencies = c.library.dependencies
  functionTypes_eq : c'.library.functionTypes = c.library.functionTypes
  pointerTypes : ∀ {p x}, c'.library.pointerTypes.get? p = some x →
    c.library.pointerTypes.get? p = some x ∨ (∃ d ∈ ds, d.name.name = "*") ∧
      c.library.nameless? = some p ∧ c.library.pointerType? p = none ∧
      c'.library.HasForm x (c.library.nameOf p ++ "*") (.pointer p)
  redeclares : c.library.Redeclares c'.library
  form : ∀ d ∈ ds, d.name.name ≠ "*" → ∀ x, c'.annotations.symbols.get? d.place.id = some x →
    c.library.symbol? x = none ∧ c'.library.HasForm x d.name.name .classType
  hasMembers : ∀ d ∈ ds, d.name.name ≠ "*" → ∃ x, c'.annotations.symbols.get? d.place.id = some x ∧
    c'.library.HasMembers x fun _ => none
  inj : ∀ d ∈ ds, d.name.name ≠ "*" → ∀ e ∈ ds, e.name.name ≠ "*" →
    c'.annotations.symbols.get? d.place.id = c'.annotations.symbols.get? e.place.id →
    d.place.id = e.place.id
  star : ∀ d ∈ ds, d.name.name = "*" → c'.annotations.symbols.get? d.place.id = c'.library.star? ∧
    (c'.library.nameless?.isSome → c'.library.star?.isSome)
  keepsStar : c.AllowsStar → (∀ d ∈ ds, d.name.name ≠ "") → c.KeepsStar c'

/-- A class with a type of its own, which has no members yet. Perhaps its name is published, but no
other one is. -/
structure Context.MakesClass (c : Context) (d : ClassDecl) (x : SymbolId) (c' : Context) :
    Prop where
  id_eq : c'.library.id = c.library.id
  dependencies_eq : c'.library.dependencies = c.library.dependencies
  pointerTypes_eq : c'.library.pointerTypes = c.library.pointerTypes
  functionTypes_eq : c'.library.functionTypes = c.library.functionTypes
  symbol?_mono : ∀ {y t}, c.library.symbol? y = some t → c'.library.symbol? y = some t
  symbol : c'.annotations.symbols.get? d.place.id = some x
  isNew : c.library.symbol? x = none
  form : c'.library.HasForm x d.name.name .classType
  members : c'.library.HasMembers x fun _ => none
  globals_eq : ∀ n, n ≠ d.name.name → c'.library.globals.get? n = c.library.globals.get? n ∧
    c'.globals.get? n = c.globals.get? n

namespace Context.MakesClass

variable {c c' : Context} {d : ClassDecl} {x : SymbolId} (h : c.MakesClass d x c')

include h

theorem reports (errors : List SemanticError) : c.MakesClass d x { c' with errors } :=
  { h with }

/-- The name is published. -/
theorem declare : c.MakesClass d x (c'.declare d.name.name x) := by
  have hsymbol (y : SymbolId) :
      (c'.declare d.name.name x).library.symbol? y = c'.library.symbol? y :=
    Library.symbol?_publish ..
  have hmono : c'.library.Redeclares (c'.declare d.name.name x).library :=
    .of_symbol? fun hy => (hsymbol _).trans hy
  refine
    { h with
      symbol?_mono := fun hy => (hsymbol _).trans (h.symbol?_mono hy)
      form := h.form.mono rfl hmono
      members := h.members.mono rfl hmono
      globals_eq := fun n hn => ?_ }
  rw [← (h.globals_eq n hn).1, ← (h.globals_eq n hn).2]
  exact ⟨(OrderedMap.get?_insert ..).trans (if_neg hn),
    (OrderedMap.get?_insert ..).trans (if_neg hn)⟩

/-- A star stands for what it stood for. -/
theorem keepsStar (hlib : c.library.IsApart) (hplain : IsPlainName d.name.name)
    (hname : d.name.name ≠ "") (hstar : c.AllowsStar) : c.KeepsStar c' := by
  have hempty := (h.globals_eq "" hname.symm).1
  obtain ⟨hlookup, hnameless⟩ :=
    hlib.nameless?_eq h.id_eq h.dependencies_eq hempty hstar.library_ne
  have hpointer (p : SymbolId) : c'.library.pointerType? p = c.library.pointerType? p := by
    rw [Library.pointerType?_eq_or, Library.pointerType?_eq_or, h.pointerTypes_eq,
      h.dependencies_eq]
  have hredeclares : c.library.Redeclares c'.library := .of_symbol? h.symbol?_mono
  have hne {n : String} (hn : ¬IsPlainName n) : n ≠ d.name.name := fun heq => hn (heq ▸ hplain)
  refine ⟨⟨hempty.trans hstar.empty, fun {p} hp => ?_, fun {p y} hp hy => ?_,
    fun {n} hn hsome => ?_⟩, hnameless, ?_, fun hy => (hpointer _).trans hy⟩
  · exact h.id_eq ▸ hstar.library_ne (hlookup ▸ hp)
  · obtain ⟨t, ht, hplain', hown⟩ := hstar.named (hnameless ▸ hp) (hpointer p ▸ hy)
    refine ⟨t, h.symbol?_mono ht, hplain', fun hy => ?_⟩
    obtain ⟨hsome, hmembers⟩ := hown (h.id_eq ▸ hy)
    rw [(h.globals_eq t.name (hne hplain')).1]
    exact ⟨hsome, hmembers.mono h.id_eq hredeclares⟩
  · rw [(h.globals_eq "*" (hne (by decide))).2]
    rw [(h.globals_eq n (hne hn)).1] at hsome
    exact hstar.published hn hsome
  · rw [Library.starClass, Library.starClass, hnameless]
    cases hp : c.library.nameless? with
    | none => rfl
    | some p =>
      rw [Option.elim_some, Option.elim_some, hpointer]
      obtain ⟨t, ht⟩ := Option.isSome_iff_exists.1 (Option.filter_eq_some_iff.1 hp).2
      obtain ⟨u, hu, -⟩ := Option.bind_eq_some_iff.1 ht
      cases hy : c.library.pointerType? p with
      | none => rw [Option.elim_none, Option.elim_none, hredeclares.nameOf hu]
      | some y =>
        obtain ⟨u, hu, -⟩ := hstar.named hp hy
        rw [Option.elim_some, Option.elim_some, h.id_eq, hredeclares.nameOf hu]

theorem declaresClasses (hlib : c.library.IsApart) (hplain : IsPlainName d.name.name)
    (hcovers : c'.Covers IsPlainName)
    (hpublishes : ∀ {others}, c.Publishes others → c'.Publishes others)
    (herrors : c'.errors = c.errors ++
      sameNames (takenNames (fun n => (c.globals.get? n).isSome) [d.name])) :
    c.DeclaresClasses [d] c' := by
  have hne : d.name.name ≠ "*" := fun heq => absurd (heq ▸ hplain) (by decide)
  refine ⟨hcovers, hpublishes, ?_, h.id_eq, h.dependencies_eq, h.functionTypes_eq,
    fun hy => .inl (h.pointerTypes_eq ▸ hy), .of_symbol? h.symbol?_mono, ?_, ?_, ?_, ?_,
    fun hstar hnames => h.keepsStar hlib hplain (hnames d (List.mem_singleton_self d)) hstar⟩
  · rw [herrors, ClassDecl.listErrors_of_ne (List.forall_mem_singleton.2 hne), List.map_singleton]
  · simpa [h.symbol, hne] using ⟨h.isNew, h.form⟩
  · simpa [h.symbol, hne] using h.members
  · simp
  · simpa using fun heq => absurd heq hne

end Context.MakesClass

namespace Analyzing

variable {c : Context}

/-- A class with a plain name gets a type, whose name is left to declare. -/
theorem run_declareClass_makesClass (hlib : c.library.IsApart) (d : ClassDecl)
    (hplain : IsPlainName d.name.name) : ∃ c' x s, c.MakesClass d x c' ∧
      (declareClass d).run c = (declareGlobal d.name.name x d.name.span).run c' ∧
      c'.library.symbol? x = some s ∧ s.name = d.name.name ∧ c'.errors = c.errors ∧
      c'.globals = c.globals ∧ c'.library.globals = c.library.globals := by
  let s := Library.classSymbol d.name.name d.name.span
  let x := (c.library.alloc s).1
  let s' : Symbol := { s with declaration := some d.place.id }
  let lib := (c.library.alloc s).2.setDeclaration x d.place.id
  have hsymbol (y : SymbolId) : lib.symbol? y = if y = x then some s' else c.library.symbol? y := by
    have halloc : (c.library.alloc s).2.IsApart := hlib.congr rfl rfl
    refine (halloc.symbol?_update x _ y).trans ?_
    rw [hlib.symbol?_alloc]
    by_cases hy : y = x
    · simp [hy, x, s', Library.alloc]
    · simp [hy, x]
  have hnew : c.library.symbol? x = none := hlib.symbol?_alloc_fst s
  have hx : lib.symbol? x = some s' := (hsymbol x).trans (if_pos rfl)
  have hold {y : SymbolId} {t : Symbol} (hy : c.library.symbol? y = some t) :
      lib.symbol? y = some t := by
    rw [hsymbol, if_neg, hy]
    rintro rfl
    rw [hnew] at hy
    cases hy
  obtain ⟨symbols, hlib'⟩ := (c.library.alloc s).2.setDeclaration_eq x d.place.id
  have hlib' : lib = { c.library with symbols } := hlib'
  have hid : x.library = lib.id := (congrArg Library.id hlib').symm
  refine ⟨{ c with
    library := lib
    annotations := { c.annotations with symbols := c.annotations.symbols.insert d.place.id x } },
    x, s', ⟨by rw [hlib'], by rw [hlib'], by rw [hlib'], by rw [hlib'], hold, ?_, hnew,
      ⟨hid, s', hx, rfl, rfl, rfl⟩, ⟨hid, s', _, hx, rfl, fun _ => rfl⟩,
      fun n _ => ⟨by rw [hlib'], rfl⟩⟩, ?_, hx, rfl, rfl, rfl, by rw [hlib']⟩
  · exact (OrderedMap.get?_insert ..).trans (if_pos rfl)
  · rw [run_declareClass_eq, Library.createType_of_isPlainName _ hplain]
    simp only [Except.toOption, run_placeClass, failure, List.append_nil]
    rfl

/-- A class with a plain name is declared. -/
theorem declaresClasses_of_isPlainName (hlib : c.library.IsApart) (hc : c.Covers IsPlainName)
    (d : ClassDecl) (hplain : IsPlainName d.name.name) :
    c.DeclaresClasses [d] ((declareClass d).run c).2 := by
  obtain ⟨c₁, x, s, hmakes, hrun, hs, hname, herrors, hglobals, hpublished⟩ :=
    run_declareClass_makesClass hlib d hplain
  have hcovers : c₁.Covers IsPlainName := by
    intro n hn
    rw [hpublished, hglobals]
    exact hc hn
  have hpublishes {others : String → Option SymbolId} (hothers : c.Publishes others) :
      c₁.Publishes others := by
    intro n hn
    rw [hpublished, hglobals]
    exact hothers hn
  rw [hrun, run_declareGlobal_of_covers hcovers d.name.span hplain hs hname]
  by_cases htaken : (c₁.globals.get? d.name.name).isSome
  · rw [if_pos htaken]
    refine (hmakes.reports _).declaresClasses hlib hplain hcovers hpublishes ?_
    simp [takenNames, sameNames, ← hglobals, htaken, herrors]
  · rw [if_neg htaken]
    have hnone := Option.not_isSome_iff_eq_none.1 htaken
    refine hmakes.declare.declaresClasses hlib hplain (hcovers.declare _ _)
      (fun hothers => (hpublishes hothers).declare hnone x) ?_
    simp [takenNames, sameNames, ← hglobals, hnone, Context.declare, herrors]

/-- A class that is named by a star is placed. Its name is taken, or the library has the pointer
type already, or it is published now. -/
theorem run_declareClass_of_star (hlib : c.library.IsApart) (hstar : c.AllowsStar) {d : ClassDecl}
    (hname : d.name.name = "*") {p : SymbolId} (hp : c.library.nameless? = some p) :
    ∃ c' x s, (declareClass d).run c = ((), c') ∧ c.library.PlacesStar p x c'.library s ∧
      (c'.globals.get? "*").isSome ∧ (∀ n, n ≠ "*" → c'.globals.get? n = c.globals.get? n) ∧
      c'.annotations.symbols.get? d.place.id = some x ∧ c'.errors = c.errors ++
        d.errors c.library.starClass fun n => (c.globals.get? n).isSome := by
  obtain ⟨x, lib, s, hx, hlib', hplaces, hforeign⟩ :=
    hlib.placesStar d.place.id hp fun {x} => hstar.named hp
  have hrun : (declareClass d).run c = (declareGlobal "*" x d.name.span).run { c with
      library := lib
      annotations := { c.annotations with
        symbols := c.annotations.symbols.insert d.place.id x } } := by
    rw [run_declareClass_eq, hname, Library.createType_star, hp, ← hlib', ← hx]
    simp only [Option.elim_some, Except.toOption, run_placeClass, failure, List.append_nil, hname]
  have herrors : d.errors c.library.starClass (fun n => (c.globals.get? n).isSome) =
      if (c.globals.get? "*").isSome then [.sameName "*" d.name.span]
      else if (lib.globals.get? s.name).isSome then [.sameName s.name s.span] else [] := by
    have hsame : sameNames [d.name] = [.sameName "*" d.name.span] := by
      rw [sameNames, List.map_singleton, hname]
    rw [ClassDecl.errors_of_eq hname]
    by_cases htaken : (c.globals.get? "*").isSome
    · rw [if_pos htaken]
      rcases hplaces.cases with ⟨-, hclass⟩ | ⟨-, hclass, -⟩
      · rw [hclass]
        simpa [takenNames, hname, htaken] using hsame
      · rw [hclass]
        exact (if_pos htaken).trans hsame
    · have hnew : ¬(c.library.globals.get? s.name).isSome :=
        fun hsome => htaken (hstar.published hplaces.not_isPlainName hsome)
      rw [if_neg htaken]
      rcases hplaces.cases with ⟨hlibrary, hclass⟩ | ⟨-, hclass, hsome, hdummy, -⟩
      · rw [hclass, hforeign hlibrary, if_neg hnew]
        simp [takenNames, sameNames, hname, htaken]
      · rw [hclass, if_pos hsome, hdummy.resolve_right hnew]
        exact if_neg htaken
  have hinsert : ((c.globals.insert "*" x).get? "*").isSome := by
    rw [OrderedMap.get?_insert, if_pos rfl, Option.isSome_some]
  have hothers : ∀ n, n ≠ "*" → (c.globals.insert "*" x).get? n = c.globals.get? n :=
    fun n hn => (OrderedMap.get?_insert ..).trans (if_neg hn)
  have hrow : (c.annotations.symbols.insert d.place.id x).get? d.place.id = some x :=
    (OrderedMap.get?_insert ..).trans (if_pos rfl)
  rw [hrun, run_declareGlobal_eq hplaces.symbol, herrors]
  by_cases htaken : (c.globals.get? "*").isSome
  · rw [if_pos htaken, if_pos htaken]
    exact ⟨_, x, s, rfl, hplaces, htaken, fun _ _ => rfl, hrow, rfl⟩
  · rw [if_neg htaken, if_neg htaken]
    by_cases hpublished : (lib.globals.get? s.name).isSome
    · rw [if_pos hpublished, if_pos hpublished]
      exact ⟨_, x, s, rfl, hplaces, hinsert, hothers, hrow, rfl⟩
    · rw [if_neg hpublished, if_neg hpublished]
      exact ⟨_, x, s, rfl, hplaces.publish, hinsert, hothers, hrow, (List.append_nil _).symm⟩

/-- A star stands for what it stood for. -/
theorem keepsStar_of_placesStar (hlib : c.library.IsApart) (hstar : c.AllowsStar) {p x : SymbolId}
    (hp : c.library.nameless? = some p) {c' : Context} {s : Symbol}
    (hplaces : c.library.PlacesStar p x c'.library s) (htaken : (c'.globals.get? "*").isSome) :
    c.KeepsStar c' := by
  have hempty : c'.library.globals.get? "" = c.library.globals.get? "" :=
    hplaces.globals_eq (by decide)
  obtain ⟨hlookup, hnameless⟩ :=
    hlib.nameless?_eq hplaces.id_eq hplaces.dependencies_eq hempty hstar.library_ne
  refine ⟨⟨hempty.trans hstar.empty, fun {q} hq => ?_, fun {q y} hq hy => ?_, fun _ _ => htaken⟩,
    hnameless, ?_, hplaces.pointerType?⟩
  · rw [hplaces.id_eq]
    exact hstar.library_ne (hlookup ▸ hq)
  · obtain rfl := Option.some.inj (hp.symm.trans (hnameless ▸ hq))
    obtain rfl := Option.some.inj (hplaces.pointerType?_self.symm.trans hy)
    refine ⟨s, hplaces.symbol, hplaces.not_isPlainName, fun hx => ?_⟩
    rcases hplaces.cases with ⟨hne, -⟩ | ⟨-, -, hsome, -, hmembers⟩
    · exact absurd (hplaces.id_eq ▸ hx) hne
    · exact ⟨hsome, hmembers⟩
  · rw [Library.starClass, hnameless, hp, Option.elim_some, hplaces.pointerType?_self,
      Option.elim_some, hplaces.id_eq, Library.nameOf, hplaces.symbol]
    rcases hplaces.cases with ⟨hne, hclass⟩ | ⟨heq, hclass, -⟩
    · rw [if_neg hne, hclass]
    · rw [if_pos heq, hclass]

/-- A star stands for nothing, so that the class has no symbol. -/
theorem declaresClasses_of_missing (hc : c.Covers IsPlainName) {d : ClassDecl}
    (hname : d.name.name = "*") (hp : c.library.nameless? = none)
    (hnew : c.annotations.symbols.get? d.place.id = none) :
    c.DeclaresClasses [d] ((declareClass d).run c).2 := by
  have herrors : ClassDecl.listErrors c.library.starClass (fun n => (c.globals.get? n).isSome) [d] =
      [.symbolNotFound "" d.name.span] := by
    rw [Library.starClass, hp, Option.elim_none, ClassDecl.listErrors, ClassDecl.errors_of_eq hname]
    rfl
  have hrun := run_declareClass_eq d c
  rw [hname, Library.createType_star, hp] at hrun
  have hrun : (declareClass d).run c = ((), { c with
      errors := c.errors ++ [.symbolNotFound "" d.name.span] }) := hrun
  rw [hrun]
  refine ⟨hc, fun h => h, congrArg _ herrors.symm, rfl, rfl, rfl, .inl, .of_symbol? fun h => h,
    ?_, ?_, ?_, ?_, fun h _ => ⟨⟨h.empty, h.library_ne, h.named, h.published⟩, rfl, rfl,
      fun h => h⟩⟩
  · simp [hname]
  · simp [hname]
  · simp [hname]
  · simp [hnew, Library.star?, hp]

/-- A class that is named by a star gets what a star stands for. -/
theorem declaresClasses_of_star (hlib : c.library.IsApart) (hc : c.Covers IsPlainName)
    (hstar : c.AllowsStar) {d : ClassDecl} (hname : d.name.name = "*")
    (hnew : c.annotations.symbols.get? d.place.id = none) :
    c.DeclaresClasses [d] ((declareClass d).run c).2 := by
  cases hp : c.library.nameless? with
  | none => exact declaresClasses_of_missing hc hname hp hnew
  | some p =>
    obtain ⟨c', x, s, hrun, hplaces, htaken, hglobals, hrow, herrors⟩ :=
      run_declareClass_of_star hlib hstar hname hp
    have hkeeps := keepsStar_of_placesStar hlib hstar hp hplaces htaken
    have hne {n : String} (hn : IsPlainName n) : n ≠ "*" := by
      rintro rfl
      exact absurd hn (by decide)
    have hstarred : c'.library.star? = some x := by
      rw [Library.star?, hkeeps.nameless?_eq, hp, Option.bind_some, hplaces.pointerType?_self]
    rw [hrun]
    refine ⟨fun n hn hsome => ?_, fun hothers n hn => ?_, ?_, hplaces.id_eq,
      hplaces.dependencies_eq, hplaces.functionTypes_eq, fun hy => ?_, hplaces.redeclares, ?_, ?_,
      ?_, ?_, fun _ _ => hkeeps⟩
    · rw [hglobals n (hne hn)]
      exact hc hn (hplaces.globals_eq hn ▸ hsome)
    · rw [hglobals n (hne hn), hplaces.globals_eq hn, hothers hn]
    · rw [herrors, ClassDecl.listErrors, ClassDecl.listErrors, List.append_nil]
    · rcases hplaces.pointerTypes hy with hy | ⟨rfl, hnone, hform⟩
      · exact .inl hy
      · exact .inr ⟨⟨d, List.mem_singleton_self d, hname⟩, hp, hnone, hform⟩
    · simp [hname]
    · simp [hname]
    · simp [hname]
    · simp [hrow, hstarred]

end Analyzing

/-- If a star is the name of one of the classes, it may be, and all of them have names. -/
def Context.AllowsNames (c : Context) (ds : List ClassDecl) : Prop :=
  (∃ d ∈ ds, d.name.name = "*") → c.AllowsStar ∧ ∀ d ∈ ds, d.name.name ≠ ""

theorem Context.AllowsNames.head {c : Context} {d : ClassDecl} {ds : List ClassDecl}
    (h : c.AllowsNames (d :: ds)) : c.AllowsNames [d] := by
  rintro ⟨e, he, hname⟩
  obtain rfl := List.mem_singleton.1 he
  obtain ⟨hc, hnames⟩ := h ⟨e, List.mem_cons_self, hname⟩
  exact ⟨hc, List.forall_mem_singleton.2 (hnames e List.mem_cons_self)⟩

namespace Context.KeepsStar

variable {c c₁ c' : Context}

theorem trans (h : c.KeepsStar c₁) (h' : c₁.KeepsStar c') : c.KeepsStar c' where
  allowsStar := h'.allowsStar
  nameless?_eq := h'.nameless?_eq.trans h.nameless?_eq
  starClass_eq := h'.starClass_eq.trans h.starClass_eq
  pointerType? hx := h'.pointerType? (h.pointerType? hx)

/-- A star that stands for something stands for the same. -/
theorem star?_eq (h : c.KeepsStar c')
    (hsome : c.library.nameless?.isSome → c.library.star?.isSome) :
    c'.library.star? = c.library.star? := by
  rw [Library.star?, Library.star?, h.nameless?_eq]
  cases hp : c.library.nameless? with
  | none => rfl
  | some p =>
    obtain ⟨x, hx⟩ := Option.isSome_iff_exists.1 (hsome (by rw [hp]; rfl))
    rw [Library.star?, hp, Option.bind_some] at hx
    rw [Option.bind_some, Option.bind_some, hx, h.pointerType? hx]

end Context.KeepsStar

namespace Context.DeclaresClasses

variable {c c₁ c' : Context} {d : ClassDecl} {ds : List ClassDecl}

/-- Whether a class gets its name. -/
theorem isSome_symbol (h : c.DeclaresClasses [d] c₁) (hstar : c.AllowsNames [d]) :
    (c₁.annotations.symbols.get? d.place.id).isSome = d.isMade c.library.starClass := by
  by_cases hname : d.name.name = "*"
  · obtain ⟨hallows, hnames⟩ := hstar ⟨d, List.mem_singleton_self d, hname⟩
    obtain ⟨hrow, hsome⟩ := h.star d (List.mem_singleton_self d) hname
    rw [hrow, ClassDecl.isMade, hname, ← (h.keepsStar hallows hnames).starClass_eq]
    cases hp : c₁.library.nameless? with
    | none =>
      rw [Library.starClass_eq_missing.2 hp, Library.star?, hp]
      rfl
    | some p =>
      rw [hsome (by rw [hp]; rfl), eq_comm]
      simp [Library.starClass_eq_missing, hp]
  · obtain ⟨x, hx, -⟩ := h.hasMembers d (List.mem_singleton_self d) hname
    rw [hx, ClassDecl.isMade_of_ne hname, Option.isSome_some]

/-- The first of the classes takes its name. -/
theorem listErrors_cons (h : c.DeclaresClasses [d] c₁)
    (hglobals : ∀ n, c₁.globals.get? n = (c.globals.get? n).or (c₁.denoted? [d.entry] n))
    (hstar : c.AllowsNames (d :: ds)) :
    ClassDecl.listErrors c.library.starClass (fun n => (c.globals.get? n).isSome) (d :: ds) =
      ClassDecl.listErrors c.library.starClass (fun n => (c.globals.get? n).isSome) [d] ++
        ClassDecl.listErrors c₁.library.starClass (fun n => (c₁.globals.get? n).isSome) ds := by
  have htaken : (fun n => (c₁.globals.get? n).isSome) = fun n =>
      (c.globals.get? n).isSome || (d.isMade c.library.starClass && n == d.name.name) := by
    funext n
    rw [hglobals, Option.isSome_or, ← h.isSome_symbol hstar.head, Context.denoted?,
      List.findSome?_singleton]
    by_cases hn : n = d.name.name
    · simp [ClassDecl.entry, hn]
    · simp [ClassDecl.entry, hn, Ne.symm hn]
  have hrest : ClassDecl.listErrors c₁.library.starClass (fun n => (c₁.globals.get? n).isSome) ds =
      ClassDecl.listErrors c.library.starClass (fun n => (c₁.globals.get? n).isSome) ds := by
    by_cases hnames : ∃ e ∈ d :: ds, e.name.name = "*"
    · obtain ⟨hc, hne⟩ := hstar hnames
      rw [(h.keepsStar hc (List.forall_mem_singleton.2 (hne d List.mem_cons_self))).starClass_eq]
    · have hne : ∀ e ∈ ds, e.name.name ≠ "*" := fun e he heq =>
        hnames ⟨e, List.mem_cons_of_mem d he, heq⟩
      rw [ClassDecl.listErrors_of_ne hne, ClassDecl.listErrors_of_ne hne]
  rw [hrest, htaken, ClassDecl.listErrors, ClassDecl.listErrors, ClassDecl.listErrors,
    List.append_nil]

/-- A class is declared, and then others. -/
theorem cons (h : c.DeclaresClasses [d] c₁) (h' : c₁.DeclaresClasses ds c')
    (hrow : c'.annotations.symbols.get? d.place.id = c₁.annotations.symbols.get? d.place.id)
    (hglobals : ∀ n, c₁.globals.get? n = (c.globals.get? n).or (c₁.denoted? [d.entry] n))
    (hstar : c.AllowsNames (d :: ds)) : c.DeclaresClasses (d :: ds) c' := by
  have hd : d ∈ [d] := List.mem_singleton_self d
  have hkeeps (hc : c.AllowsStar) (hnames : ∀ e ∈ d :: ds, e.name.name ≠ "") :
      c.KeepsStar c₁ ∧ c₁.KeepsStar c' := by
    rw [List.forall_mem_cons] at hnames
    have hfirst := h.keepsStar hc (List.forall_mem_singleton.2 hnames.1)
    exact ⟨hfirst, h'.keepsStar hfirst.allowsStar hnames.2⟩
  have hnone {x : SymbolId} (hx : c₁.library.symbol? x = none) : c.library.symbol? x = none := by
    rw [Option.eq_none_iff_forall_ne_some]
    intro s hs
    obtain ⟨_, hs'⟩ := h.redeclares hs
    rw [hx] at hs'
    cases hs'
  refine ⟨h'.covers, fun hothers => h'.publishes (h.publishes hothers), ?_, h'.id_eq.trans h.id_eq,
    h'.dependencies_eq.trans h.dependencies_eq, h'.functionTypes_eq.trans h.functionTypes_eq,
    fun {p x} hx => ?_, h.redeclares.trans h'.redeclares, ?_, ?_, ?_, ?_,
    fun hc hnames => (hkeeps hc hnames).1.trans (hkeeps hc hnames).2⟩
  · rw [h'.errors_eq, h.errors_eq, h.listErrors_cons hglobals hstar, List.append_assoc]
  · rcases h'.pointerTypes hx with hx | ⟨⟨e, he, hname⟩, hp, hx, hform⟩
    · rcases h.pointerTypes hx with hx | ⟨⟨e, he, hname⟩, hp, hx, hform⟩
      · exact .inl hx
      · obtain rfl := List.mem_singleton.1 he
        exact .inr ⟨⟨e, List.mem_cons_self, hname⟩, hp, hx, hform.mono h'.id_eq h'.redeclares⟩
    · have hmem := List.mem_cons_of_mem d he
      obtain ⟨hc, hnames⟩ := hstar ⟨e, hmem, hname⟩
      have hfirst := (hkeeps hc hnames).1
      rw [hfirst.nameless?_eq] at hp
      have hnew : c.library.pointerType? p = none := by
        rw [Option.eq_none_iff_forall_ne_some]
        intro y hy
        rw [hfirst.pointerType? hy] at hx
        cases hx
      refine .inr ⟨⟨e, hmem, hname⟩, hp, hnew, ?_⟩
      obtain ⟨t, ht⟩ := Option.isSome_iff_exists.1 (Option.filter_eq_some_iff.1 hp).2
      obtain ⟨s, hs, -⟩ := Option.bind_eq_some_iff.1 ht
      rwa [h.redeclares.nameOf hs] at hform
  · rw [List.forall_mem_cons]
    refine ⟨fun hname x hx => ?_, fun e he hname x hx => ?_⟩
    · obtain ⟨hnew, hform⟩ := h.form d hd hname x (hrow ▸ hx)
      exact ⟨hnew, hform.mono h'.id_eq h'.redeclares⟩
    · obtain ⟨hnew, hform⟩ := h'.form e he hname x hx
      exact ⟨hnone hnew, hform⟩
  · rw [List.forall_mem_cons]
    refine ⟨fun hname => ?_, h'.hasMembers⟩
    obtain ⟨x, hx, hmembers⟩ := h.hasMembers d hd hname
    exact ⟨x, hrow.trans hx, hmembers.mono h'.id_eq h'.redeclares⟩
  · -- a later class gets a symbol that was not there when `d` got its own
    have hother (hname : d.name.name ≠ "*") : ∀ e ∈ ds, e.name.name ≠ "*" →
        c'.annotations.symbols.get? d.place.id ≠ c'.annotations.symbols.get? e.place.id := by
      intro e he hne heq
      obtain ⟨x, hx, hmembers⟩ := h.hasMembers d hd hname
      obtain ⟨s, t, hs, -⟩ := hmembers.entries
      have hnew := (h'.form e he hne x (heq.symm.trans (hrow.trans hx))).1
      rw [hs] at hnew
      cases hnew
    simp only [List.forall_mem_cons]
    exact ⟨fun hname => ⟨fun _ _ => trivial,
        fun e he hne heq => absurd heq (hother hname e he hne)⟩,
      fun e he hne => ⟨fun hname heq => absurd heq.symm (hother hname e he hne), h'.inj e he hne⟩⟩
  · rw [List.forall_mem_cons]
    refine ⟨fun hname => ?_, h'.star⟩
    obtain ⟨hc, hnames⟩ := hstar ⟨d, List.mem_cons_self, hname⟩
    obtain ⟨hrow₁, hsome⟩ := h.star d hd hname
    rw [hrow, (hkeeps hc hnames).2.star?_eq hsome, (hkeeps hc hnames).2.nameless?_eq]
    exact ⟨hrow₁, hsome⟩

end Context.DeclaresClasses

namespace Analyzing

variable {c : Context}

/-- The first phase. -/
theorem declaresClasses (hlib : c.library.IsApart) (hc : c.Covers IsPlainName) (ds : List ClassDecl)
    (hnames : ∀ d ∈ ds, IsPlainName d.name.name ∨ d.name.name = "*") (hstar : c.AllowsNames ds)
    (hnodup : (ds.map fun d => d.place.id).Nodup)
    (hnew : ∀ d ∈ ds, c.annotations.symbols.get? d.place.id = none) :
    c.DeclaresClasses ds ((ds.forM declareClass).run c).2 := by
  induction ds generalizing c with
  | nil =>
    exact ⟨hc, fun h => h, (List.append_nil _).symm, rfl, rfl, rfl, .inl, .of_symbol? fun h => h,
      by simp, by simp, by simp, by simp, fun h _ => ⟨h, rfl, rfl, fun h => h⟩⟩
  | cons d ds ih =>
    rw [List.map_cons, List.nodup_cons] at hnodup
    rw [List.forall_mem_cons] at hnames hnew
    have hfirst : c.DeclaresClasses [d] ((declareClass d).run c).2 := by
      rcases hnames.1 with hplain | hname
      · exact declaresClasses_of_isPlainName hlib hc d hplain
      · exact declaresClasses_of_star hlib hc (hstar ⟨d, List.mem_cons_self, hname⟩).1 hname hnew.1
    obtain ⟨c₁, hrun, -, hlib₁, hrows, hglobals⟩ := run_declareClass hlib d hnew.1
    have hne : ∀ e ∈ ds, e.place.id ≠ d.place.id := fun e he heq =>
      hnodup.1 (heq ▸ List.mem_map_of_mem (f := fun d : ClassDecl => d.place.id) he)
    have hnew₁ : ∀ e ∈ ds, c₁.annotations.symbols.get? e.place.id = none := fun e he =>
      (hrows _ (hne e he)).trans (hnew.2 e he)
    obtain ⟨c', hrun', -, -, hrows', -⟩ := run_declareClasses hlib₁ ds hnodup.2 hnew₁
    change c.DeclaresClasses (d :: ds) ((ds.forM declareClass).run ((declareClass d).run c).2).2
    rw [hrun] at hfirst ⊢
    have hstar₁ : c₁.AllowsNames ds := by
      rintro ⟨e, he, hname⟩
      obtain ⟨hc, hnames⟩ := hstar ⟨e, List.mem_cons_of_mem d he, hname⟩
      rw [List.forall_mem_cons] at hnames
      exact ⟨(hfirst.keepsStar hc (List.forall_mem_singleton.2 hnames.1)).allowsStar, hnames.2⟩
    have hrest := ih hlib₁ hfirst.covers hnames.2 hstar₁ hnodup.2 hnew₁
    rw [hrun'] at hrest ⊢
    exact hfirst.cons hrest (hrows' _ hnodup.1) hglobals hstar

end Analyzing

end Sable
