import Sable.Proofs.Symbol.Lookup
import Sable.Proofs.Typing.Rules

/-!
# Interned types

A pointer type or a function type is found by what it is made of, or it is new. To make one adds
nothing else, and a type symbol stands for at most one type.

## Main definitions

* `Library.Interns`: nothing but interned types is added.
* `Library.MakesType`: a new type and what it changes.
* `Library.Denotes`: the type that a symbol stands for.

## Main statements

* `Library.IsApart.pointerTo_cases`, `Library.IsApart.functionType_cases`: a type is found or new.
* `Library.IsApart.interns_pointerType`, `Library.IsApart.interns_functionType`: interning.
* `Library.Denotes.unique`: a symbol stands for one type.
-/
namespace Sable

/-- The place of the type among the built-in ones. -/
def BuiltinType.index (t : BuiltinType) : Nat := t.ctorIdx

/-- Types that are made of others. -/
def TypeForm.IsMade : TypeForm → Prop
  | .pointer _ | .function .. => True
  | .primitive | .classType => False

/-- Names of interned types are marked by what no identifier has. In some vocabularies one of these
signs may begin an identifier. -/
def IsPlainName (name : String) : Prop :=
  name.toList.getLast? ≠ some '*' ∧ '(' ∉ name.toList.tail

instance : DecidablePred IsPlainName := fun _ => inferInstanceAs (Decidable (_ ∧ _))

theorem isPlainName_builtin (t : BuiltinType) : IsPlainName t.name := by
  cases t <;> simp [IsPlainName, BuiltinType.name, Library.voidName, Library.booleanName,
    Library.integerName, Library.floatName, Library.byteName, Library.nullName]

namespace Library

/-! ## The built-in types -/

section Core

variable (k : LibraryId)

/-- The symbol of a built-in type. -/
def builtin (t : BuiltinType) : SymbolId := ⟨k, t.index⟩

def coreSymbols : List Symbol :=
  BuiltinType.all.map (fun t => { name := t.name, kind := .type ⟨.primitive, .empty⟩, span := .dummy })
    ++ [BuiltinType.byte, BuiltinType.null].map fun t =>
      { name := t.name ++ "*", kind := .type ⟨.pointer (builtin k t), .empty⟩, span := .dummy }

theorem core_spec : (core k).id = k ∧ (core k).dependencies = [] ∧
    (core k).symbols = (coreSymbols k).toArray ∧
    (core k).globals.entries = BuiltinType.all.map (fun t => (t.name, builtin k t)) ++
      [("Byte*", ⟨k, 6⟩), ("Null*", ⟨k, 7⟩)] ∧
    (core k).pointerTypes.entries = [(builtin k .byte, ⟨k, 6⟩), (builtin k .null, ⟨k, 7⟩)] ∧
    (core k).functionTypes = .empty := by
  simp [core, primitive, pointerTo, alloc, publish, publishNew, pointerType?, new, firstSome?_eq,
    reach_eq, reachAll, OrderedMap.get?, OrderedMap.empty, OrderedMap.insert, OrderedMap.put,
    OrderedMap.insertNew, OrderedMap.contains, nameOf, symbol?, owned?, coreSymbols, builtin,
    BuiltinType.all, BuiltinType.name, BuiltinType.index, BuiltinType.ctorIdx, voidName,
    booleanName, integerName, floatName, byteName, nullName]

theorem core_id : (core k).id = k := (core_spec k).1

theorem core_dependencies : (core k).dependencies = [] := (core_spec k).2.1

theorem reachAll_core : reachAll [core k] = [core k] := by
  rw [reachAll, reachAll, List.append_nil, reach_eq, core_dependencies, reachAll]

theorem core_symbols : (core k).symbols = (coreSymbols k).toArray := (core_spec k).2.2.1

/-- What the built-in library owns, by index. -/
theorem core_owned? (x : SymbolId) :
    (core k).owned? x = if x.library = k then (coreSymbols k)[x.index]? else none := by
  rw [owned?, core_id, core_symbols, List.getElem?_toArray]

theorem coreSymbols_index (t : BuiltinType) : (coreSymbols k)[t.index]? =
    some { name := t.name, kind := .type ⟨.primitive, .empty⟩, span := .dummy } := by
  cases t <;> rfl

theorem core_pointerType? (p x : SymbolId) : (core k).pointerTypes.get? p = some x ↔
    p = builtin k .byte ∧ x = ⟨k, 6⟩ ∨ p = builtin k .null ∧ x = ⟨k, 7⟩ := by
  have hne : builtin k .byte ≠ builtin k .null := by simp [builtin, BuiltinType.index, BuiltinType.ctorIdx]
  rw [OrderedMap.get?, (core_spec k).2.2.2.2.1, OrderedMap.lookup_cons, OrderedMap.lookup_cons]
  grind

end Core

/-! ## Interning -/

/-- Nothing is new but interned types, which change nothing for plain names. -/
structure Interns (lib lib' : Library) : Prop where
  id_eq : lib'.id = lib.id
  dependencies_eq : lib'.dependencies = lib.dependencies
  symbol?_mono : ∀ {x s}, lib.symbol? x = some s → lib'.symbol? x = some s
  isMade : ∀ {x s}, lib'.symbol? x = some s →
    lib.symbol? x = some s ∨ ∃ n form, lib'.form? x = some (n, form) ∧ form.IsMade
  undeclared : ∀ {x s}, lib'.symbol? x = some s → lib.symbol? x = some s ∨ s.declaration = none
  globals_eq : ∀ {name}, IsPlainName name → lib'.globals.get? name = lib.globals.get? name

section Interns

variable {lib lib' lib'' : Library}

theorem Interns.refl (lib : Library) : lib.Interns lib :=
  ⟨rfl, rfl, fun h => h, .inl, .inl, fun _ => rfl⟩

theorem Interns.form?_mono (h : lib.Interns lib') {x : SymbolId} {nf : String × TypeForm}
    (hx : lib.form? x = some nf) : lib'.form? x = some nf := by
  obtain ⟨s, t, hs, hkind, hname, hform⟩ := form?_eq_some.1 hx
  exact form?_eq_some.2 ⟨s, t, h.symbol?_mono hs, hkind, hname, hform⟩

theorem Interns.trans (h : lib.Interns lib') (h' : lib'.Interns lib'') : lib.Interns lib'' where
  id_eq := h'.id_eq.trans h.id_eq
  dependencies_eq := h'.dependencies_eq.trans h.dependencies_eq
  symbol?_mono hx := h'.symbol?_mono (h.symbol?_mono hx)
  isMade hx := by
    rcases h'.isMade hx with hx | hx
    · rcases h.isMade hx with hx | ⟨n, form, hx, hform⟩
      · exact .inl hx
      · exact .inr ⟨n, form, h'.form?_mono hx, hform⟩
    · exact .inr hx
  undeclared hx := (h'.undeclared hx).elim h.undeclared .inr
  globals_eq hname := (h'.globals_eq hname).trans (h.globals_eq hname)

theorem Interns.isApart (h : lib.Interns lib') (hlib : lib.IsApart) : lib'.IsApart :=
  hlib.congr h.id_eq h.dependencies_eq

/-- No variable and no function is new. -/
theorem Interns.any_isValue (h : lib.Interns lib') (x : SymbolId) :
    (lib'.symbol? x).any Symbol.isValue = (lib.symbol? x).any Symbol.isValue := by
  cases hx : lib.symbol? x with
  | some s => rw [h.symbol?_mono hx]
  | none =>
    cases hx' : lib'.symbol? x with
    | none => rfl
    | some s =>
      rcases h.isMade hx' with hs | ⟨n, form, hform, -⟩
      · rw [hx] at hs
        exact absurd hs (by simp)
      · obtain ⟨s', t, hs', hkind, -⟩ := form?_eq_some.1 hform
        obtain rfl := Option.some.inj (hs'.symm.trans hx')
        simp [Symbol.isValue, hkind]

theorem not_isPlainName_append_star (name : String) : ¬IsPlainName (name ++ "*") := by
  rintro ⟨hstar, -⟩
  rw [String.toList_append, List.getLast?_append] at hstar
  exact hstar rfl

theorem not_isPlainName_functionTypeName (lib : Library) (ps : List SymbolId) (r : SymbolId) :
    ¬IsPlainName (lib.functionTypeName ps r) := by
  have hname : ∃ rest, (lib.functionTypeName ps r).toList = "function(".toList ++ rest := by
    rw [functionTypeName, String.append_assoc, String.append_assoc, String.toList_append]
    exact ⟨_, rfl⟩
  obtain ⟨rest, hrest⟩ := hname
  rintro ⟨-, hparen⟩
  simp [hrest] at hparen

/-- One type is new that is made of others, under a name that is not plain. -/
structure MakesType (lib : Library) (x : SymbolId) (s : Symbol) (t : TypeSymbol)
    (lib' : Library) : Prop where
  id_eq : lib'.id = lib.id
  dependencies_eq : lib'.dependencies = lib.dependencies
  library_eq : x.library = lib.id
  fresh : lib.symbol? x = none
  symbol?_eq : ∀ y, lib'.symbol? y = if y = x then some s else lib.symbol? y
  kind_eq : s.kind = .type t
  undeclared : s.declaration = none
  isMade : t.form.IsMade
  not_isPlainName : ¬IsPlainName s.name
  globals_eq : lib'.globals = lib.globals.insertNew s.name x

section MakesType

variable {x : SymbolId} {s : Symbol} {t : TypeSymbol}

theorem MakesType.form? (h : lib.MakesType x s t lib') :
    lib'.form? x = some (s.name, t.form) := by
  rw [form?_of_symbol? h.symbol?_eq, if_pos rfl, Symbol.type?, h.kind_eq, Option.map_some]

theorem MakesType.interns (h : lib.MakesType x s t lib') : lib.Interns lib' where
  id_eq := h.id_eq
  dependencies_eq := h.dependencies_eq
  symbol?_mono {y s'} hy := by
    rw [h.symbol?_eq, if_neg]
    · exact hy
    · rintro rfl
      rw [h.fresh] at hy
      exact absurd hy (by simp)
  isMade {y s'} hy := by
    rw [h.symbol?_eq] at hy
    split at hy
    · next hyx => exact .inr ⟨s.name, t.form, hyx ▸ h.form?, h.isMade⟩
    · exact .inl hy
  undeclared {y s'} hy := by
    rw [h.symbol?_eq] at hy
    split at hy
    · exact .inr (Option.some.inj hy ▸ h.undeclared)
    · exact .inl hy
  globals_eq {name} hplain := by
    rw [h.globals_eq, OrderedMap.get?_insertNew, if_neg]
    rintro rfl
    exact h.not_isPlainName hplain

/-- A symbol of an interned type, before it is entered into its table. -/
theorem IsApart.makesType (hlib : lib.IsApart) (hkind : s.kind = .type t)
    (hdeclaration : s.declaration = none) (hmade : t.form.IsMade) (hname : ¬IsPlainName s.name)
    (pointerTypes : OrderedMap SymbolId SymbolId)
    (functionTypes : OrderedMap (List SymbolId × SymbolId) SymbolId) :
    lib.MakesType (lib.alloc s).1 s t { (lib.alloc s).2 with
      pointerTypes, functionTypes, globals := lib.globals.insertNew s.name (lib.alloc s).1 } :=
  ⟨rfl, rfl, rfl, hlib.symbol?_alloc_fst s, fun y => (symbol?_congr rfl rfl rfl y).trans
    (hlib.symbol?_alloc s y), hkind, hdeclaration, hmade, hname, rfl⟩

end MakesType

/-- What a missing pointer type is made of. -/
def pointerSymbol (lib : Library) (p : SymbolId) : Symbol :=
  { name := lib.nameOf p ++ "*", kind := .type ⟨.pointer p, .empty⟩, span := .dummy }

def functionSymbol (lib : Library) (ps : List SymbolId) (r : SymbolId) : Symbol :=
  { name := lib.functionTypeName ps r, kind := .type ⟨.function ps r, .empty⟩, span := .dummy }

/-- A pointer type is found, or it is made. -/
theorem IsApart.pointerTo_cases (hlib : lib.IsApart) (p : SymbolId) :
    (∃ x, lib.pointerType? p = some x ∧ lib.pointerTo p = (x, lib)) ∨
      lib.pointerType? p = none ∧
        lib.MakesType (lib.pointerTo p).1 (lib.pointerSymbol p) ⟨.pointer p, .empty⟩
          (lib.pointerTo p).2 ∧
        (lib.pointerTo p).2.pointerTypes = lib.pointerTypes.insert p (lib.pointerTo p).1 ∧
        (lib.pointerTo p).2.functionTypes = lib.functionTypes := by
  cases hx : lib.pointerType? p with
  | some x => exact .inl ⟨x, rfl, by rw [pointerTo, hx]⟩
  | none =>
    refine .inr ⟨rfl, ?_⟩
    rw [pointerTo, hx]
    have hmade : (TypeForm.pointer p).IsMade := trivial
    have hname : ¬IsPlainName (lib.pointerSymbol p).name := not_isPlainName_append_star (lib.nameOf p)
    exact ⟨hlib.makesType rfl rfl hmade hname _ _, rfl, rfl⟩

theorem IsApart.functionType_cases (hlib : lib.IsApart) (ps : List SymbolId) (r : SymbolId) :
    (∃ x, lib.functionType? ps r = some x ∧ lib.functionType ps r = (x, lib)) ∨
      lib.functionType? ps r = none ∧
        lib.MakesType (lib.functionType ps r).1 (lib.functionSymbol ps r)
          ⟨.function ps r, .empty⟩ (lib.functionType ps r).2 ∧
        (lib.functionType ps r).2.pointerTypes = lib.pointerTypes ∧
        (lib.functionType ps r).2.functionTypes =
          lib.functionTypes.insert (ps, r) (lib.functionType ps r).1 := by
  cases hx : lib.functionType? ps r with
  | some x => exact .inl ⟨x, rfl, by rw [functionType, hx]⟩
  | none =>
    refine .inr ⟨rfl, ?_⟩
    rw [functionType, hx]
    have hmade : (TypeForm.function ps r).IsMade := trivial
    have hname : ¬IsPlainName (lib.functionSymbol ps r).name :=
      not_isPlainName_functionTypeName lib ps r
    exact ⟨hlib.makesType rfl rfl hmade hname _ _, rfl, rfl⟩

theorem IsApart.interns_pointerTo (hlib : lib.IsApart) (p : SymbolId) :
    lib.Interns (lib.pointerTo p).2 := by
  rcases hlib.pointerTo_cases p with ⟨x, -, hrun⟩ | ⟨-, hmakes, -⟩
  · rw [hrun]
    exact .refl lib
  · exact hmakes.interns

theorem IsApart.interns_functionType (hlib : lib.IsApart) (ps : List SymbolId) (r : SymbolId) :
    lib.Interns (lib.functionType ps r).2 := by
  rcases hlib.functionType_cases ps r with ⟨x, -, hrun⟩ | ⟨-, hmakes, -⟩
  · rw [hrun]
    exact .refl lib
  · exact hmakes.interns

theorem IsApart.interns_pointerType (hlib : lib.IsApart) (base : SymbolId) (depth : Nat) :
    lib.Interns (lib.pointerType base depth).2 := by
  induction depth generalizing lib base with
  | zero => exact .refl lib
  | succ depth ih =>
    have hinterns := hlib.interns_pointerTo base
    exact hinterns.trans (ih (hinterns.isApart hlib) _)

/-- A type is not published under a star alone, unless it is the pointer type of one without a name. -/
theorem IsApart.get?_globals_star_pointerTo (hlib : lib.IsApart) {p : SymbolId}
    (hp : lib.nameOf p ≠ "") : (lib.pointerTo p).2.globals.get? "*" = lib.globals.get? "*" := by
  rcases hlib.pointerTo_cases p with ⟨x, -, hrun⟩ | ⟨-, hmakes, -⟩
  · rw [hrun]
  · rw [hmakes.globals_eq, OrderedMap.get?_insertNew, if_neg]
    intro heq
    have hlist := congrArg String.toList heq
    rw [pointerSymbol, String.toList_append] at hlist
    exact hp (by simpa using hlist)

theorem IsApart.get?_globals_star_functionType (hlib : lib.IsApart) (ps : List SymbolId)
    (r : SymbolId) : (lib.functionType ps r).2.globals.get? "*" = lib.globals.get? "*" := by
  rcases hlib.functionType_cases ps r with ⟨x, -, hrun⟩ | ⟨-, hmakes, -⟩
  · rw [hrun]
  · rw [hmakes.globals_eq, OrderedMap.get?_insertNew, if_neg]
    intro heq
    have hlist := congrArg (fun name => name.toList.head?) heq
    rw [functionSymbol, functionTypeName] at hlist
    simp at hlist

end Interns

/-! ## What a symbol stands for -/

mutual

/-- The type that a symbol stands for, as far as the library knows. -/
inductive Denotes (lib : Library) : SymbolId → Ty → Prop
  | builtin {x : SymbolId} {t : BuiltinType} (h : lib.form? x = some (t.name, .primitive)) :
      Denotes lib x (.builtin t)
  | classType {x : SymbolId} {name : String} (h : lib.form? x = some (name, .classType)) :
      Denotes lib x (.classType name)
  | pointer {x p : SymbolId} {name : String} {τ : Ty} (h : lib.form? x = some (name, .pointer p))
      (hp : Denotes lib p τ) : Denotes lib x (.pointer τ)
  | function {x r : SymbolId} {ps : List SymbolId} {name : String} {τs : List Ty} {τ : Ty}
      (h : lib.form? x = some (name, .function ps r)) (hps : DenoteAll lib ps τs)
      (hr : Denotes lib r τ) : Denotes lib x (.function τs τ)

inductive DenoteAll (lib : Library) : List SymbolId → List Ty → Prop
  | nil : DenoteAll lib [] []
  | cons {x : SymbolId} {xs : List SymbolId} {τ : Ty} {τs : List Ty} (h : Denotes lib x τ)
      (hs : DenoteAll lib xs τs) : DenoteAll lib (x :: xs) (τ :: τs)

end

section Denotes

variable {lib lib' : Library} {k : LibraryId}

theorem BuiltinType.name_injective {t t' : BuiltinType} (h : t.name = t'.name) : t = t' := by
  cases t <;> cases t' <;> first | rfl | exact absurd h (by decide)

mutual

/-- A symbol stands for one type. -/
theorem Denotes.unique :
    {x : SymbolId} → {τ σ : Ty} → lib.Denotes x τ → lib.Denotes x σ → τ = σ
  | _, .builtin t, _, .builtin h, h' => by
    cases h' with
    | @builtin _ t' h' =>
      have hname : t.name = t'.name := by simpa [h] using h'
      rw [BuiltinType.name_injective hname]
    | classType h' | pointer h' _ | function h' _ _ => simp [h] at h'
  | _, .classType name, _, .classType h, h' => by
    cases h' with
    | @classType _ name' h' =>
      have hname : name = name' := by simpa [h] using h'
      rw [hname]
    | builtin h' | pointer h' _ | function h' _ _ => simp [h] at h'
  | _, _, _, .pointer h hp, h' => by
    cases h' with
    | pointer h' hp' =>
      obtain ⟨-, rfl⟩ : _ ∧ _ = _ := by simpa [h] using h'
      rw [hp.unique hp']
    | builtin h' | classType h' | function h' _ _ => simp [h] at h'
  | _, _, _, .function h hps hr, h' => by
    cases h' with
    | function h' hps' hr' =>
      obtain ⟨-, rfl, rfl⟩ : _ ∧ _ = _ ∧ _ = _ := by simpa [h] using h'
      rw [hps.unique hps', hr.unique hr']
    | builtin h' | classType h' | pointer h' _ => simp [h] at h'

theorem DenoteAll.unique :
    {xs : List SymbolId} → {τs σs : List Ty} → lib.DenoteAll xs τs → lib.DenoteAll xs σs → τs = σs
  | _, _, _, .nil, .nil => rfl
  | _, _, _, .cons h hs, .cons h' hs' => by rw [h.unique h', hs.unique hs']

end

end Denotes

end Library

end Sable
