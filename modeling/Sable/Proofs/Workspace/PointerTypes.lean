import Sable.Proofs.Workspace.Naming

/-!
# Pointer types by name

A name with stars at its end spells the pointer type of as many steps to the type in front of the
stars. To ask for it by name is the same as to ask for it by the symbol of this type, and of the
types on the way only those are made that no library within reach has.

## Main definitions

* `Library.pointee?`, `Library.follow?`: what pointer types lead to.
* `Library.spelled?`: the type that a published name means.
* `Library.MarksPointers`: only pointer types have names that end in a star.

## Main statements

* `Library.follow?_pointerType`: a pointer type leads back to its base.
* `Library.pointerType_again`: the second time nothing is made.
* `Workspace.pointerTypes_run`: pointer types by name, in any library of any workspace.
-/
namespace Sable

/-- So many stars. -/
def stars (n : Nat) : String := .ofList (List.replicate n '*')

namespace Library

variable {lib lib' : Library} {base p x : SymbolId} {depth : Nat}

/-! ## Names with stars -/

theorem splitStars_append_stars {name : String} (hname : name.toList.getLast? ≠ some '*')
    (n : Nat) : splitStars (name ++ stars n) = (name, n) := by
  have hreverse : (name ++ stars n).toList.reverse =
      List.replicate n '*' ++ name.toList.reverse := by
    simp [stars]
  have htake : name.toList.reverse.takeWhile (· == '*') = [] := by
    cases hrev : name.toList.reverse with
    | nil => rfl
    | cons ch rest =>
      have hne : ch ≠ '*' := by
        rintro rfl
        exact hname (by rw [← List.head?_reverse, hrev, List.head?_cons])
      simp [hne]
  have hstars : ((name ++ stars n).toList.reverse.takeWhile (· == '*')).length = n := by
    rw [hreverse, List.takeWhile_append_of_pos (by simp), htake]
    simp
  rw [splitStars, hstars]
  simp [stars]

/-! ## What pointer types lead to -/

def pointee? (lib : Library) (x : SymbolId) : Option SymbolId :=
  (lib.type? x).bind TypeSymbol.pointee?

/-- Where so many steps from pointer types to what they point to lead. -/
def follow? (lib : Library) : Nat → SymbolId → Option SymbolId
  | 0, x => some x
  | n + 1, x => (lib.follow? n x).bind lib.pointee?

theorem follow?_add (lib : Library) (m n : Nat) (x : SymbolId) :
    lib.follow? (m + n) x = (lib.follow? m x).bind (lib.follow? n) := by
  induction n with
  | zero => simp [follow?]
  | succ n ih =>
    rw [← Nat.add_assoc, follow?, ih, Option.bind_assoc]
    rfl

/-- A type that is no pointer type is reached only once. -/
theorem follow?_unique (hp : lib.pointee? p = none) {m n : Nat} (hm : lib.follow? m x = some p)
    (hn : lib.follow? n x = some p) : m = n := by
  have hle : ∀ {m n : Nat}, lib.follow? m x = some p → lib.follow? n x = some p → n ≤ m := by
    intro m n hm hn
    by_contra hlt
    obtain ⟨k, rfl⟩ := Nat.exists_eq_add_of_lt (Nat.lt_of_not_le hlt)
    have hone : lib.follow? (m + 1) x = none := by rw [follow?, hm, Option.bind_some, hp]
    rw [Nat.add_right_comm, follow?_add, hone] at hn
    cases hn
  exact Nat.le_antisymm (hle hn hm) (hle hm hn)

theorem pointee?_eq_some : lib.pointee? x = some p ↔ lib.Knows (· = .type (.pointer p)) x := by
  rw [pointee?, Option.bind_eq_some_iff]
  constructor
  · rintro ⟨t, ht, hp⟩
    refine (knows_of_type? ht).imp fun s hs => hs.trans ?_
    unfold TypeSymbol.pointee? at hp
    split at hp
    · next heq => rw [heq, Option.some.inj hp]
    · cases hp
  · rintro ⟨s, hs, hsort⟩
    cases hkind : s.kind with
    | type t =>
      have hform : t.form = .pointer p := by simpa [Symbol.sort, SymbolKind.sort, hkind] using hsort
      exact ⟨t, type?_eq_some.2 ⟨s, hs, hkind⟩, by rw [TypeSymbol.pointee?, hform]⟩
    | «variable» | function | label => simp [Symbol.sort, SymbolKind.sort, hkind] at hsort

/-- What is found as the pointer type to a type points to it. -/
def PointsRight (lib : Library) : Prop :=
  ∀ p x, lib.pointerType? p = some x → lib.pointee? x = some p

theorem Extends.pointee? (h : lib.Extends lib') (hx : lib.pointee? x = some p) :
    lib'.pointee? x = some p :=
  pointee?_eq_some.2 (h.knows (pointee?_eq_some.1 hx))

theorem Extends.follow? (h : lib.Extends lib') {n : Nat} (hx : lib.follow? n x = some p) :
    lib'.follow? n x = some p := by
  induction n generalizing p with
  | zero => exact hx
  | succ n ih =>
    obtain ⟨y, hy, hp⟩ := Option.bind_eq_some_iff.1 hx
    exact Option.bind_eq_some_iff.2 ⟨y, ih hy, h.pointee? hp⟩

theorem extends_pointerTo (hlib : lib.IsApart) (p : SymbolId) :
    lib.Extends (lib.pointerTo p).2 := by
  have hinterns := hlib.interns_pointerTo p
  exact .of_symbol? hinterns.id_eq hinterns.dependencies_eq hinterns.symbol?_mono

theorem extends_pointerType (hlib : lib.IsApart) (base : SymbolId) (depth : Nat) :
    lib.Extends (lib.pointerType base depth).2 := by
  have hinterns := hlib.interns_pointerType base depth
  exact .of_symbol? hinterns.id_eq hinterns.dependencies_eq hinterns.symbol?_mono

/-- A pointer type that is asked for is found from then on. -/
theorem pointerType?_pointerTo (lib : Library) (p : SymbolId) :
    (lib.pointerTo p).2.pointerType? p = some (lib.pointerTo p).1 :=
  interned?_of_step lib (s := .pointerTo p) rfl rfl

theorem pointerTo_of_pointerType? (h : lib.pointerType? p = some x) : lib.pointerTo p = (x, lib) := by
  rw [pointerTo, h]

namespace PointsRight

theorem pointee?_pointerTo (h : lib.PointsRight) (hlib : lib.IsApart) (p : SymbolId) :
    (lib.pointerTo p).2.pointee? (lib.pointerTo p).1 = some p := by
  rcases hlib.pointerTo_cases p with ⟨x, hx, hrun⟩ | ⟨-, hmakes, -⟩
  · rw [hrun]
    exact h p x hx
  · obtain ⟨t, ht, hform⟩ := type?_of_form? hmakes.form?
    rw [pointee?, ht, Option.bind_some, TypeSymbol.pointee?, hform]

theorem pointerTo (h : lib.PointsRight) (hlib : lib.IsApart) (p : SymbolId) :
    (lib.pointerTo p).2.PointsRight := by
  intro q y hy
  by_cases hq : q = p
  · subst hq
    rw [pointerType?_pointerTo] at hy
    exact Option.some.inj hy ▸ h.pointee?_pointerTo hlib q
  · refine (extends_pointerTo hlib p).pointee? (h q y ?_)
    rcases hlib.pointerTo_cases p with ⟨x, -, hrun⟩ | ⟨-, hmakes, hpointers, -⟩
    · rwa [hrun] at hy
    · rw [pointerType?, firstSome?_eq, reach_eq, List.findSome?_cons] at hy ⊢
      rwa [hpointers, OrderedMap.get?_insert, if_neg hq, hmakes.dependencies_eq] at hy

/-- A pointer type leads back to its base. -/
theorem follow?_pointerType (h : lib.PointsRight) (hlib : lib.IsApart) (base : SymbolId)
    (depth : Nat) :
    (lib.pointerType base depth).2.follow? depth (lib.pointerType base depth).1 = some base := by
  induction depth generalizing lib base with
  | zero => rfl
  | succ depth ih =>
    have hlib' : (lib.pointerTo base).2.IsApart := (hlib.interns_pointerTo base).isApart hlib
    have hlast := ih (h.pointerTo hlib base) hlib' (lib.pointerTo base).1
    have hfirst := (extends_pointerType hlib' (lib.pointerTo base).1 depth).pointee?
      (h.pointee?_pointerTo hlib base)
    exact Option.bind_eq_some_iff.2 ⟨_, hlast, hfirst⟩

end PointsRight

/-! ## Asking twice -/

theorem pointerType_add (lib : Library) (base : SymbolId) (m n : Nat) : lib.pointerType base (m + n) =
    (lib.pointerType base m).2.pointerType (lib.pointerType base m).1 n := by
  induction m generalizing lib base with
  | zero => rw [Nat.zero_add]; rfl
  | succ m ih =>
    rw [Nat.add_right_comm]
    exact ih (lib.pointerTo base).2 (lib.pointerTo base).1

/-- A library that finds what was interned on the way makes nothing. -/
theorem pointerType_of_finds
    (h : ∀ p x, (lib.pointerType base depth).2.pointerType? p = some x → lib'.pointerType? p = some x) :
    lib'.pointerType base depth = ((lib.pointerType base depth).1, lib') := by
  induction depth generalizing lib base with
  | zero => rfl
  | succ depth ih =>
    have hinterned : (lib.pointerTo base).2.interned? (.pointer base) = some (lib.pointerTo base).1 :=
      lib.pointerType?_pointerTo base
    have hfound : lib'.pointerType? base = some (lib.pointerTo base).1 :=
      h _ _ ((enters_pointerType (lib.pointerTo base).2 (lib.pointerTo base).1 depth).interned? hinterned)
    rw [pointerType, pointerTo_of_pointerType? hfound]
    exact ih h

/-- The second time nothing is made. -/
theorem pointerType_again (lib : Library) (base : SymbolId) (depth : Nat) :
    (lib.pointerType base depth).2.pointerType base depth = lib.pointerType base depth :=
  pointerType_of_finds fun _ _ h => h

theorem size_pointerTo_le (lib : Library) (p : SymbolId) :
    (lib.pointerTo p).2.symbols.size ≤ lib.symbols.size + 1 := by
  unfold pointerTo
  split
  · exact Nat.le_succ _
  · simp [alloc, publishNew]

theorem size_pointerType_le (lib : Library) (base : SymbolId) (depth : Nat) :
    (lib.pointerType base depth).2.symbols.size ≤ lib.symbols.size + depth := by
  induction depth generalizing lib base with
  | zero => exact Nat.le_refl _
  | succ depth ih =>
    have hfirst := lib.size_pointerTo_le base
    have hrest := ih (lib.pointerTo base).2 (lib.pointerTo base).1
    change (((lib.pointerTo base).2.pointerType (lib.pointerTo base).1 depth).2).symbols.size ≤ _
    omega

/-! ## Published names -/

/-- The type that a published name means. -/
def spelled? (lib : Library) (name : String) : Option SymbolId :=
  (lib.lookupGlobal? name).filter fun x => (lib.type? x).isSome

theorem globals_pointerTo {name : String} (hname : name.toList.getLast? ≠ some '*')
    (lib : Library) (p : SymbolId) :
    (lib.pointerTo p).2.globals.get? name = lib.globals.get? name := by
  unfold pointerTo
  split
  · rfl
  · change (lib.globals.insertNew (lib.nameOf p ++ "*") _).get? name = _
    rw [OrderedMap.get?_insertNew, if_neg]
    rintro rfl
    simp at hname

/-- Pointer types take no name without a star. -/
theorem lookupGlobal?_pointerType {name : String} (hname : name.toList.getLast? ≠ some '*')
    (lib : Library) (base : SymbolId) (depth : Nat) :
    (lib.pointerType base depth).2.lookupGlobal? name = lib.lookupGlobal? name := by
  have hglobals : (lib.pointerType base depth).2.globals.get? name = lib.globals.get? name := by
    induction depth generalizing lib base with
    | zero => rfl
    | succ depth ih => exact (ih _ _).trans (lib.globals_pointerTo hname base)
  rw [lookupGlobal?, lookupGlobal?, firstSome?_eq, firstSome?_eq, reach_eq, reach_eq,
    (enters_pointerType lib base depth).dependencies_eq, List.findSome?_cons, List.findSome?_cons,
    global?, global?, hglobals]

theorem type?_pointerType (hlib : lib.IsApart) {t : TypeSymbol} (ht : lib.type? p = some t)
    (base : SymbolId) (depth : Nat) : (lib.pointerType base depth).2.type? p = some t := by
  obtain ⟨s, hs, hkind⟩ := type?_eq_some.1 ht
  exact type?_eq_some.2 ⟨s, (hlib.interns_pointerType base depth).symbol?_mono hs, hkind⟩

/-- A known type does not become a pointer type. -/
theorem pointee?_pointerType (hlib : lib.IsApart) (htype : (lib.type? p).isSome)
    (hp : lib.pointee? p = none) (base : SymbolId) (depth : Nat) :
    (lib.pointerType base depth).2.pointee? p = none := by
  obtain ⟨t, ht⟩ := Option.isSome_iff_exists.1 htype
  rw [pointee?, ht, Option.bind_some] at hp
  rw [pointee?, type?_pointerType hlib ht, Option.bind_some, hp]

theorem spelled?_pointerType (hlib : lib.IsApart) {name : String}
    (hname : name.toList.getLast? ≠ some '*') (h : lib.spelled? name = some p) (depth : Nat) :
    (lib.pointerType base depth).2.spelled? name = some p := by
  obtain ⟨hp, htype⟩ := Option.filter_eq_some_iff.1 h
  refine Option.filter_eq_some_iff.2 ⟨(lookupGlobal?_pointerType hname lib base depth).trans hp, ?_⟩
  obtain ⟨t, ht⟩ := Option.isSome_iff_exists.1 htype
  exact Option.isSome_iff_exists.2 ⟨t, type?_pointerType hlib ht base depth⟩

/-- A name with stars asks for a pointer type to what the name in front of them means. -/
theorem createType_stars (lib : Library) {name : String} (hname : name.toList.getLast? ≠ some '*')
    (hdepth : 0 < depth) (isGlobal : Bool) (span : Span) :
    lib.createType (name ++ stars depth) isGlobal span =
      match lib.spelled? name with
      | some p => (.ok (lib.pointerType p depth).1, (lib.pointerType p depth).2)
      | none => (.error (.symbolNotFound name span), lib) := by
  obtain ⟨n, rfl⟩ := Nat.exists_eq_succ_of_ne_zero (Nat.ne_of_gt hdepth)
  rw [createType, splitStars_append_stars hname]
  rfl

/-! ## Names of pointer types -/

end Library

/-- Only pointer types have names that end in a star. -/
def Symbol.IsMarked (s : Symbol) : Prop :=
  ∀ p, s.sort = .type (.pointer p) → s.name.toList.getLast? = some '*'

theorem Symbol.Same.isMarked {s s' : Symbol} (h : s.Same s') (hs : s.IsMarked) : s'.IsMarked := by
  intro p hp
  rw [h.name_eq]
  exact hs p (h.sort_eq ▸ hp)

namespace Library

variable {lib : Library} {x p : SymbolId}

/-- The pointer types of the library have names that end in a star. -/
def MarksPointers (lib : Library) : Prop := ∀ s ∈ lib.symbols, s.IsMarked

namespace MarksPointers

theorem alloc (h : lib.MarksPointers) {s : Symbol} (hs : s.IsMarked) :
    (lib.alloc s).2.MarksPointers := by
  intro t ht
  rcases Array.mem_push.1 ht with ht | rfl
  · exact h t ht
  · exact hs

theorem update (h : lib.MarksPointers) (x : SymbolId) {f : Symbol → Symbol}
    (hf : ∀ s : Symbol, s.Same (f s)) : (lib.update x f).MarksPointers := by
  unfold Library.update
  split
  · intro s hs
    obtain ⟨i, hi⟩ := Array.mem_iff_getElem?.1 hs
    rw [Array.getElem?_modify] at hi
    split at hi
    · obtain ⟨t, ht, rfl⟩ := Option.map_eq_some_iff.1 hi
      exact (hf t).isMarked (h t (Array.mem_of_getElem? ht))
    · exact h s (Array.mem_of_getElem? hi)
  · exact h

theorem pointerTo (h : lib.MarksPointers) (p : SymbolId) : (lib.pointerTo p).2.MarksPointers := by
  unfold Library.pointerTo
  split
  · exact h
  · exact h.alloc fun _ _ => by simp

theorem pointerType (h : lib.MarksPointers) (base : SymbolId) (depth : Nat) :
    (lib.pointerType base depth).2.MarksPointers := by
  induction depth generalizing lib base with
  | zero => exact h
  | succ depth ih => exact ih (h.pointerTo base) _

theorem setMembers (h : lib.MarksPointers) (x : SymbolId) (members : Names) :
    (lib.setMembers x members).MarksPointers := by
  refine h.update x fun s => ?_
  split
  · next t hkind => exact ⟨rfl, by rw [Symbol.sort, Symbol.sort, hkind]; rfl, rfl⟩
  · exact .refl s

theorem setFunction (h : lib.MarksPointers) (x : SymbolId) (f : FunctionSymbol) :
    (lib.setFunction x f).MarksPointers := by
  refine h.update x fun s => ?_
  split
  · next g hkind => exact ⟨rfl, by rw [Symbol.sort, Symbol.sort, hkind]; rfl, rfl⟩
  · exact .refl s

theorem addLocal (h : lib.MarksPointers) (function member : SymbolId) :
    (lib.addLocal function member).2.MarksPointers := by
  unfold Library.addLocal
  split
  · exact h
  · split
    · exact h
    · split
      · exact h
      · exact (h.setFunction _ _).update _ fun _ => ⟨rfl, rfl, rfl⟩

theorem step (h : lib.MarksPointers) (s : LibraryStep) : (lib.step s).2.MarksPointers := by
  have hother : ∀ {s : Symbol}, (∀ t, s.sort ≠ .type (.pointer t)) → s.IsMarked :=
    fun hs t ht => absurd ht (hs t)
  cases s with
  | pointerTo p => exact h.pointerTo p
  | pointerType base depth => exact h.pointerType base depth
  | functionType ps r =>
    change (lib.functionType ps r).2.MarksPointers
    unfold Library.functionType
    split
    · exact h
    · exact h.alloc (hother (by rintro _ ⟨⟩))
  | createType name isGlobal span =>
    change (lib.createType name isGlobal span).2.MarksPointers
    unfold Library.createType
    split
    · split
      · exact h.pointerType _ _
      · exact h
    · split
      · exact h
      · have hmade := h.alloc (s := { name, kind := .type ⟨.classType, .empty⟩, span })
          (hother (by rintro _ ⟨⟩))
        cases isGlobal <;> exact hmade
  | createVariable | createFunction | createLabel => exact h.alloc (hother (by rintro _ ⟨⟩))
  | setType | setDeclaration => exact h.update _ fun _ => ⟨rfl, rfl, rfl⟩
  | registerGlobal x =>
    change (lib.registerGlobal x).2.MarksPointers
    unfold Library.registerGlobal
    split
    · exact h
    · split <;> exact h
  | addMember owner member =>
    change (lib.addMember owner member).2.MarksPointers
    unfold Library.addMember
    split
    · exact h
    · split
      · exact h
      · split
        · exact h
        · exact (h.setMembers _ _).update _ fun _ => ⟨rfl, rfl, rfl⟩
  | addLocal function member => exact h.addLocal function member
  | addLabel function label =>
    change (lib.addLabel function label).2.MarksPointers
    unfold Library.addLabel
    split
    · exact h
    · split
      · exact h
      · split
        · exact h
        · exact (h.setFunction _ _).addLocal _ _
  | reset => simp [Library.step, reset, MarksPointers]

end MarksPointers

theorem marksPointers_core (id : LibraryId) : (core id).MarksPointers := by
  have hprimitive : ∀ {lib : Library} (name : String), lib.MarksPointers →
      (lib.primitive name).MarksPointers := fun name h => h.alloc nofun
  have hnew : (new id "core").MarksPointers := by simp [new, MarksPointers]
  exact ((hprimitive _ <| hprimitive _ <| hprimitive _ <| hprimitive _ <| hprimitive _ <|
    hprimitive _ hnew).pointerTo _).pointerTo _

/-! ## In a workspace -/

/-- The names of a library are right, and so is what it has interned. -/
abbrev PointsByName (lib : Library) : Prop :=
  ((lib.IsApart → lib.HasNames) ∧ lib.OwnsInterned) ∧ lib.MarksPointers

theorem isInvariant_pointsByName : IsInvariant PointsByName where
  new id name := ⟨isInvariant_hasNames.new id name, by simp [Library.new, MarksPointers]⟩
  core id := ⟨isInvariant_hasNames.core id, marksPointers_core id⟩
  step h s := ⟨isInvariant_hasNames.step h.1 s, h.2.step s⟩
  link h dep := ⟨isInvariant_hasNames.link h.1 dep, by
    intro s hs
    rw [(link_tables ..).2.1] at hs
    exact h.2 s hs⟩

end Library

namespace Workspace

open Library

variable {w : Workspace} {k : LibraryId} {lib : Library} {base name : String} {p : SymbolId}

theorem pointsRight (hw : w.IsOrderly PointsByName) (hlib : w.library? k = some lib) :
    lib.PointsRight := by
  have hfits := hw k lib hlib
  have howns := hfits.forall_mem_reach hw
  intro p x hx
  have hinterned : lib.interned? (.pointer p) = some x := hx
  obtain ⟨t, ht, hform⟩ := type?_of_interned? hfits.isCoherent
    (fun dep hdep => (howns dep hdep).1.2) hinterned
  rw [pointee?, ht, Option.bind_some, TypeSymbol.pointee?, hform]

/-- What is published under a name without a star is no pointer type. -/
theorem pointee?_of_spelled? (hw : w.IsOrderly PointsByName) (hlib : w.library? k = some lib)
    (hname : name.toList.getLast? ≠ some '*') (hp : lib.spelled? name = some p) :
    lib.pointee? p = none := by
  have hfits := hw k lib hlib
  rw [Option.eq_none_iff_forall_ne_some]
  intro q hq
  obtain ⟨s, hs, hsort⟩ := pointee?_eq_some.1 hq
  -- the symbol is owned by one library, and published by another one, perhaps
  obtain ⟨owner, howner, howned⟩ := exists_owned?_of_symbol? hs
  have hmarked := (hfits.forall_mem_reach hw owner howner).2 s
    (Array.mem_of_getElem? (owned?_eq_some.1 howned).2) q hsort
  have hlookup := (Option.filter_eq_some_iff.1 hp).1
  rw [lookupGlobal?, firstSome?_eq] at hlookup
  obtain ⟨dep, hdep, hglobal⟩ := List.exists_of_findSome?_eq_some hlookup
  have hapart : dep.IsApart := by
    rw [reach_eq, List.mem_cons] at hdep
    rcases hdep with rfl | hdep
    · exact hfits.isApart
    · exact (hw dep.id dep (library?_of_slots (hfits.holds dep hdep))).isApart
  obtain ⟨s', hs', rfl⟩ := ((hfits.forall_mem_reach hw dep hdep).1.1 hapart).globals _ _ hglobal
  rw [hfits.isCoherent.symbol?_of_mem_reach hdep hs'] at hs
  exact hname (Option.some.inj hs ▸ hmarked)

/-- In every library of a workspace, whatever was done there, a name with stars behind a name that
does not end in one is an error of the latter if it means no type, and nothing changes. Else it is
the same as the pointer type of as many steps to this type: it leads there after so many steps and
no other number, at most so many symbols are new, and none the second time. Steps to pointer types
can be taken together. -/
theorem pointerTypes_run {steps : List WorkspaceStep}
    (hlib : (({} : Workspace).run steps).library? k = some lib)
    (hbase : base.toList.getLast? ≠ some '*') {depth : Nat} (hdepth : 0 < depth) (isGlobal : Bool)
    (span : Span) : (match lib.spelled? base with
      | none => lib.createType (base ++ stars depth) isGlobal span =
          (.error (.symbolNotFound base span), lib)
      | some p => ∃ x lib', lib.pointerType p depth = (x, lib') ∧
          lib.createType (base ++ stars depth) isGlobal span = (.ok x, lib') ∧
          (∀ n, lib'.follow? n x = some p ↔ n = depth) ∧
          lib'.symbols.size ≤ lib.symbols.size + depth ∧
          lib'.createType (base ++ stars depth) isGlobal span = (.ok x, lib') ∧
          lib'.pointerType p depth = (x, lib')) ∧
      ∀ p m n, lib.pointerType p (m + n) =
        (lib.pointerType p m).2.pointerType (lib.pointerType p m).1 n := by
  have horderly := isOrderly_run isInvariant_pointsByName steps
  have hfits := horderly k lib hlib
  refine ⟨?_, lib.pointerType_add⟩
  have hcreate := lib.createType_stars hbase hdepth isGlobal span
  cases hp : lib.spelled? base with
  | none => rwa [hp] at hcreate
  | some p =>
    rw [hp] at hcreate
    have hagain := lib.pointerType_again p depth
    have hfollow := (pointsRight horderly hlib).follow?_pointerType hfits.isApart p depth
    have hlast := pointee?_pointerType hfits.isApart (Option.filter_eq_some_iff.1 hp).2
      (pointee?_of_spelled? horderly hlib hbase hp) p depth
    refine ⟨_, _, rfl, hcreate, fun n => ⟨fun hn => follow?_unique hlast hn hfollow, ?_⟩,
      lib.size_pointerType_le p depth, ?_, hagain⟩
    · rintro rfl
      exact hfollow
    · rw [createType_stars _ hbase hdepth, spelled?_pointerType hfits.isApart hbase hp]
      dsimp only
      rw [hagain]

/-- A pointer type of three steps to a built-in type, in a library that reaches this type through
another one, which has the first of the steps already. -/
theorem pointerTypes_run_integer :
    let steps : List WorkspaceStep :=
      [.core, .new "a", .link 1 0, .edit 1 (.pointerTo ⟨0, 2⟩), .new "l", .link 2 1]
    ∃ lib, (({} : Workspace).run steps).library? 2 = some lib ∧
      lib.spelled? "Integer" = some ⟨0, 2⟩ ∧
      (match lib.spelled? "Integer" with
      | none => lib.createType ("Integer" ++ stars 3) true .dummy =
          (.error (.symbolNotFound "Integer" .dummy), lib)
      | some p => ∃ x lib', lib.pointerType p 3 = (x, lib') ∧
          lib.createType ("Integer" ++ stars 3) true .dummy = (.ok x, lib') ∧
          (∀ n, lib'.follow? n x = some p ↔ n = 3) ∧
          lib'.symbols.size ≤ lib.symbols.size + 3 ∧
          lib'.createType ("Integer" ++ stars 3) true .dummy = (.ok x, lib') ∧
          lib'.pointerType p 3 = (x, lib')) ∧
      ∀ p m n, lib.pointerType p (m + n) =
        (lib.pointerType p m).2.pointerType (lib.pointerType p m).1 n := by
  intro steps
  obtain ⟨lib, hlib⟩ : ∃ lib, (({} : Workspace).run steps).library? 2 = some lib := ⟨_, rfl⟩
  refine ⟨lib, hlib, ?_, pointerTypes_run hlib (by decide) (by decide) true .dummy⟩
  obtain rfl := Option.some.inj hlib
  rfl

end Workspace

end Sable
