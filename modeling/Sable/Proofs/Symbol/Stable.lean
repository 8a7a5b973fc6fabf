import Sable.Proofs.Analysis.Linking
import Sable.Proofs.Workspace.Stepping

/-!
# Interned types stay

A library in use keeps what it owns, each symbol with its sort, and what it has interned. A type is
interned only if no library within reach has it, and a new link comes behind the others. So a type
that was interned once is found again, and nothing is made the second time.

## Main definitions

* `Library.interned?`: the symbol that a form of a type is interned as.
* `Library.Enters`: what is owned and interned stays, and what is new was not interned before.
* `Library.OwnsInterned`: whatever a library has interned is a type of its own with this form.

## Main statements

* `Library.enters_step`: all steps that do not empty the library.
* `Library.step_of_interned`, `Library.interned?_of_step`: the steps that intern.
-/
namespace Sable

/-- The form of the type that a step interns. -/
def LibraryStep.interns? : LibraryStep → Option TypeForm
  | .pointerTo pointee => some (.pointer pointee)
  | .functionType parameters returns => some (.function parameters returns)
  | _ => none

namespace Library

variable {lib lib' lib'' : Library} {form : TypeForm} {x : SymbolId} {s : LibraryStep}

/-- The symbol of the library's own that a form is interned as. -/
def cached? (lib : Library) : TypeForm → Option SymbolId
  | .pointer pointee => lib.pointerTypes.get? pointee
  | .function parameters returns => lib.functionTypes.get? (parameters, returns)
  | .primitive | .classType => none

/-- The symbol that a form is interned as. -/
def interned? (lib : Library) (form : TypeForm) : Option SymbolId := lib.firstSome? (·.cached? form)

/-- A symbol of the library's own is of this sort. -/
def Owns (lib : Library) (x : SymbolId) (sort : SymbolSort) : Prop :=
  ∃ s, lib.owned? x = some s ∧ s.sort = sort

theorem interned?_eq (lib : Library) (form : TypeForm) : lib.interned? form =
    (lib.cached? form).or ((reachAll lib.dependencies).findSome? (·.cached? form)) := by
  rw [interned?, firstSome?_eq, reach_eq, List.findSome?_cons]
  cases lib.cached? form <;> rfl

theorem reachAll_append (libs libs' : List Library) :
    reachAll (libs ++ libs') = reachAll libs ++ reachAll libs' := by
  induction libs with
  | nil => rfl
  | cons lib libs ih => rw [List.cons_append, reachAll, ih, reachAll, List.append_assoc]

theorem interned?_link (dep : Library) (h : lib.interned? form = some x) :
    (lib.link dep).interned? form = some x := by
  unfold link
  split
  · exact h
  · rw [interned?_eq] at h ⊢
    rw [reachAll_append, List.findSome?_append, ← Option.or_assoc]
    exact Option.or_eq_some_iff.2 (.inl h)

/-! ## What stays -/

/-- The library keeps its number and its links, what it owns and what it has interned. What it has
interned meanwhile was not interned within reach, and is a type of its own. -/
structure Enters (lib lib' : Library) : Prop where
  id_eq : lib'.id = lib.id
  dependencies_eq : lib'.dependencies = lib.dependencies
  owns : ∀ {x sort}, lib.Owns x sort → lib'.Owns x sort
  cached : ∀ {form x}, lib.cached? form = some x → lib'.cached? form = some x
  entered : ∀ {form x}, lib'.cached? form = some x → lib.cached? form = some x ∨
    lib.interned? form = none ∧ lib'.Owns x (.type form)

namespace Enters

theorem refl (lib : Library) : lib.Enters lib := ⟨rfl, rfl, fun h => h, fun h => h, .inl⟩

theorem interned? (h : lib.Enters lib') (hx : lib.interned? form = some x) :
    lib'.interned? form = some x := by
  rw [interned?_eq, h.dependencies_eq]
  cases hlib' : lib'.cached? form with
  | some y =>
    rcases h.entered hlib' with hy | ⟨hnone, -⟩
    · rwa [interned?_eq, hy] at hx
    · simp [hx] at hnone
  | none =>
    cases hlib : lib.cached? form with
    | some y => simp [h.cached hlib] at hlib'
    | none => rwa [interned?_eq, hlib] at hx

theorem trans (h : lib.Enters lib') (h' : lib'.Enters lib'') : lib.Enters lib'' where
  id_eq := h'.id_eq.trans h.id_eq
  dependencies_eq := h'.dependencies_eq.trans h.dependencies_eq
  owns hx := h'.owns (h.owns hx)
  cached hx := h'.cached (h.cached hx)
  entered {form x} hx := by
    rcases h'.entered hx with hx | ⟨hnone, hx⟩
    · exact (h.entered hx).imp_right fun ⟨hnone, hx⟩ => ⟨hnone, h'.owns hx⟩
    · refine .inr ⟨?_, hx⟩
      cases hlib : lib.interned? form with
      | none => rfl
      | some y => simp [h.interned? hlib] at hnone

/-- Nothing is interned meanwhile. -/
theorem of_owns (hid : lib'.id = lib.id) (hdependencies : lib'.dependencies = lib.dependencies)
    (hpointers : lib'.pointerTypes = lib.pointerTypes)
    (hfunctions : lib'.functionTypes = lib.functionTypes)
    (howns : ∀ {x sort}, lib.Owns x sort → lib'.Owns x sort) : lib.Enters lib' := by
  have hcached : ∀ form, lib'.cached? form = lib.cached? form := fun form => by
    cases form <;> simp [cached?, hpointers, hfunctions]
  exact ⟨hid, hdependencies, howns, fun h => (hcached _).trans h, fun h => .inl (hcached _ ▸ h)⟩

end Enters

/-! ## Single steps -/

theorem owns_alloc (lib : Library) (s : Symbol) : (lib.alloc s).2.Owns (lib.alloc s).1 s.sort :=
  ⟨s, by simp [alloc, owned?], rfl⟩

theorem Owns.alloc {sort : SymbolSort} (h : lib.Owns x sort) (s : Symbol) :
    (lib.alloc s).2.Owns x sort := by
  obtain ⟨t, ht, hsort⟩ := h
  refine ⟨t, ?_, hsort⟩
  rw [owned?_eq_some] at ht ⊢
  refine ⟨ht.1, ?_⟩
  obtain ⟨hlt, heq⟩ := Array.getElem?_eq_some_iff.1 ht.2
  rw [Library.alloc, Array.getElem?_push_lt hlt, heq]

theorem enters_alloc (lib : Library) (s : Symbol) : lib.Enters (lib.alloc s).2 :=
  .of_owns rfl rfl rfl rfl fun h => h.alloc s

/-- A change that keeps the sort of the symbol. -/
theorem enters_update (lib : Library) (x : SymbolId) {f : Symbol → Symbol}
    (hf : ∀ s, (f s).sort = s.sort) : lib.Enters (lib.update x f) := by
  unfold update
  split
  · refine .of_owns rfl rfl rfl rfl ?_
    rintro y sort ⟨s, hs, rfl⟩
    rw [owned?_eq_some] at hs
    by_cases hy : x.index = y.index
    · exact ⟨f s, owned?_eq_some.2 ⟨hs.1, by simp [Array.getElem?_modify, hy, hs.2]⟩, hf s⟩
    · exact ⟨s, owned?_eq_some.2 ⟨hs.1, by simp [Array.getElem?_modify, hy, hs.2]⟩, rfl⟩
  · exact .refl lib

theorem enters_publish (lib : Library) (name : String) (x : SymbolId) :
    lib.Enters (lib.publish name x) :=
  .of_owns rfl rfl rfl rfl fun h => h

/-- A type is made that was not interned, and is entered into its table. -/
theorem enters_of_new {sym : Symbol} (hid : lib'.id = lib.id)
    (hdependencies : lib'.dependencies = lib.dependencies)
    (hsymbols : lib'.symbols = (lib.alloc sym).2.symbols) (hsort : sym.sort = .type form)
    (hnone : lib.interned? form = none) (hcached : ∀ form', lib'.cached? form' =
      if form' = form then some (lib.alloc sym).1 else lib.cached? form') : lib.Enters lib' := by
  have howned : lib'.Owns = (lib.alloc sym).2.Owns := by
    funext x sort
    rw [Owns, Owns, owned?, owned?, hid, hsymbols]
    rfl
  have hown : lib.cached? form = none := by
    rw [interned?_eq, Option.or_eq_none_iff] at hnone
    exact hnone.1
  refine ⟨hid, hdependencies, fun h => howned ▸ h.alloc sym, fun {form' y} hy => ?_,
    fun {form' y} hy => ?_⟩
  · rw [hcached, if_neg, hy]
    rintro rfl
    simp [hown] at hy
  · rw [hcached] at hy
    split at hy
    · next heq =>
      subst heq
      refine .inr ⟨hnone, ?_⟩
      rw [howned, ← Option.some.inj hy, ← hsort]
      exact lib.owns_alloc sym
    · exact .inl hy

/-- A step that interns finds the type, or makes it. -/
theorem intern_cases (lib : Library) (hs : s.interns? = some form) :
    (∃ x, lib.interned? form = some x ∧ lib.step s = (.ok (some x), lib)) ∨
      lib.interned? form = none ∧ ∃ sym, sym.sort = .type form ∧
        (lib.step s).1 = .ok (some (lib.alloc sym).1) ∧
        (lib.step s).2.symbols = (lib.alloc sym).2.symbols ∧
        ∀ form', (lib.step s).2.cached? form' =
          if form' = form then some (lib.alloc sym).1 else lib.cached? form' := by
  cases s with
  | pointerTo p =>
    obtain rfl := Option.some.inj hs
    have hinterned : lib.interned? (.pointer p) = lib.pointerType? p := rfl
    rw [hinterned, step, made, pointerTo]
    cases lib.pointerType? p with
    | some x => exact .inl ⟨x, rfl, rfl⟩
    | none =>
      refine .inr ⟨rfl, lib.pointerSymbol p, rfl, rfl, rfl, fun form' => ?_⟩
      cases form' <;> simp [cached?, publishNew, alloc, OrderedMap.get?_insert]
  | functionType ps r =>
    obtain rfl := Option.some.inj hs
    have hinterned : lib.interned? (.function ps r) = lib.functionType? ps r := rfl
    rw [hinterned, step, made, functionType]
    cases lib.functionType? ps r with
    | some x => exact .inl ⟨x, rfl, rfl⟩
    | none =>
      refine .inr ⟨rfl, lib.functionSymbol ps r, rfl, rfl, rfl, fun form' => ?_⟩
      cases form' <;> simp [cached?, publishNew, alloc, OrderedMap.get?_insert]
  | _ => simp [LibraryStep.interns?] at hs

theorem step_links (lib : Library) (s : LibraryStep) :
    (lib.step s).2.id = lib.id ∧ (lib.step s).2.dependencies = lib.dependencies := by
  by_cases hs : s = .reset ∨ ∃ x, s = .registerGlobal x
  · rcases hs with rfl | ⟨x, rfl⟩
    · exact ⟨rfl, rfl⟩
    · change (lib.registerGlobal x).2.id = _ ∧ (lib.registerGlobal x).2.dependencies = _
      unfold registerGlobal
      split
      · exact ⟨rfl, rfl⟩
      · split <;> exact ⟨rfl, rfl⟩
  · rw [not_or, not_exists] at hs
    have hleads : lib.Leads (lib.step s).2 := leads_step s hs.1 fun x hx => absurd hx (hs.2 x)
    exact ⟨hleads.id_eq, hleads.dependencies_eq⟩

theorem enters_intern (hs : s.interns? = some form) : lib.Enters (lib.step s).2 := by
  rcases intern_cases lib hs with ⟨x, -, heq⟩ | ⟨hnone, sym, hsort, -, hsymbols, hcached⟩
  · rw [heq]
    exact .refl lib
  · exact enters_of_new (lib.step_links s).1 (lib.step_links s).2 hsymbols hsort hnone hcached

theorem enters_pointerTo (lib : Library) (p : SymbolId) : lib.Enters (lib.pointerTo p).2 :=
  enters_intern (s := .pointerTo p) rfl

theorem enters_pointerType (lib : Library) (base : SymbolId) (depth : Nat) :
    lib.Enters (lib.pointerType base depth).2 := by
  induction depth generalizing lib base with
  | zero => exact .refl lib
  | succ depth ih => exact (lib.enters_pointerTo base).trans (ih _ _)

theorem enters_createType (lib : Library) (name : String) (isGlobal : Bool) (span : Span) :
    lib.Enters (lib.createType name isGlobal span).2 := by
  unfold createType
  split
  · split
    · exact lib.enters_pointerType _ _
    · exact .refl lib
  · split
    · exact .refl lib
    · cases isGlobal with
      | true => exact (lib.enters_alloc _).trans (enters_publish _ _ _)
      | false => exact lib.enters_alloc _

theorem enters_registerGlobal (lib : Library) (x : SymbolId) :
    lib.Enters (lib.registerGlobal x).2 := by
  unfold registerGlobal
  split
  · exact .refl lib
  · split
    · exact .refl lib
    · exact lib.enters_publish _ _

theorem enters_setMembers (lib : Library) (x : SymbolId) (members : Names) :
    lib.Enters (lib.setMembers x members) := by
  refine lib.enters_update x fun s => ?_
  split
  · next t hkind => rw [Symbol.sort, Symbol.sort, hkind, SymbolKind.sort, SymbolKind.sort]
  · rfl

theorem enters_setFunction (lib : Library) (x : SymbolId) (f : FunctionSymbol) :
    lib.Enters (lib.setFunction x f) := by
  refine lib.enters_update x fun s => ?_
  split
  · next g hkind => rw [Symbol.sort, Symbol.sort, hkind, SymbolKind.sort, SymbolKind.sort]
  · rfl

theorem enters_addMember (lib : Library) (owner member : SymbolId) :
    lib.Enters (lib.addMember owner member).2 := by
  unfold addMember
  split
  · exact .refl lib
  · split
    · exact .refl lib
    · split
      · exact .refl lib
      · exact (lib.enters_setMembers _ _).trans (enters_update _ _ fun _ => rfl)

theorem enters_addLocal (lib : Library) (function member : SymbolId) :
    lib.Enters (lib.addLocal function member).2 := by
  unfold addLocal
  split
  · exact .refl lib
  · split
    · exact .refl lib
    · split
      · exact .refl lib
      · exact (lib.enters_setFunction _ _).trans (enters_update _ _ fun _ => rfl)

theorem enters_addLabel (lib : Library) (function label : SymbolId) :
    lib.Enters (lib.addLabel function label).2 := by
  unfold addLabel
  split
  · exact .refl lib
  · split
    · exact .refl lib
    · split
      · exact .refl lib
      · exact (lib.enters_setFunction _ _).trans (enters_addLocal _ _ _)

/-- Whatever is done to a library short of emptying it. -/
theorem enters_step (s : LibraryStep) (hreset : s ≠ .reset) : lib.Enters (lib.step s).2 := by
  cases s with
  | createType name isGlobal span => exact lib.enters_createType name isGlobal span
  | pointerTo | functionType => exact enters_intern rfl
  | pointerType base depth => exact lib.enters_pointerType base depth
  | createVariable | createFunction | createLabel => exact lib.enters_alloc _
  | setType | setDeclaration => exact lib.enters_update _ fun _ => rfl
  | registerGlobal x => exact lib.enters_registerGlobal x
  | addMember owner member => exact lib.enters_addMember owner member
  | addLocal function member => exact lib.enters_addLocal function member
  | addLabel function label => exact lib.enters_addLabel function label
  | reset => exact absurd rfl hreset

/-! ## Forms -/

/-- Whatever the library has interned is a type of its own with this form. -/
def OwnsInterned (lib : Library) : Prop :=
  ∀ form x, lib.cached? form = some x → lib.Owns x (.type form)

theorem OwnsInterned.enters (h : lib.OwnsInterned) (henters : lib.Enters lib') :
    lib'.OwnsInterned := by
  intro form x hx
  rcases henters.entered hx with hx | ⟨-, hx⟩
  · exact henters.owns (h form x hx)
  · exact hx

theorem ownsInterned_of_empty (hpointers : lib.pointerTypes = .empty)
    (hfunctions : lib.functionTypes = .empty) : lib.OwnsInterned := by
  intro form x hx
  cases form <;> simp [cached?, hpointers, hfunctions] at hx

theorem ownsInterned_core (id : LibraryId) : (core id).OwnsInterned := by
  intro form x hx
  cases form with
  | pointer p =>
    rcases (core_pointerType? id p x).1 hx with ⟨rfl, rfl⟩ | ⟨rfl, rfl⟩ <;>
      exact ⟨_, by rw [core_owned?, if_pos rfl]; rfl, rfl⟩
  | function ps r => simp [cached?, (core_spec id).2.2.2.2.2] at hx
  | primitive | classType => simp [cached?] at hx

theorem OwnsInterned.step (h : lib.OwnsInterned) (s : LibraryStep) :
    (lib.step s).2.OwnsInterned := by
  by_cases hreset : s = .reset
  · subst hreset
    exact ownsInterned_of_empty rfl rfl
  · exact h.enters (enters_step s hreset)

/-- What is interned within reach is a type of the form that it is interned for. -/
theorem type?_of_interned? (hcoherent : Coherent lib.reach) (h : ∀ dep ∈ lib.reach, dep.OwnsInterned)
    (hx : lib.interned? form = some x) : ∃ t, lib.type? x = some t ∧ t.form = form := by
  rw [Library.interned?, firstSome?_eq] at hx
  obtain ⟨dep, hdep, hx⟩ := List.exists_of_findSome?_eq_some hx
  obtain ⟨s, hs, hsort⟩ := h dep hdep form x hx
  have hkind : ∃ t, s.kind = .type t ∧ t.form = form := by
    rw [Symbol.sort] at hsort
    cases hkind : s.kind <;> simp_all [SymbolKind.sort]
  obtain ⟨t, hkind, hform⟩ := hkind
  exact ⟨t, type?_eq_some.2 ⟨s, hcoherent.symbol?_of_owned? hdep hs, hkind⟩, hform⟩

/-! ## Interning -/

/-- The second time nothing is made. -/
theorem step_of_interned (hs : s.interns? = some form) (hx : lib.interned? form = some x) :
    lib.step s = (.ok (some x), lib) := by
  rcases intern_cases lib hs with ⟨y, hy, heq⟩ | ⟨hnone, -⟩
  · rw [heq, Option.some.inj (hx.symm.trans hy)]
  · simp [hx] at hnone

theorem interned?_of_step (lib : Library) (hs : s.interns? = some form)
    (hx : (lib.step s).1 = .ok (some x)) : (lib.step s).2.interned? form = some x := by
  rcases intern_cases lib hs with ⟨y, hy, heq⟩ | ⟨-, sym, -, hanswer, -, hcached⟩
  · rw [heq] at hx ⊢
    rw [hy, Option.some.inj (Except.ok.inj hx)]
  · rw [hanswer] at hx
    rw [interned?_eq, hcached, if_pos rfl, Option.some.inj (Except.ok.inj hx), Option.some_or]

/-- The answer is interned, or it is the number that the next symbol gets. -/
theorem interned?_or_of_step (hs : s.interns? = some form)
    (hx : (lib.step s).1 = .ok (some x)) :
    lib.interned? form = some x ∨ x = ⟨lib.id, lib.symbols.size⟩ := by
  rcases intern_cases lib hs with ⟨y, hy, heq⟩ | ⟨-, sym, -, hanswer, -⟩
  · rw [heq] at hx
    rw [hy, Option.some.inj (Except.ok.inj hx)]
    exact .inl rfl
  · rw [hanswer] at hx
    exact .inr (Option.some.inj (Except.ok.inj hx)).symm

/-- A symbol that is interned for one form is not the answer for another one. -/
theorem form_unique {form' : TypeForm} (hapart : lib.IsApart) (hcoherent : Coherent lib.reach)
    (h : ∀ dep ∈ lib.reach, dep.OwnsInterned) (hx : lib.interned? form = some x)
    (hs : s.interns? = some form') (hanswer : (lib.step s).1 = .ok (some x)) : form' = form := by
  obtain ⟨t, ht, rfl⟩ := type?_of_interned? hcoherent h hx
  rcases interned?_or_of_step hs hanswer with hx' | rfl
  · obtain ⟨t', ht', rfl⟩ := type?_of_interned? hcoherent h hx'
    rw [Option.some.inj (ht.symm.trans ht')]
  · -- the next number belongs to no symbol yet
    simp [type?, hapart.symbol?] at ht

end Library

end Sable
