import Sable.Proofs.Analysis.Linking
import Sable.Proofs.Workspace.PointerTypes

/-!
# Names of pointer types

The name of a pointer type is that of the type it leads to, with a star behind it. A library names
its pointer types so as long as only known types are pointed to. Then the name of a type that is
written with stars is what was written.

## Main definitions

* `Library.IsStarred`: a sound library where pointer types are named after what they lead to.
* `Library.Furthers`: a library becomes one that extends it and is starred.

## Main statements

* `Library.IsStarred.nameOf_of_follow?`: the name of a pointer type of so many steps.
* `Library.IsStarred.pointerType`, `Library.IsStarred.functionType`: interned types.
* `Library.isStarred_core`, `Library.isStarred_start`: the beginning of an analysis.
-/
namespace Sable.Library

open SymbolSort

variable {lib lib' lib'' : Library} {x p base : SymbolId} {s : Symbol} {t : TypeSymbol}
  {name : String} {form : TypeForm}

/-! ## Names and forms -/

theorem nameOf_of_form? (h : lib.form? x = some (name, form)) : lib.nameOf x = name := by
  obtain ⟨s, t, hs, -, rfl, -⟩ := form?_eq_some.1 h
  rw [nameOf, hs]

theorem exists_form?_of_knows (h : lib.Knows IsType x) :
    ∃ name form, lib.form? x = some (name, form) := by
  obtain ⟨s, hs, hsort⟩ := h
  cases hkind : s.kind with
  | type t => exact ⟨s.name, t.form, form?_eq_some.2 ⟨s, t, hs, hkind, rfl, rfl⟩⟩
  | «variable» | function | label => simp [Symbol.sort, SymbolKind.sort, hkind, IsType] at hsort

theorem exists_form?_of_knows_form (h : lib.Knows (· = .type form) x) :
    ∃ name, lib.form? x = some (name, form) := by
  obtain ⟨s, hs, hsort⟩ := h
  obtain ⟨name, form', hx⟩ := exists_form?_of_knows ⟨s, hs, by rw [hsort]; trivial⟩
  obtain ⟨s', t, hs', hkind, -, rfl⟩ := form?_eq_some.1 hx
  obtain rfl := Option.some.inj (hs.symm.trans hs')
  rw [Symbol.sort, hkind, SymbolKind.sort] at hsort
  exact ⟨name, by rw [hx, SymbolSort.type.inj hsort]⟩

theorem form?_congr (h : ∀ y, lib'.symbol? y = lib.symbol? y) (x : SymbolId) :
    lib'.form? x = lib.form? x := by
  rw [form?, form?, h]

/-! ## Starred libraries -/

/-- A sound library where the name of a pointer type is that of what it leads to, and a star. -/
structure IsStarred (lib : Library) : Prop extends lib.IsSound False where
  pointer : ∀ {x name p}, lib.form? x = some (name, .pointer p) →
    ∃ base form, lib.form? p = some (base, form) ∧ name = base ++ "*"

/-- A library that extends the one from before and is starred. -/
structure Furthers (lib lib' : Library) : Prop extends lib.Extends lib' where
  isStarred : lib'.IsStarred

theorem Furthers.trans (h : lib.Furthers lib') (h' : lib'.Furthers lib'') : lib.Furthers lib'' :=
  ⟨h.toExtends.trans h'.toExtends, h'.isStarred⟩

theorem star_append_stars (n : Nat) : "*" ++ stars n = stars (n + 1) := by
  simp [stars, List.replicate_succ]

namespace IsStarred

theorem refl (h : lib.IsStarred) : lib.Furthers lib := ⟨.refl lib, h⟩

theorem pointsRight (h : lib.IsStarred) : lib.PointsRight :=
  fun _ _ hx => pointee?_eq_some.2 (h.knows_pointerType? hx)

/-- A type that leads to another one in so many steps has its name with as many stars. -/
theorem nameOf_of_follow? (h : lib.IsStarred) {n : Nat} (hx : lib.follow? n x = some p) :
    lib.nameOf x = lib.nameOf p ++ stars n := by
  induction n generalizing p with
  | zero =>
    obtain rfl := Option.some.inj hx
    simp [stars]
  | succ n ih =>
    obtain ⟨y, hy, hp⟩ := Option.bind_eq_some_iff.1 hx
    obtain ⟨name, hform⟩ := exists_form?_of_knows_form (pointee?_eq_some.1 hp)
    obtain ⟨base, form, hbase, rfl⟩ := h.pointer hform
    rw [ih hy, nameOf_of_form? hform, nameOf_of_form? hbase, String.append_assoc, star_append_stars]

/-! ## What keeps a library starred -/

/-- What is new among the pointer types has the right name. -/
theorem of_evolves (h : lib.IsStarred) (hstep : Evolves False lib lib')
    (hmono : ∀ {x nf}, lib.form? x = some nf → lib'.form? x = some nf)
    (hnew : ∀ {x name p}, lib'.form? x = some (name, .pointer p) →
      lib.form? x = some (name, .pointer p) ∨
        ∃ base form, lib.form? p = some (base, form) ∧ name = base ++ "*") :
    lib.Furthers lib' := by
  refine ⟨hstep.toExtends, hstep.isSound, fun hx => ?_⟩
  obtain ⟨base, form, hp, hname⟩ := (hnew hx).elim h.pointer fun hp => hp
  exact ⟨base, form, hmono hp, hname⟩

theorem of_form?_eq (h : lib.IsStarred) (hstep : Evolves False lib lib')
    (hform : ∀ x, lib'.form? x = lib.form? x) : lib.Furthers lib' :=
  h.of_evolves hstep (fun hx => (hform _).trans hx) fun hx => .inl ((hform _).symm.trans hx)

/-- One symbol is new. If it is a pointer type, it is named after what it leads to. -/
theorem of_new (h : lib.IsStarred) (hstep : Evolves False lib lib') (hfresh : lib.symbol? x = none)
    (hsymbol : ∀ y, lib'.symbol? y = if y = x then some s else lib.symbol? y)
    (hname : ∀ t p, s.type? = some t → t.form = .pointer p →
      ∃ base form, lib.form? p = some (base, form) ∧ s.name = base ++ "*") : lib.Furthers lib' := by
  have hform := form?_of_symbol? hsymbol
  refine h.of_evolves hstep (fun {y nf} hy => ?_) fun {y name p} hy => ?_
  · rw [hform, if_neg, hy]
    rintro rfl
    rw [form?, hfresh] at hy
    cases hy
  · rw [hform] at hy
    split at hy
    · obtain ⟨t, ht, heq⟩ := Option.map_eq_some_iff.1 hy
      obtain ⟨rfl, hpointer⟩ := Prod.mk.inj heq
      exact .inr (hname t p ht hpointer)
    · exact .inl hy

theorem of_makesType (h : lib.IsStarred) (hstep : Evolves False lib lib')
    (hmakes : lib.MakesType x s t lib') (hname : ∀ p, t.form = .pointer p →
      ∃ base form, lib.form? p = some (base, form) ∧ s.name = base ++ "*") : lib.Furthers lib' := by
  refine h.of_new hstep hmakes.fresh hmakes.symbol?_eq fun t' p ht => ?_
  rw [Symbol.type?, hmakes.kind_eq] at ht
  exact Option.some.inj ht ▸ hname p

theorem pointerTo (h : lib.IsStarred) (hp : lib.Knows IsType p) :
    lib.Furthers (lib.pointerTo p).2 ∧
      (lib.pointerTo p).2.Knows (· = .type (.pointer p)) (lib.pointerTo p).1 := by
  obtain ⟨hstep, hknows⟩ := h.toIsSound.pointerTo hp
  refine ⟨?_, hknows⟩
  rcases h.isApart.pointerTo_cases p with ⟨x, -, hrun⟩ | ⟨-, hmakes, -⟩
  · rw [hrun]
    exact h.refl
  · refine h.of_makesType hstep hmakes fun q hq => ?_
    obtain rfl := TypeForm.pointer.inj hq
    obtain ⟨name, form, hform⟩ := exists_form?_of_knows hp
    exact ⟨name, form, hform, by rw [pointerSymbol, nameOf_of_form? hform]⟩

/-- A pointer type leads back to its base. -/
theorem pointerType (h : lib.IsStarred) (hbase : lib.Knows IsType base) (depth : Nat) :
    lib.Furthers (lib.pointerType base depth).2 ∧
      (lib.pointerType base depth).2.Knows IsType (lib.pointerType base depth).1 ∧
      (lib.pointerType base depth).2.follow? depth (lib.pointerType base depth).1 = some base := by
  refine ⟨?_, (h.toIsSound.pointerType hbase depth).2,
    h.pointsRight.follow?_pointerType h.isApart base depth⟩
  induction depth generalizing lib base with
  | zero => exact h.refl
  | succ depth ih =>
    obtain ⟨hfirst, hknows⟩ := h.pointerTo hbase
    exact hfirst.trans (ih hfirst.isStarred (hknows.imp fun _ hs => hs ▸ trivial))

theorem functionType (h : lib.IsStarred) {ps : List SymbolId} {r : SymbolId}
    (hps : ∀ p ∈ ps, lib.Knows IsType p) (hr : lib.Knows IsType r) :
    lib.Furthers (lib.functionType ps r).2 ∧
      (lib.functionType ps r).2.Knows (· = .type (.function ps r)) (lib.functionType ps r).1 := by
  obtain ⟨hstep, -⟩ := h.toIsSound.functionType hps hr
  rcases h.isApart.functionType_cases ps r with ⟨x, hx, hrun⟩ | ⟨-, hmakes, -⟩
  · rw [hrun]
    exact ⟨h.refl, h.knows_functionType? hx⟩
  · exact ⟨h.of_makesType hstep hmakes nofun, lib.functionSymbol ps r,
      (hmakes.symbol?_eq _).trans (if_pos rfl), rfl⟩

theorem createType (h : lib.IsStarred) (name : String) (span : Span) :
    lib.Furthers (lib.createType name false span).2 ∧
      ∀ x, (lib.createType name false span).1 = .ok x →
        (lib.createType name false span).2.Knows IsType x := by
  have hcreated := h.toIsSound.createType name span
  refine ⟨?_, fun x hx => (hcreated.2 x hx).imp fun _ hs => hs.1⟩
  have hstep := hcreated.1
  unfold Library.createType at hstep ⊢
  split
  · split
    · next p hp =>
      obtain ⟨t, ht⟩ := Option.isSome_iff_exists.1 (Option.filter_eq_some_iff.1 hp).2
      exact (h.pointerType (knows_isType_of_type? ht) _).1
    · exact h.refl
  · next heq =>
    simp only [heq] at hstep
    refine h.of_new hstep (h.isApart.symbol?_alloc_fst _) (h.isApart.symbol?_alloc _) ?_
    intro t p ht hp
    obtain rfl := Option.some.inj ht
    cases hp

theorem setDeclaration (h : lib.IsStarred) (x : SymbolId) (node : NodeId) :
    lib.Furthers (lib.setDeclaration x node) := by
  refine h.of_form?_eq (h.toIsSound.setDeclaration x node) fun y => ?_
  rw [form?, Library.setDeclaration, h.isApart.symbol?_update]
  split
  · rw [Option.bind_map]
    rfl
  · rfl

theorem registerGlobal (h : lib.IsStarred) (x : SymbolId) :
    lib.Furthers (lib.registerGlobal x).2 := by
  refine h.of_form?_eq (h.toIsSound.registerGlobal x) (form?_congr fun y => ?_)
  unfold Library.registerGlobal
  split
  · rfl
  · split
    · rfl
    · exact symbol?_publish ..

end IsStarred

/-! ## The beginning of an analysis -/

theorem core_symbol? (id : LibraryId) (x : SymbolId) : (core id).symbol? x =
    if x.library = id then (coreSymbols id)[x.index]? else none := by
  have hapart : (core id).IsApart := by simp [IsApart, core_dependencies, reachAll]
  rw [hapart.symbol?, core_id, core_symbols, core_dependencies, reachAll, List.findSome?_nil,
    List.getElem?_toArray]

theorem isStarred_core (id : LibraryId) : (core id).IsStarred := by
  refine ⟨isSound_core id, fun {x name p} hx => ?_⟩
  obtain ⟨s, t, hs, hkind, rfl, hform⟩ := form?_eq_some.1 hx
  rw [core_symbol?, Option.ite_none_right_eq_some] at hs
  have hmem := List.mem_of_getElem? hs.2
  rw [coreSymbols, List.mem_append, List.mem_map, List.mem_map] at hmem
  rcases hmem with ⟨b, -, rfl⟩ | ⟨b, -, rfl⟩
  · obtain rfl := SymbolKind.type.inj hkind
    cases hform
  · obtain rfl := SymbolKind.type.inj hkind
    obtain rfl := TypeForm.pointer.inj hform
    have hbase := (core_symbol? id (builtin id b)).trans
      ((if_pos rfl).trans (coreSymbols_index id b))
    exact ⟨b.name, .primitive, form?_eq_some.2 ⟨_, _, hbase, rfl, rfl, rfl⟩, rfl⟩

theorem Coherent.form?_of_mem_reach {dep : Library} (h : Coherent lib.reach) (hdep : dep ∈ lib.reach)
    (hx : dep.form? x = some (name, form)) : lib.form? x = some (name, form) := by
  obtain ⟨s, t, hs, hrest⟩ := form?_eq_some.1 hx
  exact form?_eq_some.2 ⟨s, t, h.symbol?_of_mem_reach hdep hs, hrest⟩

section Start

variable {deps : List Library} {target : Library} (hblank : target.IsBlank)
  (hcoherent : Coherent (reachAll (target.dependencies ++ deps)))
  (hfresh : ∀ dep ∈ reachAll (target.dependencies ++ deps), dep.id ≠ target.id)
  (hdeps : ∀ dep ∈ target.dependencies ++ deps, dep.IsStarred)

include hblank hcoherent hfresh hdeps

/-- Whatever a library has that holds nothing yet, one of its links has. -/
theorem isStarred_start : (Context.start deps target).library.IsStarred := by
  have hreach := coherent_start hblank hcoherent hfresh
  refine ⟨isSound_start hblank hcoherent hfresh fun dep hdep => (hdeps dep hdep).toIsSound,
    fun {x name p} hx => ?_⟩
  obtain ⟨s, t, hs, hrest⟩ := form?_eq_some.1 hx
  obtain ⟨dep, hdep, howned⟩ := exists_owned?_of_symbol? hs
  obtain ⟨dependencies, hsubset, heq, -⟩ := library_start deps hblank
  rw [reach_eq, List.mem_cons] at hdep
  rcases hdep with rfl | hdep
  · rw [owned?_eq_some, heq] at howned
    simp [reset] at howned
  · rw [heq] at hdep
    obtain ⟨d, hd, hdep⟩ := mem_reachAll.1 hdep
    have hmem := mem_reach_start hblank hcoherent (hsubset hd)
    have hd' : Coherent d.reach := hreach.mono fun _ h => mem_reach_trans _ hmem h
    obtain ⟨base, form, hp, hname⟩ := (hdeps d (hsubset hd)).pointer
      (form?_eq_some.2 ⟨s, t, hd'.symbol?_of_owned? hdep howned, hrest⟩)
    exact ⟨base, form, hreach.form?_of_mem_reach hmem hp, hname⟩

end Start

end Sable.Library
