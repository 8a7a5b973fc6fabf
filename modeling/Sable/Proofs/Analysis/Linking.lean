import Sable.Proofs.Analysis.Starting
import Sable.Proofs.Symbol.Sound

/-!
# Linking sound libraries

A library that is linked to sound libraries and holds nothing yet is sound, if a number stands for
one library only. So are the built-in types. This is how an analysis begins.

## Main definitions

* `Library.Coherent`: libraries with the same number are the same.
* `Library.IsBlank`: a library that holds nothing when an analysis begins.

## Main statements

* `Library.isSound_core`: the built-in types.
* `Library.isSound_start`: the start of an analysis.
-/
namespace Sable.Library

open SymbolSort

variable {lib dep : Library} {typed : Prop} {x : SymbolId} {s : Symbol}

/-! ## Within reach -/

theorem mem_reach_self (lib : Library) : lib ∈ lib.reach := by
  rw [reach_eq]
  exact List.mem_cons_self

mutual

theorem mem_reach_trans {dep mid : Library} :
    (lib : Library) → mid ∈ lib.reach → dep ∈ mid.reach → dep ∈ lib.reach
  | ⟨_, _, _, _, _, _, dependencies⟩, hmid, hdep => by
    rw [reach, List.mem_cons] at hmid
    rcases hmid with rfl | hmid
    · exact hdep
    · rw [reach]
      exact List.mem_cons_of_mem _ (mem_reachAll_trans dependencies hmid hdep)

theorem mem_reachAll_trans {dep mid : Library} :
    (libs : List Library) → mid ∈ reachAll libs → dep ∈ mid.reach → dep ∈ reachAll libs
  | [], hmid, _ => absurd hmid (by simp [reachAll])
  | lib :: libs, hmid, hdep => by
    rw [reachAll, List.mem_append] at hmid ⊢
    exact hmid.imp (fun hmid => mem_reach_trans lib hmid hdep)
      fun hmid => mem_reachAll_trans libs hmid hdep

end

theorem reachAll_subset {libs libs' : List Library} (h : libs ⊆ libs') :
    reachAll libs ⊆ reachAll libs' := by
  intro dep hdep
  obtain ⟨lib, hlib, hdep⟩ := mem_reachAll.1 hdep
  exact mem_reachAll.2 ⟨lib, h hlib, hdep⟩

/-- Libraries with the same number are the same. -/
def Coherent (libs : List Library) : Prop :=
  ∀ lib ∈ libs, ∀ lib' ∈ libs, lib.id = lib'.id → lib = lib'

theorem coherent_core (k : LibraryId) : Coherent (reachAll [core k]) := by
  rw [reachAll_core]
  rintro dep hdep dep' hdep' -
  rw [List.mem_singleton.1 hdep, List.mem_singleton.1 hdep']

theorem Coherent.mono {libs libs' : List Library} (h : Coherent libs') (hsubset : libs ⊆ libs') :
    Coherent libs :=
  fun lib hlib lib' hlib' heq => h lib (hsubset hlib) lib' (hsubset hlib') heq

theorem owned?_eq_some : lib.owned? x = some s ↔ lib.id = x.library ∧ lib.symbols[x.index]? = some s := by
  unfold owned?
  split
  · next h => simp [h]
  · next h => simp [Ne.symm h]

theorem exists_owned?_of_symbol? (h : lib.symbol? x = some s) :
    ∃ dep ∈ lib.reach, dep.owned? x = some s := by
  rw [symbol?, firstSome?_eq] at h
  exact List.exists_of_findSome?_eq_some h

/-- What one of the libraries owns is found there. -/
theorem Coherent.findSome?_owned? {libs : List Library} (h : Coherent libs) (hdep : dep ∈ libs)
    (hs : dep.owned? x = some s) : libs.findSome? (·.owned? x) = some s := by
  cases hx : libs.findSome? (·.owned? x) with
  | none =>
    rw [List.findSome?_eq_none_iff] at hx
    exact absurd (hx dep hdep) (by simp [hs])
  | some t =>
    obtain ⟨dep', hdep', ht⟩ := List.exists_of_findSome?_eq_some hx
    have hid := (owned?_eq_some.1 ht).1.trans (owned?_eq_some.1 hs).1.symm
    rw [h dep' hdep' dep hdep hid, hs] at ht
    exact ht.symm

/-- What a library within reach owns can be looked up. -/
theorem Coherent.symbol?_of_owned? (h : Coherent lib.reach) (hdep : dep ∈ lib.reach)
    (hs : dep.owned? x = some s) : lib.symbol? x = some s := by
  rw [symbol?, firstSome?_eq]
  exact h.findSome?_owned? hdep hs

theorem Coherent.symbol?_of_mem_reach (h : Coherent lib.reach) (hdep : dep ∈ lib.reach)
    (hs : dep.symbol? x = some s) : lib.symbol? x = some s := by
  obtain ⟨d, hd, hs⟩ := exists_owned?_of_symbol? hs
  exact h.symbol?_of_owned? (mem_reach_trans lib hdep hd) hs

theorem Coherent.knows (h : Coherent lib.reach) (hdep : dep ∈ lib.reach) {p : SymbolSort → Prop}
    (hx : dep.Knows p x) : lib.Knows p x := by
  obtain ⟨s, hs, hp⟩ := hx
  exact ⟨s, h.symbol?_of_mem_reach hdep hs, hp⟩

/-! ## Libraries without symbols -/

theorem isSound_of_links (hcoherent : Coherent lib.reach) (hapart : lib.IsApart)
    (hlib : lib = lib.reset) (hdependencies : ∀ dep ∈ lib.dependencies, dep.IsSound typed) :
    lib.IsSound typed := by
  have hempty : lib.symbols = #[] ∧ lib.globals = .empty ∧ lib.pointerTypes = .empty ∧
      lib.functionTypes = .empty := by
    rw [hlib]
    exact ⟨rfl, rfl, rfl, rfl⟩
  -- whatever is found belongs to a link
  have hlink : ∀ dep ∈ lib.reach, dep = lib ∨
      ∃ d ∈ lib.dependencies, d ∈ lib.reach ∧ dep ∈ d.reach := by
    intro dep hdep
    rw [reach_eq, List.mem_cons] at hdep
    refine hdep.imp_right fun hdep => ?_
    obtain ⟨d, hd, hdep⟩ := mem_reachAll.1 hdep
    refine ⟨d, hd, ?_, hdep⟩
    rw [reach_eq, List.mem_cons]
    exact .inr (mem_reachAll.2 ⟨d, hd, d.mem_reach_self⟩)
  refine ⟨hapart, fun {x s} hs => ?_, fun dep hdep n x hx => ?_, fun dep hdep p x hx => ?_,
    fun dep hdep ps r x hx => ?_⟩
  · obtain ⟨dep, hdep, howned⟩ := exists_owned?_of_symbol? hs
    rcases hlink dep hdep with rfl | ⟨d, hd, hreach, hdep⟩
    · rw [owned?_eq_some, hempty.1] at howned
      simp at howned
    · have hcoherent' : Coherent d.reach :=
        hcoherent.mono fun _ h => mem_reach_trans lib hreach h
      have hsound := (hdependencies d hd).symbol (hcoherent'.symbol?_of_owned? hdep howned)
      exact symbolIsSound_of_knows (hcoherent.knows hreach) hsound
  · rcases hlink dep hdep with rfl | ⟨d, hd, hreach, hdep⟩
    · simp [hempty] at hx
    · exact hcoherent.knows hreach ((hdependencies d hd).globals dep hdep n x hx)
  · rcases hlink dep hdep with rfl | ⟨d, hd, hreach, hdep⟩
    · simp [hempty] at hx
    · exact hcoherent.knows hreach ((hdependencies d hd).pointerTypes dep hdep p x hx)
  · rcases hlink dep hdep with rfl | ⟨d, hd, hreach, hdep⟩
    · simp [hempty] at hx
    · exact hcoherent.knows hreach ((hdependencies d hd).functionTypes dep hdep ps r x hx)

theorem isSound_new (id : LibraryId) (name : String) : (new id name).IsSound typed :=
  isSound_of_links (by simp [Coherent, new, reach_eq, reachAll]) (by simp [IsApart, new, reachAll])
    rfl (by simp [new])

/-! ## The built-in types -/

theorem IsSound.primitive (h : lib.IsSound typed) (name : String) :
    Evolves typed lib (lib.primitive name) := by
  have hform : TypeForm.primitive.IsSound lib := trivial
  have halloc := h.alloc (Symbol.isSound_of_form hform name .dummy)
  exact halloc.1.trans (halloc.1.isSound.publish name halloc.2.any)

theorem isSound_core (id : LibraryId) : (core id).IsSound typed := by
  have hprimitives : ∀ (names : List String) (lib : Library), lib.IsSound typed →
      (names.foldl Library.primitive lib).IsSound typed := by
    intro names
    induction names with
    | nil => exact fun _ h => h
    | cons name names ih => exact fun lib h => ih _ (h.primitive name).isSound
  obtain ⟨lib, hlib⟩ : ∃ lib, lib = [voidName, booleanName, integerName, floatName, byteName,
    nullName].foldl Library.primitive (new id "core") := ⟨_, rfl⟩
  have hsound : lib.IsSound typed := hlib ▸ hprimitives _ _ (isSound_new id "core")
  have hknows : ∀ i name, lib.symbols[i]? =
      some { name := name, kind := .type ⟨.primitive, .empty⟩, span := .dummy } →
      lib.Knows IsType ⟨id, i⟩ := by
    intro i name hs
    have hid : id = lib.id := by rw [hlib]; rfl
    rw [Knows, hsound.isApart.symbol?, if_pos hid, hs]
    exact ⟨_, rfl, trivial⟩
  have hbyte := hknows 4 byteName (by rw [hlib]; rfl)
  have hnull := hknows 5 nullName (by rw [hlib]; rfl)
  have hfirst := (hsound.pointerTo hbyte).1
  have hsecond := (hfirst.isSound.pointerTo (hfirst.knows hnull)).1
  rw [hlib] at hsecond
  exact hsecond.isSound

/-! ## The start of an analysis -/

/-- A library that holds nothing when an analysis begins: one with symbols is emptied then. -/
def IsBlank (lib : Library) : Prop := lib.symbols = #[] → lib = lib.reset

theorem isBlank_new (id : LibraryId) (name : String) : (new id name).IsBlank := fun _ => rfl

section Start

variable {deps : List Library} {target : Library}

variable (deps) in
/-- An analysis begins without symbols, and with all libraries linked. -/
theorem library_start (hblank : target.IsBlank) : ∃ dependencies ⊆ target.dependencies ++ deps,
    (Context.start deps target).library = { target.reset with dependencies } ∧
      ∀ dep ∈ target.dependencies ++ deps, ∃ l ∈ dependencies, l.id = dep.id := by
  have hstart : (Context.start deps target).library = deps.foldl link target.reset := by
    unfold Context.start
    dsimp only
    split
    · next hempty => rw [← hblank (by simpa using hempty)]
    · rfl
  obtain ⟨dependencies, hsubset, heq⟩ := target.reset.foldl_link_eq deps
  obtain ⟨hlinks, hdeps⟩ := target.reset.exists_mem_foldl_link deps
  rw [heq] at hlinks hdeps
  refine ⟨dependencies, hsubset, hstart.trans heq, ?_⟩
  rw [List.forall_mem_append]
  exact ⟨fun dep hdep => ⟨dep, hlinks hdep, rfl⟩, hdeps⟩

variable (hblank : target.IsBlank)
  (hcoherent : Coherent (reachAll (target.dependencies ++ deps)))

include hblank hcoherent

/-- The dependencies are within reach. -/
theorem mem_reach_start {dep : Library} (hdep : dep ∈ target.dependencies ++ deps) :
    dep ∈ (Context.start deps target).library.reach := by
  obtain ⟨dependencies, hsubset, heq, hlinks⟩ := library_start deps hblank
  obtain ⟨l, hl, hid⟩ := hlinks dep hdep
  have hreach : ∀ d ∈ target.dependencies ++ deps, d ∈ reachAll (target.dependencies ++ deps) :=
    fun d hd => mem_reachAll.2 ⟨d, hd, d.mem_reach_self⟩
  rw [← hcoherent l (hreach l (hsubset hl)) dep (hreach dep hdep) hid, reach_eq, heq]
  exact List.mem_cons_of_mem _ (mem_reachAll.2 ⟨l, hl, l.mem_reach_self⟩)

variable (hfresh : ∀ dep ∈ reachAll (target.dependencies ++ deps), dep.id ≠ target.id)

include hfresh

theorem coherent_start : Coherent (Context.start deps target).library.reach := by
  obtain ⟨dependencies, hsubset, heq, -⟩ := library_start deps hblank
  have hreach : ∀ dep ∈ (Context.start deps target).library.reach,
      dep = (Context.start deps target).library ∨
        dep ∈ reachAll (target.dependencies ++ deps) := by
    intro dep hdep
    rw [reach_eq, List.mem_cons, heq] at hdep
    rw [heq]
    exact hdep.imp_right fun hdep => reachAll_subset hsubset hdep
  have hid : (Context.start deps target).library.id = target.id := by rw [heq]; rfl
  intro dep hdep dep' hdep' hids
  rcases hreach dep hdep with rfl | hmem <;> rcases hreach dep' hdep' with rfl | hmem'
  · rfl
  · exact absurd (hids.symm.trans hid) (hfresh dep' hmem')
  · exact absurd (hids.trans hid) (hfresh dep hmem)
  · exact hcoherent dep hmem dep' hmem' hids

variable (hsound : ∀ dep ∈ target.dependencies ++ deps, dep.IsSound typed)

include hsound

theorem isSound_start : (Context.start deps target).library.IsSound typed := by
  obtain ⟨dependencies, hsubset, heq, -⟩ := library_start deps hblank
  refine isSound_of_links (coherent_start hblank hcoherent hfresh)
    (Context.isApart_start hfresh) (by rw [heq]; rfl) fun dep hdep => hsound dep (hsubset ?_)
  rwa [heq] at hdep

/-- What the unit can name is known. -/
theorem knows_globals_start {name : String}
    (hx : (Context.start deps target).globals.get? name = some x) :
    (Context.start deps target).library.Knows Any x := by
  rw [Context.get?_globals_start] at hx
  obtain ⟨dep, hdep, hx⟩ := List.exists_of_findSome?_eq_some hx
  have hmem : dep ∈ target.dependencies ++ deps := List.mem_append_right _ hdep
  exact (coherent_start hblank hcoherent hfresh).knows (mem_reach_start hblank hcoherent hmem)
    ((hsound dep hmem).globals dep dep.mem_reach_self name x hx)

end Start

end Sable.Library
