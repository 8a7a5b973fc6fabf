import Sable.Proofs.Symbol.Tables
import Sable.Proofs.Workspace.Frozen

/-!
# Interning in a workspace

Two types are the same if their symbols are. So a type that was asked for once must be found again,
whatever was made, registered or linked meanwhile, and only those that ask for the same type may get
its symbol.

Libraries that do not see one another make the same type twice, and who links both sees two symbols
for it. Along links it has one, if no library makes types before it is linked.

## Main definitions

* `Workspace.LinksFirst`: libraries are linked before they hold symbols.

## Main statements

* `Workspace.interning_stable`: the second answer is that of the first, and belongs to one type.
* `Workspace.sameForm_run`: the types of one form that a library sees.
* `Workspace.sameForm_siblings`: two symbols for one type.
-/
namespace Sable

theorem Library.isInvariant_ownsInterned : Library.IsInvariant Library.OwnsInterned where
  new _ _ := Library.ownsInterned_of_empty rfl rfl
  core := Library.ownsInterned_core
  step h s := h.step s
  link h dep := by
    unfold Library.link
    split <;> exact h

namespace Workspace

variable {w : Workspace} {k : LibraryId} {s : LibraryStep} {form : TypeForm} {x : SymbolId}

theorem run_append (w : Workspace) (steps steps' : List WorkspaceStep) :
    w.run (steps ++ steps') = (w.run steps).run steps' :=
  List.foldl_append

/-- Behind the step that interns a type, the type is interned. -/
theorem interned?_of_edit (hs : s.interns? = some form)
    (hanswer : (w.step (.edit k s)).1 = .ok (.symbol x)) :
    ∃ lib, (w.step (.edit k s)).2.library? k = some lib ∧ lib.interned? form = some x := by
  rw [step, edit] at hanswer ⊢
  split at hanswer
  · simp at hanswer
  · next lib hlib =>
    have hslot := library?_of_slots (slots_of_editable hlib)
    have hinterned := Library.interned?_of_step lib (x := x) hs
    cases hstep : lib.step s with
    | mk answer lib' =>
      rw [hstep] at hanswer hinterned
      obtain e | _ | y := answer
      · simp at hanswer
      · simp at hanswer
      · obtain rfl : y = x := by simpa using hanswer
        have hput := exists_put (Q := fun lib => lib.interned? form = some y) hslot
          (fun hne => absurd rfl hne) fun _ => hinterned rfl
        simpa [hlib, hstep] using hput

/-- A pointer type or a function type that was asked for once is the answer to the same question at
any later time, as long as the library is not emptied, and nothing changes then. It is of the form
that was asked for, and it is the answer to no other question. -/
theorem interning_stable {before after : List WorkspaceStep} (hs : s.interns? = some form)
    (hanswer : ((({} : Workspace).run before).step (.edit k s)).1 = .ok (.symbol x))
    (hafter : ∀ t ∈ after, ¬t.Resets k) :
    ∃ lib, (({} : Workspace).run (before ++ .edit k s :: after)).library? k = some lib ∧
      lib.step s = (.ok (some x), lib) ∧ (∃ t, lib.type? x = some t ∧ t.form = form) ∧
      ∀ s' form', s'.interns? = some form' → (lib.step s').1 = .ok (some x) → form' = form := by
  obtain ⟨lib, hlib, hx⟩ := keeps_run (Q := fun lib => lib.interned? form = some x)
    (fun _ s hreset hx => (Library.enters_step s hreset).interned? hx)
    (fun _ dep hx => Library.interned?_link dep hx) (interned?_of_edit hs hanswer) hafter
  have hrun : ({} : Workspace).run (before ++ .edit k s :: after) =
      ((({} : Workspace).run before).step (.edit k s)).2.run after := run_append _ _ _
  have horderly := isOrderly_run Library.isInvariant_ownsInterned (before ++ .edit k s :: after)
  rw [hrun] at horderly ⊢
  have hfits := horderly k lib hlib
  have howns := hfits.forall_mem_reach horderly
  exact ⟨lib, hlib, Library.step_of_interned hs hx,
    Library.type?_of_interned? hfits.isCoherent howns hx, fun s' form' hs' hanswer' =>
      Library.form_unique hfits.isApart hfits.isCoherent howns hx hs' hanswer'⟩

/-- A pointer type that stays, while a function type is made of it and another library is linked. -/
theorem interning_stable_pointer :
    let before : List WorkspaceStep := [.core, .new "l", .link 1 0]
    let after : List WorkspaceStep :=
      [.edit 1 (.functionType [⟨1, 0⟩] ⟨0, 0⟩), .new "m", .edit 2 (.pointerTo ⟨0, 2⟩), .link 1 2]
    ((({} : Workspace).run before).step (.edit 1 (.pointerTo ⟨0, 2⟩))).1 =
        .ok (.symbol ⟨1, 0⟩) ∧
      ∃ lib, (({} : Workspace).run (before ++ .edit 1 (.pointerTo ⟨0, 2⟩) :: after)).library? 1 =
          some lib ∧
        lib.step (.pointerTo ⟨0, 2⟩) = (.ok (some ⟨1, 0⟩), lib) ∧
        (∃ t, lib.type? ⟨1, 0⟩ = some t ∧ t.form = .pointer ⟨0, 2⟩) ∧
        ∀ s' form', s'.interns? = some form' → (lib.step s').1 = .ok (some ⟨1, 0⟩) →
          form' = .pointer ⟨0, 2⟩ := by
  intro before after
  have hanswer : ((({} : Workspace).run before).step (.edit 1 (.pointerTo ⟨0, 2⟩))).1 =
      .ok (.symbol ⟨1, 0⟩) := by rfl
  exact ⟨hanswer, interning_stable rfl hanswer (by simp [after, WorkspaceStep.Resets])⟩

end Workspace

/-! ## Types of one form -/

namespace Library

variable {lib : Library}

theorem isInvariant_hasTables : IsInvariant HasTables where
  new _ _ := .of_symbols rfl
  core := hasTables_core
  step h s := h.step s
  link h dep := h.link dep

/-- The tables of the library hold its types of every form once, and none that it reaches. -/
structure InternsOnce (lib : Library) : Prop where
  owns : lib.OwnsInterned
  tables : lib.HasTables
  isOriginal : lib.IsOriginal

theorem cached?_eq_none (h : lib.OwnsInterned) (hempty : lib.symbols.isEmpty) (form : TypeForm) :
    lib.cached? form = none := by
  cases hx : lib.cached? form with
  | none => rfl
  | some x =>
    obtain ⟨s, hs, -⟩ := h form x hx
    have hsome := (owned?_eq_some.1 hs).2
    simp [Array.isEmpty_iff.1 hempty] at hsome

namespace InternsOnce

theorem of_empty (howns : lib.OwnsInterned) (hempty : lib.symbols.isEmpty) : lib.InternsOnce where
  owns := howns
  tables := .of_symbols (Array.isEmpty_iff.1 hempty)
  isOriginal form x hx := by
    rw [cached?_eq_none howns hempty] at hx
    cases hx

theorem core (id : LibraryId) : (Library.core id).InternsOnce where
  owns := ownsInterned_core id
  tables := hasTables_core id
  isOriginal _ _ _ := by
    rw [core_dependencies]
    exact List.forall_mem_nil _

theorem step (h : lib.InternsOnce) (s : LibraryStep) : (lib.step s).2.InternsOnce := by
  by_cases hreset : s = .reset
  · subst hreset
    exact .of_empty (h.owns.step .reset) rfl
  · exact ⟨h.owns.step s, h.tables.step s, h.isOriginal.enters (enters_step s hreset)⟩

/-- As long as it has no symbols, a library may be linked. -/
theorem link (h : lib.InternsOnce) (hempty : lib.symbols.isEmpty) (dep : Library) :
    (lib.link dep).InternsOnce :=
  .of_empty (isInvariant_ownsInterned.link h.owns dep) (by rwa [symbols_link])

/-- An analysis links its target when it has no symbols. -/
theorem analyze (h : lib.InternsOnce) (deps : List Library) (unit : Block) :
    (unit.analyze deps lib).library.InternsOnce := by
  have hstart : (Context.start deps lib).library.symbols.isEmpty ∧
      (Context.start deps lib).library.InternsOnce :=
    Context.keeps_start (P := fun lib => lib.symbols.isEmpty ∧ lib.InternsOnce)
      (fun hempty => ⟨hempty, h⟩) (fun _ => ⟨rfl, h.step .reset⟩)
      fun l hl dep _ => ⟨by rw [symbols_link]; exact hl.1, hl.2.link hl.1 dep⟩
  exact (unit.steps_analyze deps lib).keeps hstart.2 fun _ s _ hl => hl.step s

end InternsOnce

end Library

/-- The step links no library that holds symbols. An analysis empties its target before it links. -/
def WorkspaceStep.LinksFirst (w : Workspace) : WorkspaceStep → Prop
  | .link target _ => ∀ lib, w.library? target = some lib → lib.symbols.isEmpty
  | .new _ | .core | .edit _ _ | .analyze _ _ _ => True

namespace Workspace

variable {w : Workspace} {k : LibraryId} {lib : Library} {x y : SymbolId} {t t' : TypeSymbol}

/-- No step of the sequence links a library that holds symbols. -/
def LinksFirst : Workspace → List WorkspaceStep → Prop
  | _, [] => True
  | w, s :: steps => s.LinksFirst w ∧ (w.step s).2.LinksFirst steps

/-- What all libraries of a workspace are. -/
def IsEach (w : Workspace) (P : Library → Prop) : Prop := ∀ k lib, w.library? k = some lib → P lib

namespace IsEach

variable {P : Library → Prop}

theorem freezes {w' : Workspace} (h : w.IsEach P) (hfreezes : w.Freezes w') : w'.IsEach P :=
  fun k lib hlib => h k lib (hfreezes.library?_eq k ▸ hlib)

theorem put (h : w.IsEach P) (target : LibraryId) (hlib : P lib) : (w.put target lib).IsEach P := by
  intro k l hl
  rw [library?, Workspace.put, List.getElem?_set] at hl
  split at hl
  · split at hl
    · exact Option.some.inj hl ▸ hlib
    · cases hl
  · exact h k l hl

theorem add (h : w.IsEach P) {make : LibraryId → Library} (hmake : ∀ id, P (make id)) :
    (w.add make).2.IsEach P := by
  intro k l hl
  rw [library?, Workspace.add, List.getElem?_append] at hl
  split at hl
  · exact h k l hl
  · rw [List.getElem?_singleton] at hl
    split at hl
    · exact Option.some.inj hl ▸ hmake _
    · cases hl

end IsEach

theorem internsOnce_step (h : w.IsEach Library.InternsOnce) {s : WorkspaceStep}
    (hs : s.LinksFirst w) : (w.step s).2.IsEach Library.InternsOnce := by
  cases s with
  | new name => exact h.add fun id => .of_empty (Library.isInvariant_ownsInterned.new id name) rfl
  | core => exact h.add .core
  | link target dependency =>
    obtain ⟨hfreezes, -⟩ := w.freezes_freeze dependency
    rw [step, link]
    split <;> next heq =>
      rw [heq] at hfreezes
      have h' := h.freezes hfreezes
      first
      | exact h'
      | split
        · exact h'
        · next lib hlib =>
          have hslot := library?_of_slots (slots_of_editable hlib)
          exact h'.put target ((h' _ _ hslot).link (hs lib (hfreezes.library?_eq _ ▸ hslot)) _)
  | edit target s =>
    rw [step, edit]
    split
    · exact h
    · next lib hlib =>
      have hstep := (h _ _ (library?_of_slots (slots_of_editable hlib))).step s
      split <;> next heq =>
        rw [heq] at hstep
        exact h.put target hstep
  | analyze target dependencies unit =>
    obtain ⟨hfreezes, -⟩ := w.freezes_freezeAll dependencies
    rw [step, analyze]
    split <;> next heq =>
      rw [heq] at hfreezes
      have h' := h.freezes hfreezes
      first
      | exact h'
      | split
        · exact h'
        · next lib hlib =>
          have hlib := h' _ _ (library?_of_slots (slots_of_editable hlib))
          exact h'.put target (hlib.analyze _ unit)

theorem internsOnce_run {steps : List WorkspaceStep} (h : w.IsEach Library.InternsOnce)
    (hsteps : w.LinksFirst steps) : (w.run steps).IsEach Library.InternsOnce := by
  induction steps generalizing w with
  | nil => exact h
  | cons s steps ih => exact ih (internsOnce_step h hsteps.1) hsteps.2

/-- In every library of a workspace, whatever was done there, two symbols of one library are not
pointer types to the same type, or function types with the same parameters and result. If libraries
are linked before they hold symbols, as analyses do, two symbols for one such type belong to libraries
neither of which reaches the other. -/
theorem sameForm_run {steps : List WorkspaceStep}
    (hlib : (({} : Workspace).run steps).library? k = some lib) (hx : lib.type? x = some t)
    (hy : lib.type? y = some t') (hform : t'.form = t.form) (hmade : t.form.IsMade) :
    (x.library = y.library → x = y) ∧ (({} : Workspace).LinksFirst steps → x = y ∨
      ∃ a ∈ lib.reach, ∃ b ∈ lib.reach, a.id = x.library ∧ b.id = y.library ∧
        a ∉ b.reach ∧ b ∉ a.reach) := by
  have horderly := isOrderly_run Library.isInvariant_hasTables steps
  have hfits := horderly k lib hlib
  have htables := hfits.forall_mem_reach horderly
  obtain ⟨a, ha, haid, hax⟩ := Library.exists_cached? htables hx hmade
  obtain ⟨b, hb, hbid, hby⟩ := Library.exists_cached? htables hy (hform ▸ hmade)
  rw [hform] at hby
  have hsame : a = b → x = y := by
    rintro rfl
    exact Option.some.inj (hax.symm.trans hby)
  refine ⟨fun hlibrary => hsame ?_, fun hsteps => ?_⟩
  · exact hfits.isCoherent a ha b hb (haid.trans (hlibrary.trans hbid.symm))
  · by_cases hab : a = b
    · exact .inl (hsame hab)
    · have heach : (({} : Workspace).run steps).IsEach Library.InternsOnce :=
        internsOnce_run (fun _ _ hnone => by simp [library?] at hnone) hsteps
      have honce : ∀ dep ∈ lib.reach, dep.InternsOnce := by
        rw [Library.reach_eq, List.forall_mem_cons]
        exact ⟨heach k lib hlib,
          fun dep hdep => heach dep.id dep (library?_of_slots (hfits.holds dep hdep))⟩
      exact .inr ⟨a, ha, b, hb, haid, hbid,
        (honce b hb).isOriginal.notMem_reach hby hax hab,
        (honce a ha).isOriginal.notMem_reach hax hby (Ne.symm hab)⟩

/-- The libraries 1 and 2 each make the pointer type to `Integer`. Library 3 links both. -/
theorem sameForm_run_siblings :
    let steps : List WorkspaceStep := [.core, .new "a", .link 1 0, .edit 1 (.pointerTo ⟨0, 2⟩),
      .new "b", .link 2 0, .edit 2 (.pointerTo ⟨0, 2⟩), .new "l", .link 3 1, .link 3 2]
    ∃ lib t t', (({} : Workspace).run steps).library? 3 = some lib ∧ lib.type? ⟨1, 0⟩ = some t ∧
      lib.type? ⟨2, 0⟩ = some t' ∧ t'.form = t.form ∧ ({} : Workspace).LinksFirst steps ∧
      ∃ a ∈ lib.reach, ∃ b ∈ lib.reach, a.id = 1 ∧ b.id = 2 ∧ a ∉ b.reach ∧ b ∉ a.reach := by
  intro steps
  obtain ⟨lib, hlib⟩ : ∃ lib, (({} : Workspace).run steps).library? 3 = some lib := ⟨_, rfl⟩
  have htypes : ∃ t t', lib.type? ⟨1, 0⟩ = some t ∧ lib.type? ⟨2, 0⟩ = some t' ∧
      t.form = .pointer ⟨0, 2⟩ ∧ t'.form = t.form := by
    obtain rfl := Option.some.inj hlib
    exact ⟨_, _, rfl, rfl, rfl, rfl⟩
  obtain ⟨t, t', ht, ht', hmade, hform⟩ := htypes
  have hlinks : ({} : Workspace).LinksFirst steps := by
    simp only [steps, LinksFirst, WorkspaceStep.LinksFirst, true_and, and_true]
    refine ⟨?_, ?_, ?_, ?_⟩ <;> rintro lib hlib <;> obtain rfl := Option.some.inj hlib <;> rfl
  have happart := (sameForm_run hlib ht ht' hform (hmade ▸ trivial)).2 hlinks
  exact ⟨lib, t, t', hlib, ht, ht', hform, hlinks, happart.resolve_left (by decide)⟩

/-- Two symbols for one type. -/
theorem sameForm_siblings :
    let steps : List WorkspaceStep := [.core, .new "a", .link 1 0, .edit 1 (.pointerTo ⟨0, 2⟩),
      .new "b", .link 2 0, .edit 2 (.pointerTo ⟨0, 2⟩), .new "l", .link 3 1, .link 3 2]
    let form? (x : SymbolId) : Option TypeForm :=
      (((({} : Workspace).run steps).library? 3).bind (·.type? x)).map TypeSymbol.form
    form? ⟨1, 0⟩ = some (.pointer ⟨0, 2⟩) ∧ form? ⟨2, 0⟩ = some (.pointer ⟨0, 2⟩) ∧
      (⟨1, 0⟩ : SymbolId) ≠ ⟨2, 0⟩ := by
  decide +kernel

end Workspace

end Sable
