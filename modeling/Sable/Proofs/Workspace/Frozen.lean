import Sable.Proofs.Analysis.Leading
import Sable.Proofs.Symbol.Stable

/-!
# The libraries of a workspace

The number of a library in a workspace is its place, and all libraries that it reaches are frozen.
So a number stands for one library only, and what is done to a library changes no other one.

What a single library keeps through all its steps, and through links, holds of all libraries of a
workspace.

## Main definitions

* `Library.IsInvariant`: a property of libraries that all steps keep.
* `Workspace.IsOrderly`: each library has its place as its number, and reaches frozen ones only.

## Main statements

* `Workspace.isOrderly_run`: all workspaces are orderly.
* `Workspace.keeps_run`: what a library keeps that is not emptied.
-/
namespace Sable

/-- The step empties the library. An analysis may do so before it begins. -/
def WorkspaceStep.Resets (k : LibraryId) : WorkspaceStep → Prop
  | .edit target s => target = k ∧ s = .reset
  | .analyze target _ _ => target = k
  | .new _ | .core | .link _ _ => False

/-- A property that new libraries have, and that no step and no link takes away. -/
structure Library.IsInvariant (P : Library → Prop) : Prop where
  new : ∀ id name, P (.new id name)
  core : ∀ id, P (.core id)
  step : ∀ {lib}, P lib → ∀ s, P (lib.step s).2
  link : ∀ {lib}, P lib → ∀ dep, P (lib.link dep)

namespace Workspace

variable {P : Library → Prop} {w w' : Workspace} {id : LibraryId} {lib lib' dep : Library}
  {frozen : Bool}

/-- The library is in its place, and will not change any more. -/
def Holds (w : Workspace) (lib : Library) : Prop := w.slots[lib.id]? = some ⟨lib, true⟩

/-- A library that may stand at a place of the workspace. -/
structure Fits (P : Library → Prop) (w : Workspace) (id : LibraryId) (lib : Library) : Prop where
  id_eq : lib.id = id
  isApart : lib.IsApart
  holds : ∀ dep ∈ Library.reachAll lib.dependencies, w.Holds dep
  property : P lib

/-- Each library has its place as its number, and reaches frozen ones only. -/
def IsOrderly (P : Library → Prop) (w : Workspace) : Prop :=
  ∀ id lib, w.library? id = some lib → Fits P w id lib

theorem library?_of_slots (h : w.slots[id]? = some ⟨lib, frozen⟩) : w.library? id = some lib := by
  rw [library?, h, Option.map_some]

theorem slots_of_editable (h : w.editable id = .ok lib) : w.slots[id]? = some ⟨lib, false⟩ := by
  unfold editable at h
  split at h
  · simp at h
  · simp at h
  · next hslot => rw [hslot, Except.ok.inj h]

/-! ## Freezing -/

/-- Nothing happens but that libraries are frozen. -/
structure Freezes (w w' : Workspace) : Prop where
  library?_eq : ∀ id, w'.library? id = w.library? id
  holds : ∀ {id : LibraryId} {lib : Library}, w.slots[id]? = some ⟨lib, true⟩ →
    w'.slots[id]? = some ⟨lib, true⟩

theorem Freezes.refl (w : Workspace) : w.Freezes w := ⟨fun _ => rfl, fun h => h⟩

theorem Freezes.trans {w'' : Workspace} (h : w.Freezes w') (h' : w'.Freezes w'') : w.Freezes w'' :=
  ⟨fun id => (h'.library?_eq id).trans (h.library?_eq id), fun hlib => h'.holds (h.holds hlib)⟩

theorem Freezes.isOrderly (h : w.Freezes w') (hw : w.IsOrderly P) : w'.IsOrderly P := by
  intro id lib hlib
  have hfits := hw id lib (h.library?_eq id ▸ hlib)
  exact { hfits with holds := fun dep hdep => h.holds (hfits.holds dep hdep) }

theorem freezes_freeze (w : Workspace) (id : LibraryId) : w.Freezes (w.freeze id).2 ∧
    ∀ lib, (w.freeze id).1 = .ok lib → (w.freeze id).2.slots[id]? = some ⟨lib, true⟩ := by
  unfold freeze
  split
  · exact ⟨.refl w, nofun⟩
  · next lib frozen hslot =>
    have hlt := (List.getElem?_eq_some_iff.1 hslot).1
    refine ⟨⟨fun k => ?_, fun {k lib'} hlib => ?_⟩, fun lib' hlib => ?_⟩
    · by_cases hk : id = k
      · subst hk
        rw [library?, library?, List.getElem?_set_self hlt, hslot]
        rfl
      · rw [library?, library?, List.getElem?_set_ne hk]
    · by_cases hk : id = k
      · subst hk
        obtain ⟨rfl, -⟩ := Slot.mk.inj (Option.some.inj (hslot.symm.trans hlib))
        exact List.getElem?_set_self hlt
      · rwa [List.getElem?_set_ne hk]
    · rw [← Except.ok.inj hlib]
      exact List.getElem?_set_self hlt

theorem freezes_freezeAll (w : Workspace) (ids : List LibraryId) : w.Freezes (w.freezeAll ids).2 ∧
    ∀ libs, (w.freezeAll ids).1 = .ok libs → ∀ lib ∈ libs,
      ∃ id : LibraryId, (w.freezeAll ids).2.slots[id]? = some ⟨lib, true⟩ := by
  induction ids generalizing w with
  | nil => exact ⟨.refl w, fun libs hlibs => by simp [← Except.ok.inj hlibs]⟩
  | cons id ids ih =>
    obtain ⟨hfreezes, hlib⟩ := w.freezes_freeze id
    rw [freezeAll]
    split
    · next heq =>
      rw [heq] at hfreezes
      exact ⟨hfreezes, nofun⟩
    · next lib w' heq =>
      rw [heq] at hfreezes hlib
      obtain ⟨hrest, hlibs⟩ := ih w'
      refine ⟨hfreezes.trans hrest, fun libs hall => ?_⟩
      cases hanswer : (w'.freezeAll ids).1 with
      | error e => simp [hanswer, Except.map] at hall
      | ok libs' =>
        obtain rfl : lib :: libs' = libs := by simpa [hanswer, Except.map] using hall
        rw [List.forall_mem_cons]
        exact ⟨⟨id, hrest.holds (hlib lib rfl)⟩, hlibs libs' hanswer⟩

/-! ## One library -/

/-- A library that is not frozen is reached by no other one. -/
theorem isApart_of_holds (hslot : w.slots[id]? = some ⟨lib', false⟩) (hid : lib.id = id)
    (hholds : ∀ dep ∈ Library.reachAll lib.dependencies, w.Holds dep) : lib.IsApart := by
  intro dep hdep heq
  have hdep := hholds dep hdep
  rw [Holds, heq, hid, hslot] at hdep
  simp at hdep

namespace Fits

theorem isCoherent (h : Fits P w id lib) : Library.Coherent lib.reach := by
  have hreach : ∀ dep ∈ lib.reach, dep = lib ∨ dep ∈ Library.reachAll lib.dependencies := by
    intro dep hdep
    rwa [Library.reach_eq, List.mem_cons] at hdep
  intro dep hdep dep' hdep' heq
  rcases hreach dep hdep with rfl | hdep <;> rcases hreach dep' hdep' with rfl | hdep'
  · rfl
  · exact absurd heq.symm (h.isApart dep' hdep')
  · exact absurd heq (h.isApart dep hdep)
  · have hslot := h.holds dep hdep
    have hslot' := h.holds dep' hdep'
    rw [Holds, heq, hslot'] at hslot
    exact (Slot.mk.inj (Option.some.inj hslot)).1.symm

/-- Whatever all libraries of the workspace are, all are that the library reaches. -/
theorem forall_mem_reach (h : Fits P w id lib) (hw : w.IsOrderly P) : ∀ dep ∈ lib.reach, P dep := by
  rw [Library.reach_eq, List.forall_mem_cons]
  exact ⟨h.property, fun dep hdep => (hw dep.id dep (library?_of_slots (h.holds dep hdep))).property⟩

variable (hP : Library.IsInvariant P)
include hP

theorem step (h : Fits P w id lib) (s : LibraryStep) : Fits P w id (lib.step s).2 := by
  obtain ⟨hid, hdependencies⟩ := lib.step_links s
  exact ⟨hid.trans h.id_eq, h.isApart.congr hid hdependencies, hdependencies ▸ h.holds,
    hP.step h.property s⟩

theorem steps {p : Prop} (h : Fits P w id lib) (hsteps : lib.Steps p lib') : Fits P w id lib' :=
  hsteps.keeps h fun _ s _ hlib => hlib.step hP s

theorem link (h : Fits P w id lib) (hslot : w.slots[id]? = some ⟨lib', false⟩)
    (hdep : w.slots[dep.id]? = some ⟨dep, true⟩) (hreach : Fits P w dep.id dep) :
    Fits P w id (lib.link dep) := by
  have hid : (lib.link dep).id = id := by
    unfold Library.link
    split <;> exact h.id_eq
  have hholds : ∀ d ∈ Library.reachAll (lib.link dep).dependencies, w.Holds d := by
    intro d hd
    unfold Library.link at hd
    split at hd
    · exact h.holds d hd
    · rw [Library.reachAll_append, List.mem_append, Library.reachAll, Library.reachAll,
        List.append_nil, Library.reach_eq, List.mem_cons] at hd
      rcases hd with hd | rfl | hd
      · exact h.holds d hd
      · exact hdep
      · exact hreach.holds d hd
  exact ⟨hid, isApart_of_holds hslot hid hholds, hholds, hP.link h.property dep⟩

/-- The libraries that an analysis is run against are linked, and then it is a run of steps. -/
theorem analyze (h : Fits P w id lib) (hslot : w.slots[id]? = some ⟨lib', false⟩)
    {deps : List Library} (hdeps : ∀ dep ∈ deps, w.slots[dep.id]? = some ⟨dep, true⟩ ∧
      Fits P w dep.id dep) (unit : Block) : Fits P w id (unit.analyze deps lib).library := by
  have hstart : Fits P w id (Context.start deps lib).library :=
    Context.keeps_start (fun _ => h) (fun _ => h.step hP .reset) fun _ hl dep hdep =>
      hl.link hP hslot (hdeps dep hdep).1 (hdeps dep hdep).2
  exact hstart.steps hP (unit.steps_analyze deps lib)

end Fits

/-! ## All steps -/

theorem IsOrderly.put (hw : w.IsOrderly P) (hslot : w.slots[id]? = some ⟨lib', false⟩)
    (h : Fits P w id lib) : (w.put id lib).IsOrderly P := by
  have hlt := (List.getElem?_eq_some_iff.1 hslot).1
  have hholds : ∀ {dep}, w.Holds dep → (w.put id lib).Holds dep := by
    intro dep hdep
    have hne : id ≠ dep.id := fun heq => by
      rw [Holds, ← heq, hslot] at hdep
      simp at hdep
    rwa [Holds, Workspace.put, List.getElem?_set_ne hne]
  intro k l hl
  have hfits : Fits P w k l := by
    by_cases hk : id = k
    · subst hk
      rw [library?, Workspace.put, List.getElem?_set_self hlt] at hl
      exact Option.some.inj hl ▸ h
    · rw [library?, Workspace.put, List.getElem?_set_ne hk] at hl
      exact hw k l hl
  exact { hfits with holds := fun dep hdep => hholds (hfits.holds dep hdep) }

theorem IsOrderly.add (hw : w.IsOrderly P) (make : LibraryId → Library)
    (hid : (make w.slots.length).id = w.slots.length)
    (hdependencies : (make w.slots.length).dependencies = []) (hP : P (make w.slots.length)) :
    (w.add make).2.IsOrderly P := by
  have hold : ∀ {k : LibraryId} {slot}, w.slots[k]? = some slot → (w.add make).2.slots[k]? = some slot := by
    intro k slot hslot
    rw [Workspace.add, List.getElem?_append_left (List.getElem?_eq_some_iff.1 hslot).1, hslot]
  intro k l hl
  by_cases hk : k < w.slots.length
  · rw [library?, Workspace.add, List.getElem?_append_left hk] at hl
    have hfits := hw k l hl
    exact { hfits with holds := fun dep hdep => hold (hfits.holds dep hdep) }
  · rw [library?, Workspace.add, List.getElem?_append_right (Nat.le_of_not_lt hk)] at hl
    obtain ⟨hk', rfl⟩ : k = w.slots.length ∧ make w.slots.length = l := by
      cases hsub : k - w.slots.length with
      | zero =>
        exact ⟨Nat.le_antisymm (Nat.sub_eq_zero_iff_le.1 hsub) (Nat.le_of_not_lt hk),
          by simpa [hsub] using hl⟩
      | succ n => simp [hsub] at hl
    subst hk'
    have hnone : ∀ dep, dep ∉ Library.reachAll (make w.slots.length).dependencies := by
      simp [hdependencies, Library.reachAll]
    exact ⟨hid, fun dep hdep => absurd hdep (hnone dep), fun dep hdep => absurd hdep (hnone dep), hP⟩

/-- What one step makes of the workspace. -/
theorem IsOrderly.step (hP : Library.IsInvariant P) (hw : w.IsOrderly P) (s : WorkspaceStep) :
    (w.step s).2.IsOrderly P := by
  cases s with
  | new name => exact hw.add (.new · name) rfl rfl (hP.new _ name)
  | core => exact hw.add .core (Library.core_id _) (Library.core_dependencies _) (hP.core _)
  | link target dependency =>
    obtain ⟨hfreezes, hdep⟩ := w.freezes_freeze dependency
    rw [Workspace.step, Workspace.link]
    split
    · next heq => exact Freezes.isOrderly (by rwa [heq] at hfreezes) hw
    · next dep w' heq =>
      rw [heq] at hfreezes hdep
      have hw' := hfreezes.isOrderly hw
      split
      · exact hw'
      · next lib hlib =>
        have hslot := slots_of_editable hlib
        have hdep := hdep dep rfl
        have hfits := hw' _ _ (library?_of_slots hdep)
        rw [← hfits.id_eq] at hdep hfits
        exact hw'.put hslot ((hw' _ _ (library?_of_slots hslot)).link hP hslot hdep hfits)
  | edit target s =>
    rw [Workspace.step, Workspace.edit]
    split
    · exact hw
    · next lib hlib =>
      have hslot := slots_of_editable hlib
      have hfits := (hw _ _ (library?_of_slots hslot)).step hP s
      split <;> next heq =>
        rw [heq] at hfits
        exact hw.put hslot hfits
  | analyze target dependencies unit =>
    obtain ⟨hfreezes, hdeps⟩ := w.freezes_freezeAll dependencies
    rw [Workspace.step, Workspace.analyze]
    split
    · next heq => exact Freezes.isOrderly (by rwa [heq] at hfreezes) hw
    · next deps w' heq =>
      rw [heq] at hfreezes hdeps
      have hw' := hfreezes.isOrderly hw
      split
      · exact hw'
      · next lib hlib =>
        have hslot := slots_of_editable hlib
        refine hw'.put hslot ((hw' _ _ (library?_of_slots hslot)).analyze hP hslot (fun dep hdep => ?_)
          unit)
        obtain ⟨k, hdep⟩ := hdeps deps rfl dep hdep
        have hfits := hw' _ _ (library?_of_slots hdep)
        rw [← hfits.id_eq] at hdep hfits
        exact ⟨hdep, hfits⟩

/-- All workspaces are orderly. -/
theorem isOrderly_run (hP : Library.IsInvariant P) (steps : List WorkspaceStep) :
    (({} : Workspace).run steps).IsOrderly P := by
  have hrun : ∀ (steps : List WorkspaceStep) (w : Workspace), w.IsOrderly P →
      (w.run steps).IsOrderly P := by
    intro steps
    induction steps with
    | nil => exact fun w hw => hw
    | cons s steps ih => exact fun w hw => ih _ (hw.step hP s)
  refine hrun steps {} fun id lib hlib => ?_
  simp [library?] at hlib

/-! ## What becomes of one library -/

theorem exists_put {Q : Library → Prop} {target k : LibraryId} (h : w.library? k = some lib)
    (hlib : target ≠ k → Q lib) (hlib' : target = k → Q lib') :
    ∃ l, (w.put target lib').library? k = some l ∧ Q l := by
  by_cases hk : target = k
  · subst hk
    have hlt : target < w.slots.length := by
      by_contra hge
      rw [library?, List.getElem?_eq_none (Nat.le_of_not_lt hge)] at h
      simp at h
    exact ⟨lib', by rw [library?, Workspace.put, List.getElem?_set_self hlt]; rfl, hlib' rfl⟩
  · exact ⟨lib, by rwa [library?, Workspace.put, List.getElem?_set_ne hk], hlib hk⟩

theorem library?_add {k : LibraryId} (h : w.library? k = some lib) (make : LibraryId → Library) :
    (w.add make).2.library? k = some lib := by
  obtain ⟨slot, hslot, -⟩ := Option.map_eq_some_iff.1 h
  rwa [library?, Workspace.add, List.getElem?_append_left (List.getElem?_eq_some_iff.1 hslot).1]

/-- What the steps of a library and its links keep, a step of the workspace keeps, unless it
empties the library. -/
theorem keeps_step {Q : Library → Prop} {k : LibraryId}
    (hstep : ∀ lib s, s ≠ .reset → Q lib → Q (lib.step s).2)
    (hlink : ∀ lib dep, Q lib → Q (lib.link dep)) (h : ∃ lib, w.library? k = some lib ∧ Q lib)
    {s : WorkspaceStep} (hs : ¬s.Resets k) : ∃ lib, (w.step s).2.library? k = some lib ∧ Q lib := by
  obtain ⟨lib, hlib, hQ⟩ := h
  cases s with
  | new name => exact ⟨lib, library?_add hlib (.new · name), hQ⟩
  | core => exact ⟨lib, library?_add hlib _, hQ⟩
  | link target dependency =>
    obtain ⟨hfreezes, -⟩ := w.freezes_freeze dependency
    rw [← hfreezes.library?_eq] at hlib
    rw [Workspace.step, Workspace.link]
    split <;> next heq =>
      rw [heq] at hlib
      first
      | exact ⟨lib, hlib, hQ⟩
      | split
        · exact ⟨lib, hlib, hQ⟩
        · next lib' hlib' =>
          refine exists_put hlib (fun _ => hQ) fun hk => hlink _ _ ?_
          have hslot := library?_of_slots (slots_of_editable hlib')
          rw [hk, hlib] at hslot
          exact Option.some.inj hslot ▸ hQ
  | edit target s =>
    rw [Workspace.step, Workspace.edit]
    split
    · exact ⟨lib, hlib, hQ⟩
    · next lib' hlib' =>
      have hedit : target = k → Q (lib'.step s).2 := fun hk => by
        have hslot := library?_of_slots (slots_of_editable hlib')
        rw [hk, hlib] at hslot
        exact hstep _ s (fun hreset => hs ⟨hk, hreset⟩) (Option.some.inj hslot ▸ hQ)
      split <;> next heq =>
        rw [heq] at hedit
        exact exists_put hlib (fun _ => hQ) hedit
  | analyze target dependencies unit =>
    obtain ⟨hfreezes, -⟩ := w.freezes_freezeAll dependencies
    rw [← hfreezes.library?_eq] at hlib
    rw [Workspace.step, Workspace.analyze]
    split <;> next heq =>
      rw [heq] at hlib
      first
      | exact ⟨lib, hlib, hQ⟩
      | split
        · exact ⟨lib, hlib, hQ⟩
        · exact exists_put hlib (fun _ => hQ) fun hk => absurd hk hs

theorem keeps_run {Q : Library → Prop} {k : LibraryId}
    (hstep : ∀ lib s, s ≠ .reset → Q lib → Q (lib.step s).2)
    (hlink : ∀ lib dep, Q lib → Q (lib.link dep)) (h : ∃ lib, w.library? k = some lib ∧ Q lib)
    {steps : List WorkspaceStep} (hsteps : ∀ s ∈ steps, ¬s.Resets k) :
    ∃ lib, (w.run steps).library? k = some lib ∧ Q lib := by
  induction steps generalizing w with
  | nil => exact h
  | cons s steps ih =>
    rw [List.forall_mem_cons] at hsteps
    exact ih (keeps_step hstep hlink h hsteps.1) hsteps.2

end Workspace

end Sable
