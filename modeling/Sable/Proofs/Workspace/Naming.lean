import Sable.Proofs.Symbol.Naming
import Sable.Proofs.Workspace.Interning

/-!
# Names in a workspace

Whatever is done in a workspace, what a library has entered by name is of that name, and as long as
the library is not emptied, it loses no symbol. What an edit answers with is a symbol then, but for
the pointer type of depth zero: this is the pointee itself, which need not be there.

An analysis empties its target before it begins, but a target without symbols is taken as it is.

## Main definitions

* `WorkspaceStep.Empties`: the step takes the symbols of a library away.
* `Workspace.Spares`: no step of a sequence does.

## Main statements

* `Workspace.names_run`: all libraries of all workspaces.
* `Workspace.names_run_unknown`: a pointer type of depth zero that is no symbol.
-/
namespace Sable

/-- The step is carried out, and the library had symbols before. -/
def WorkspaceStep.Empties (w : Workspace) (k : LibraryId) (s : WorkspaceStep) : Prop :=
  s.Resets k ∧ (∃ answer, (w.step s).1 = .ok answer) ∧
    ∃ lib, w.library? k = some lib ∧ lib.symbols.isEmpty = false

theorem Library.isInvariant_hasNames :
    Library.IsInvariant fun lib => (lib.IsApart → lib.HasNames) ∧ lib.OwnsInterned where
  new id name := ⟨fun _ => Library.hasNames_of_empty rfl rfl,
    Library.isInvariant_ownsInterned.new id name⟩
  core id := ⟨fun _ => Library.hasNames_core id, Library.ownsInterned_core id⟩
  step {lib} h s := by
    obtain ⟨hid, hdependencies⟩ := lib.step_links s
    refine ⟨fun hlib => ?_, h.2.step s⟩
    have hlib : lib.IsApart := hlib.congr hid.symm hdependencies.symm
    exact (h.1 hlib).step hlib s
  link h dep := ⟨fun hlib => (h.1 hlib.of_link).link dep, Library.isInvariant_ownsInterned.link h.2 dep⟩

namespace Workspace

variable {w : Workspace} {k : LibraryId} {lib : Library} {Q : Library → Prop}

/-- No step of the sequence takes the symbols of the library away. -/
def Spares (k : LibraryId) : Workspace → List WorkspaceStep → Prop
  | _, [] => True
  | w, s :: steps => ¬s.Empties w k ∧ (w.step s).2.Spares k steps

section Keeps

variable (hstep : ∀ lib s, s ≠ .reset → Q lib → Q (lib.step s).2)
  (hlink : ∀ lib dep, Q lib → Q (lib.link dep))

include hstep hlink

/-- What steps and links keep, an analysis into a library without symbols keeps. -/
theorem keeps_analyze (hempty : lib.symbols.isEmpty) (hQ : Q lib) (deps : List Library)
    (unit : Block) : Q (unit.analyze deps lib).library := by
  have hstart : Q (Context.start deps lib).library :=
    Context.keeps_start (fun _ => hQ) (fun hfull => by simp [hempty] at hfull)
      fun l hl dep _ => hlink l dep hl
  exact (unit.steps_analyze deps lib).keeps hstart hstep

variable (hreset : ∀ lib : Library, lib.symbols.isEmpty → Q lib → Q lib.reset)

include hreset

/-- What a library keeps that does not lose its symbols. -/
theorem keeps_step_of_not_empties (h : ∃ lib, w.library? k = some lib ∧ Q lib) {s : WorkspaceStep}
    (hs : ¬s.Empties w k) : ∃ lib, (w.step s).2.library? k = some lib ∧ Q lib := by
  by_cases hresets : s.Resets k
  swap
  · exact keeps_step hstep hlink h hresets
  obtain ⟨lib, hlib, hQ⟩ := h
  have hempty : (∃ answer, (w.step s).1 = .ok answer) → lib.symbols.isEmpty := by
    intro hok
    by_contra hpos
    exact hs ⟨hresets, hok, lib, hlib, by simpa using hpos⟩
  cases s with
  | edit target t =>
    obtain ⟨rfl, rfl⟩ := hresets
    rw [step, edit] at hempty ⊢
    split
    · exact ⟨lib, hlib, hQ⟩
    · next lib' hlib' =>
      have hslot := library?_of_slots (slots_of_editable hlib')
      obtain rfl := Option.some.inj (hslot.symm.trans hlib)
      have hempty := hempty ⟨.done, by rw [hlib']; rfl⟩
      exact exists_put hlib (fun hne => absurd rfl hne) fun _ => hreset _ hempty hQ
  | analyze target dependencies unit =>
    obtain rfl : target = k := hresets
    obtain ⟨hfreezes, -⟩ := w.freezes_freezeAll dependencies
    rw [← hfreezes.library?_eq] at hlib
    rw [step, analyze] at hempty ⊢
    split <;> next heq =>
      rw [heq] at hlib
      first
      | exact ⟨lib, hlib, hQ⟩
      | split
        · exact ⟨lib, hlib, hQ⟩
        · next lib' hlib' =>
          have hslot := library?_of_slots (slots_of_editable hlib')
          obtain rfl := Option.some.inj (hslot.symm.trans hlib)
          have hempty := hempty ⟨_, by rw [heq]; dsimp only; rw [hlib']⟩
          exact exists_put hlib (fun hne => absurd rfl hne) fun _ =>
            keeps_analyze hstep hlink hempty hQ _ unit
  | new | core | link => exact hresets.elim

theorem keeps_run_of_spares (h : ∃ lib, w.library? k = some lib ∧ Q lib)
    {steps : List WorkspaceStep} (hsteps : w.Spares k steps) :
    ∃ lib, (w.run steps).library? k = some lib ∧ Q lib := by
  induction steps generalizing w with
  | nil => exact h
  | cons s steps ih =>
    exact ih (keeps_step_of_not_empties hstep hlink hreset h hsteps.1) hsteps.2

end Keeps

/-- A library that is not emptied only grows. -/
theorem grows_run (hlib : w.library? k = some lib) {steps : List WorkspaceStep}
    (hsteps : w.Spares k steps) (hrun : ∀ lib', (w.run steps).library? k = some lib' → lib'.IsApart) :
    ∃ lib', (w.run steps).library? k = some lib' ∧ lib.Grows lib' := by
  have hstep : ∀ (l : Library) (s : LibraryStep), s ≠ .reset → (l.IsApart → lib.Grows l) →
      (l.step s).2.IsApart → lib.Grows (l.step s).2 := by
    intro l s hs hl hapart
    obtain ⟨hid, hdependencies⟩ := l.step_links s
    have hapart : l.IsApart := hapart.congr hid.symm hdependencies.symm
    exact (hl hapart).trans (hapart.grows_step s hs)
  have hlink : ∀ l dep : Library, (l.IsApart → lib.Grows l) → (l.link dep).IsApart →
      lib.Grows (l.link dep) :=
    fun l dep hl hapart => (hl hapart.of_link).trans (l.grows_link dep)
  obtain ⟨lib', hlib', hgrows⟩ := keeps_run_of_spares hstep hlink
    (fun l hempty hl hapart => (hl hapart).trans (Library.grows_reset hempty))
    ⟨lib, hlib, fun _ => .refl lib⟩ hsteps
  exact ⟨lib', hlib', hgrows (hrun lib' hlib')⟩

theorem exists_of_edit {s : LibraryStep} {x : SymbolId}
    (hanswer : (w.step (.edit k s)).1 = .ok (.symbol x)) :
    ∃ lib, w.slots[k]? = some ⟨lib, false⟩ ∧ (lib.step s).1 = .ok (some x) ∧
      (w.step (.edit k s)).2 = w.put k (lib.step s).2 := by
  rw [step, edit] at hanswer ⊢
  split at hanswer
  · simp at hanswer
  · next lib hlib =>
    refine ⟨lib, slots_of_editable hlib, ?_⟩
    cases hstep : lib.step s with
    | mk answer lib' =>
      rw [hstep] at hanswer
      obtain e | _ | y := answer
      · simp at hanswer
      · simp at hanswer
      · exact ⟨by simpa using hanswer, rfl⟩

/-- A library that answers with a symbol has it, unless a pointer type of no depth was asked for:
the answer is then what was asked with. -/
theorem symbol?_of_edit {s : LibraryStep} {x : SymbolId}
    (hw : w.IsOrderly fun lib => (lib.IsApart → lib.HasNames) ∧ lib.OwnsInterned)
    (hanswer : (w.step (.edit k s)).1 = .ok (.symbol x)) : s = .pointerType x 0 ∨
      ∃ lib sym, (w.step (.edit k s)).2.library? k = some lib ∧ lib.symbol? x = some sym := by
  have horderly := hw.step Library.isInvariant_hasNames (.edit k s)
  obtain ⟨lib, hslot, hx, hput⟩ := exists_of_edit hanswer
  rw [hput] at horderly ⊢
  have hlib := library?_of_slots hslot
  obtain ⟨_, hlib', rfl⟩ : ∃ lib', (w.put k (lib.step s).2).library? k = some lib' ∧
      lib' = (lib.step s).2 := exists_put hlib (fun hne => absurd rfl hne) fun _ => rfl
  have hfits := horderly k _ hlib'
  refine (Library.symbol?_of_step (hw k lib hlib).isApart (fun form y hy => ?_) hx).imp_right
    fun ⟨sym, hsym⟩ => ⟨_, sym, hlib', hsym⟩
  have howns := hfits.forall_mem_reach horderly
  obtain ⟨t, ht, -⟩ := Library.type?_of_interned? hfits.isCoherent (fun dep hdep =>
    (howns dep hdep).2) hy
  obtain ⟨sym, hsym, -⟩ := Library.type?_eq_some.1 ht
  exact ⟨sym, hsym⟩

/-! ## All runs -/

/-- In every library of a workspace, whatever was done there: what is entered by name, into the
library, a type or a function, is a symbol of that name, and the locals of a function are symbols of
different names. As long as the library is not emptied, all its symbols keep their names, sorts and
places. A symbol that an edit answers with is one of them, unless it was asked for a pointer type of
depth zero: that answer is the pointee as it was given, whether or not it is there. -/
theorem names_run {steps : List WorkspaceStep}
    (hlib : (({} : Workspace).run steps).library? k = some lib) : lib.HasNames ∧
      (∀ later, (({} : Workspace).run steps).Spares k later →
        ∃ lib', (({} : Workspace).run (steps ++ later)).library? k = some lib' ∧ lib.Grows lib') ∧
      ∀ s x, ((({} : Workspace).run steps).step (.edit k s)).1 = .ok (.symbol x) →
        s = .pointerType x 0 ∨ ∃ lib' sym,
          (({} : Workspace).run (steps ++ [.edit k s])).library? k = some lib' ∧
          lib'.symbol? x = some sym := by
  have horderly := isOrderly_run Library.isInvariant_hasNames
  have hfits := horderly steps k lib hlib
  refine ⟨hfits.property.1 hfits.isApart, fun later hlater => ?_, fun s x hanswer => ?_⟩
  · rw [run_append]
    refine grows_run hlib hlater fun lib' hlib' => ?_
    rw [← run_append] at hlib'
    exact (horderly (steps ++ later) k lib' hlib').isApart
  · rw [run_append]
    exact symbol?_of_edit (horderly steps) hanswer

/-- A class with a member, beside the built-in types. -/
theorem names_run_class :
    let steps : List WorkspaceStep := [.core, .new "l", .link 1 0,
      .edit 1 (.createType "C" true .dummy), .edit 1 (.createVariable "x" .dummy false),
      .edit 1 (.addMember ⟨1, 0⟩ ⟨1, 1⟩)]
    ∃ lib, (({} : Workspace).run steps).library? 1 = some lib ∧ lib.HasNames ∧
      (∀ later, (({} : Workspace).run steps).Spares 1 later →
        ∃ lib', (({} : Workspace).run (steps ++ later)).library? 1 = some lib' ∧ lib.Grows lib') ∧
      ∀ s x, ((({} : Workspace).run steps).step (.edit 1 s)).1 = .ok (.symbol x) →
        s = .pointerType x 0 ∨ ∃ lib' sym,
          (({} : Workspace).run (steps ++ [.edit 1 s])).library? 1 = some lib' ∧
          lib'.symbol? x = some sym := by
  intro steps
  obtain ⟨lib, hlib⟩ : ∃ lib, (({} : Workspace).run steps).library? 1 = some lib := ⟨_, rfl⟩
  exact ⟨lib, hlib, names_run hlib⟩

/-- A pointer type of depth zero to something that is not there: the answer names nothing. -/
theorem names_run_unknown :
    let steps : List WorkspaceStep := [.new "l"]
    let s : LibraryStep := .pointerType ⟨0, 5⟩ 0
    ((({} : Workspace).run steps).step (.edit 0 s)).1 = .ok (.symbol ⟨0, 5⟩) ∧
      ∃ lib, (({} : Workspace).run (steps ++ [.edit 0 s])).library? 0 = some lib ∧
        lib.symbol? ⟨0, 5⟩ = none :=
  ⟨rfl, _, rfl, by decide⟩

end Workspace

end Sable
