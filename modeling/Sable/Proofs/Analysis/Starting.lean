import Mathlib.Data.List.Basic
import Sable.Analysis.Run
import Sable.Proofs.Symbol.Lookup

/-!
# The start of an analysis

An analysis begins with the libraries linked and their published names known. If the target has a
number of its own, it keeps this number apart from all libraries within reach.

## Main statements

* `Library.get?_publishedNames`: the first library that publishes a name counts.
* `Context.isApart_start`: a target with a number of its own.
-/
namespace Sable

namespace OrderedMap

variable {κ α : Type} [DecidableEq κ]

/-- Entries that are added where there are none yet. -/
theorem get?_foldl_insertNew (m : OrderedMap κ α) (es : List (κ × α)) (k : κ) :
    (es.foldl (fun m (k, v) => m.insertNew k v) m).get? k = (m.get? k).or (es.lookup k) := by
  induction es generalizing m with
  | nil => simp
  | cons e es ih =>
    rw [List.foldl_cons, ih, get?_insertNew, lookup_cons]
    by_cases hk : k = e.1
    · subst hk
      cases m.get? e.1 <;> simp
    · simp [hk]

end OrderedMap

namespace Library

/-- What libraries publish is added to the names that are there. -/
theorem get?_foldl_globals (libs : List Library) (names : Names) (name : String) :
    (libs.foldl (fun names lib =>
      lib.globals.entries.foldl (fun names (name, id) => names.insertNew name id) names)
      names).get? name = (names.get? name).or (libs.findSome? (·.global? name)) := by
  induction libs generalizing names with
  | nil => simp
  | cons lib libs ih =>
    have hglobal : lib.global? name = lib.globals.entries.lookup name := rfl
    rw [List.foldl_cons, ih, OrderedMap.get?_foldl_insertNew, Option.or_assoc,
      List.findSome?_cons, hglobal]
    cases lib.globals.entries.lookup name <;> simp

/-- Of libraries that publish one name the first counts. -/
theorem get?_publishedNames (libs : List Library) (name : String) :
    (publishedNames libs).get? name = libs.findSome? (·.global? name) := by
  rw [publishedNames, get?_foldl_globals]
  rfl

/-- Linking adds links only. -/
theorem foldl_link_eq (lib : Library) (libs : List Library) :
    ∃ dependencies ⊆ lib.dependencies ++ libs, libs.foldl link lib = { lib with dependencies } := by
  induction libs generalizing lib with
  | nil =>
    refine ⟨lib.dependencies, by simp, ?_⟩
    cases lib
    rfl
  | cons dep libs ih =>
    obtain ⟨dependencies, hsubset, heq⟩ := ih (lib.link dep)
    have hlink : ∃ linked ⊆ lib.dependencies ++ [dep], lib.link dep = { lib with
        dependencies := linked } := by
      unfold link
      split
      · refine ⟨lib.dependencies, List.subset_append_left _ _, ?_⟩
        cases lib
        rfl
      · exact ⟨_, List.Subset.refl _, rfl⟩
    obtain ⟨linked, hlinked, hlink⟩ := hlink
    rw [hlink] at hsubset heq
    refine ⟨dependencies, fun d hd => ?_, by rw [List.foldl_cons, hlink, heq]⟩
    rcases List.mem_append.1 (hsubset hd) with hd | hd
    · have hmem := hlinked hd
      simp only [List.mem_append, List.mem_cons] at hmem ⊢
      tauto
    · simp [hd]

theorem symbols_link (lib dep : Library) : (lib.link dep).symbols = lib.symbols := by
  unfold link
  split <;> rfl

theorem dependencies_subset_link (lib dep : Library) :
    lib.dependencies ⊆ (lib.link dep).dependencies := by
  unfold link
  split
  · exact List.Subset.refl _
  · exact List.subset_append_left _ _

/-- The library itself, or another one with its number, is among the links. -/
theorem exists_mem_link (lib dep : Library) : ∃ l ∈ (lib.link dep).dependencies, l.id = dep.id := by
  unfold link
  split
  · next h =>
    obtain ⟨l, hl, hid⟩ := List.any_eq_true.1 h
    exact ⟨l, hl, by simpa using hid⟩
  · exact ⟨dep, by simp, rfl⟩

theorem exists_mem_foldl_link (lib : Library) (deps : List Library) :
    lib.dependencies ⊆ (deps.foldl link lib).dependencies ∧
      ∀ dep ∈ deps, ∃ l ∈ (deps.foldl link lib).dependencies, l.id = dep.id := by
  induction deps generalizing lib with
  | nil => simp
  | cons dep deps ih =>
    obtain ⟨hsubset, hall⟩ := ih (lib.link dep)
    refine ⟨List.Subset.trans (lib.dependencies_subset_link dep) hsubset, fun d hd => ?_⟩
    rcases List.mem_cons.1 hd with rfl | hd
    · obtain ⟨l, hl, hid⟩ := lib.exists_mem_link d
      exact ⟨l, hsubset hl, hid⟩
    · exact hall d hd

theorem mem_reachAll {libs : List Library} {dep : Library} :
    dep ∈ reachAll libs ↔ ∃ lib ∈ libs, dep ∈ lib.reach := by
  induction libs with
  | nil => simp [reachAll]
  | cons lib libs ih => simp [reachAll, ih]

end Library

namespace Context

variable {deps : List Library} {target : Library}

/-- No other library within reach has the number of the target. -/
theorem isApart_start (h : ∀ dep ∈ Library.reachAll (target.dependencies ++ deps),
    dep.id ≠ target.id) : (start deps target).library.IsApart := by
  have hapart : ∀ lib : Library, lib.id = target.id → lib.dependencies = target.dependencies →
      (deps.foldl Library.link lib).IsApart := by
    intro lib hid hdependencies
    obtain ⟨dependencies, hsubset, heq⟩ := lib.foldl_link_eq deps
    rw [heq]
    intro dep hdep
    obtain ⟨lib', hlib', hreach⟩ := Library.mem_reachAll.1 hdep
    rw [hid]
    exact h dep (Library.mem_reachAll.2 ⟨lib', hdependencies ▸ hsubset hlib', hreach⟩)
  unfold start
  dsimp only
  split
  · exact hapart target rfl rfl
  · exact hapart target.reset rfl rfl

/-- What the target has, emptied if it holds symbols, and what links keep, the library has when an
analysis starts. -/
theorem keeps_start {P : Library → Prop} (hblank : target.symbols.isEmpty → P target)
    (hreset : target.symbols.isEmpty = false → P target.reset)
    (hlink : ∀ lib, P lib → ∀ dep ∈ deps, P (lib.link dep)) : P (start deps target).library := by
  have htarget : P (if target.symbols.isEmpty then target else target.reset) := by
    split
    · next hempty => exact hblank hempty
    · next hfull => exact hreset (Bool.eq_false_iff.2 hfull)
  exact List.foldlRecOn deps Library.link htarget hlink

/-- A library that is made for the unit publishes nothing. -/
theorem globals_start_new (deps : List Library) (id : LibraryId) (name : String) :
    (start deps (.new id name)).library.globals = .empty := by
  obtain ⟨dependencies, -, heq⟩ := (Library.new id name).foldl_link_eq deps
  have hstart : (start deps (.new id name)).library = deps.foldl Library.link (.new id name) := rfl
  rw [hstart, heq]
  rfl

theorem get?_globals_start (deps : List Library) (target : Library) (name : String) :
    (start deps target).globals.get? name = deps.findSome? (·.global? name) :=
  Library.get?_publishedNames deps name

end Context

end Sable
