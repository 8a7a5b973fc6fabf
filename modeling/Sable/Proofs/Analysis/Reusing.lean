import Mathlib.Data.List.Induction
import Sable.Proofs.Analysis.Leading
import Sable.Proofs.Symbol.Stable

/-!
# Analyzing into a library again

Before an analysis, a target that holds symbols is emptied, and its links are kept. If all units
before were analyzed against the same libraries, this makes it as good as new: whatever a unit left
behind, the next one starts as if it were the first.

The links are all that is left of what the target was used for before. If they are the first of those
that the analysis makes, it goes as with a new target. Other links change what is interned.

Without symbols the target is not emptied. Then a class whose name spells a pointer type of a
library within reach leaves this name behind; so such names are left out.

## Main statements

* `Block.analyze_relinked`: a target with some of the links already.
* `Block.analyze_relinked_stale`: a target with another link.
* `Context.start_analyze`: one analysis leaves a target from which the next starts as from a new one.
* `Block.analyze_again`: any number of analyses before make no difference.
* `Block.analyze_again_star`: the name that is left behind.
-/
namespace Sable

namespace Library

variable {lib : Library}

theorem link_eq_self {dep : Library} (h : ∃ l ∈ lib.dependencies, l.id = dep.id) :
    lib.link dep = lib := by
  obtain ⟨l, hl, hid⟩ := h
  exact if_pos (List.any_eq_true.2 ⟨l, hl, by simp [hid]⟩)

theorem foldl_link_eq_self {deps : List Library}
    (h : ∀ dep ∈ deps, ∃ l ∈ lib.dependencies, l.id = dep.id) : deps.foldl link lib = lib := by
  induction deps with
  | nil => rfl
  | cons dep deps ih =>
    rw [List.foldl_cons, link_eq_self (h dep List.mem_cons_self)]
    exact ih fun d hd => h d (List.mem_cons_of_mem dep hd)

/-- Linking the same libraries again adds nothing. -/
theorem foldl_link_twice (lib : Library) (deps : List Library) :
    deps.foldl link (deps.foldl link lib) = deps.foldl link lib :=
  foldl_link_eq_self (lib.exists_mem_foldl_link deps).2

/-- It makes no difference if the first of the links are there already. -/
theorem foldl_link_of_prefix {base : Library} {deps : List Library} (hbase : base.dependencies = [])
    (hlib : lib = { base with dependencies := lib.dependencies })
    (h : lib.dependencies <+: (deps.foldl link base).dependencies) :
    deps.foldl link lib = deps.foldl link base := by
  induction deps using List.reverseRecOn with
  | nil =>
    rw [List.foldl_nil, hbase, List.prefix_nil] at h
    rw [List.foldl_nil, List.foldl_nil, hlib, h, ← hbase]
    cases base
    rfl
  | append_singleton deps dep ih =>
    have hlast : lib.dependencies <+: (deps.foldl link base).dependencies ∨
        lib.dependencies = ((deps ++ [dep]).foldl link base).dependencies := by
      rw [List.foldl_append, List.foldl_cons, List.foldl_nil, link] at h ⊢
      split at h
      · exact .inl h
      · next hnew =>
        rw [if_neg hnew]
        exact (List.prefix_concat_iff.1 h).symm
    rcases hlast with hprefix | hall
    · rw [List.foldl_append, List.foldl_append, ih hprefix]
    · obtain ⟨dependencies, -, heq⟩ := base.foldl_link_eq (deps ++ [dep])
      have hself : (deps ++ [dep]).foldl link lib = lib :=
        foldl_link_eq_self (hall ▸ (base.exists_mem_foldl_link (deps ++ [dep])).2)
      rw [heq] at hall ⊢
      rw [hself, hlib, hall]

/-- Emptied, the library is the one that it grew from. -/
theorem Leads.reset_eq {lib' : Library} (h : lib.Leads lib') (hlib : lib = lib.reset) :
    lib'.reset = lib := by
  rw [hlib, reset, h.id_eq, h.name_eq, h.dependencies_eq, reset]

end Library

variable {deps : List Library} {id : LibraryId} {name : String}

/-- What an analysis leaves behind makes no difference to the start of the next. -/
theorem Context.start_analyze {b : Block} (h : ∀ d ∈ b.classes, d.IsPlain) :
    start deps (b.analyze deps (.new id name)).library = start deps (.new id name) := by
  have hstart : (start deps (.new id name)).library = deps.foldl Library.link (.new id name) := rfl
  have hleads := b.leads_analyze h deps (.new id name)
  generalize (b.analyze deps (.new id name)).library = lib at hleads
  rw [hstart] at hleads
  -- With symbols the library is emptied; without, it is still the one of the start.
  have hlib : (if lib.symbols.isEmpty then lib else lib.reset) =
      deps.foldl Library.link (.new id name) := by
    split
    · next hempty => exact hleads.eq_of_size (by simpa using hempty)
    · refine hleads.reset_eq ?_
      obtain ⟨dependencies, -, heq⟩ := (Library.new id name).foldl_link_eq deps
      rw [heq]
      rfl
  unfold start
  simp only [hlib, Library.foldl_link_twice]
  rfl

/-- All that an analysis begins with of its target are the links. If these are the first of those that
it makes, it begins as with a new library. -/
theorem Context.start_of_prefix {target : Library} (hblank : target.IsBlank)
    (hlinks : target.dependencies <+:
      (deps.foldl Library.link (.new target.id target.name)).dependencies) :
    start deps target = start deps (.new target.id target.name) := by
  have hlib : deps.foldl Library.link (if target.symbols.isEmpty then target else target.reset) =
      deps.foldl Library.link (.new target.id target.name) := by
    have hreset : (if target.symbols.isEmpty then target else target.reset) = target.reset := by
      split
      · next hempty => exact hblank (Array.isEmpty_iff.1 hempty)
      · rfl
    rw [hreset]
    exact Library.foldl_link_of_prefix rfl rfl hlinks
  unfold start
  simp only [hlib]
  rfl

theorem Block.dependencies_analyze (b : Block) (deps : List Library) (target : Library) :
    (b.analyze deps target).library.dependencies =
      (Context.start deps target).library.dependencies :=
  (b.steps_analyze deps target).keeps
    (P := fun lib => lib.dependencies = (Context.start deps target).library.dependencies) rfl
    fun lib s _ h => (lib.step_links s).2.trans h

/-- Whatever was done with a library before, if it is linked to the first of the libraries that a unit
is analyzed against and to no other, the unit is analyzed as if the library was new: with the same
errors, annotations and symbols. It then reaches nothing but itself and what these libraries reach. -/
theorem Block.analyze_relinked {target : Library} (hblank : target.IsBlank)
    (hlinks : target.dependencies <+:
      (deps.foldl Library.link (.new target.id target.name)).dependencies) (b : Block) :
    b.analyze deps target = b.analyze deps (.new target.id target.name) ∧
      ∀ dep ∈ (b.analyze deps target).library.reach,
        dep = (b.analyze deps target).library ∨ dep ∈ Library.reachAll deps := by
  have hstart := Context.start_of_prefix hblank hlinks
  have heq : b.analyze deps target = b.analyze deps (.new target.id target.name) := by
    rw [analyze, hstart, analyze]
  refine ⟨heq, fun dep hdep => ?_⟩
  have hlinked : (b.analyze deps target).library.dependencies ⊆ deps := by
    obtain ⟨dependencies, hsubset, hlib⟩ := (Library.new target.id target.name).foldl_link_eq deps
    rw [dependencies_analyze, hstart]
    change (deps.foldl Library.link (.new target.id target.name)).dependencies ⊆ deps
    rw [hlib]
    exact hsubset
  rw [Library.reach_eq, List.mem_cons] at hdep
  exact hdep.imp_right fun hdep => Library.reachAll_subset hlinked hdep

/-- A library is linked to the built-in types and has been analyzed into, and there is one more library
to link. -/
theorem Block.analyze_relinked_core :
    let written : WrittenType := ⟨⟨0, .dummy⟩, ⟨"Integer", .dummy⟩, 1⟩
    let unit : Block := ⟨⟨2, .dummy⟩, [.variable ⟨⟨1, .dummy⟩, ⟨"p", .dummy⟩, written, none⟩]⟩
    let a := (unit.analyze [.core 0] (.new 1 "a")).library
    let l := (unit.analyze [.core 0] (.new 2 "l")).library
    l.symbols.size = 2 ∧ l.dependencies = [.core 0] ∧
      unit.analyze [.core 0, a] l = unit.analyze [.core 0, a] (.new l.id l.name) ∧
      ∀ dep ∈ (unit.analyze [.core 0, a] l).library.reach,
        dep = (unit.analyze [.core 0, a] l).library ∨ dep ∈ Library.reachAll [.core 0, a] := by
  intro written unit a l
  have hsize : l.symbols.size = 2 := by decide +kernel
  have hlinks : l.dependencies = [.core 0] := unit.dependencies_analyze [.core 0] (.new 2 "l")
  have hblank : l.IsBlank := fun hempty => by
    rw [hempty] at hsize
    cases hsize
  have hid : a.id = 1 := by decide +kernel
  have hprefix : l.dependencies <+:
      ([.core 0, a].foldl Library.link (.new l.id l.name)).dependencies := by
    rw [hlinks]
    exact ⟨[a], by simp [Library.link, Library.new, Library.core_id, hid]⟩
  exact ⟨hsize, hlinks, analyze_relinked hblank hprefix unit⟩

/-- Library `l` keeps the link to `a`, which has made the pointer type to `Integer`. So `l` makes none
for the second unit, which was not analyzed against `a`. -/
theorem Block.analyze_relinked_stale :
    let written : WrittenType := ⟨⟨0, .dummy⟩, ⟨"Integer", .dummy⟩, 1⟩
    let unit : Block := ⟨⟨2, .dummy⟩, [.variable ⟨⟨1, .dummy⟩, ⟨"p", .dummy⟩, written, none⟩]⟩
    let nothing : Block := ⟨⟨0, .dummy⟩, []⟩
    let a := (unit.analyze [.core 0] (.new 1 "a")).library
    let l := (nothing.analyze [.core 0, a] (.new 2 "l")).library
    let type? (c : Context) : Option SymbolId := c.annotations.declaredTypes.get? 0
    type? (unit.analyze [.core 0] l) = some ⟨1, 0⟩ ∧
      type? (unit.analyze [.core 0] (.new 2 "l")) = some ⟨2, 0⟩ ∧
      (unit.analyze [.core 0] l).library.describe = "var p : Integer*\n" ∧
      (unit.analyze [.core 0] (.new 2 "l")).library.describe =
        "type Integer*\nvar p : Integer*\n" := by
  decide +kernel

/-- The library that several units leave behind, each analyzed into it after the other. -/
def Block.analyzeAll (bs : List Block) (deps : List Library) (target : Library) : Library :=
  bs.foldl (fun lib b => (b.analyze deps lib).library) target

theorem Context.start_analyzeAll {bs : List Block}
    (h : ∀ b ∈ bs, ∀ d ∈ b.classes, d.IsPlain) {target : Library}
    (htarget : start deps target = start deps (.new id name)) :
    start deps (Block.analyzeAll bs deps target) = start deps (.new id name) := by
  induction bs generalizing target with
  | nil => exact htarget
  | cons b bs ih =>
    refine ih (fun b' hb' => h b' (List.mem_cons_of_mem b hb')) ?_
    have heq : b.analyze deps target = b.analyze deps (.new id name) := by
      rw [Block.analyze, htarget, Block.analyze]
    change start deps (b.analyze deps target).library = _
    rw [heq]
    exact Context.start_analyze (h b List.mem_cons_self)

/-- After any number of units, a unit is analyzed as if the library was new: with the same errors,
the same annotations, and the same symbols, published names and links. -/
theorem Block.analyze_again {bs : List Block} (h : ∀ b ∈ bs, ∀ d ∈ b.classes, d.IsPlain)
    (b : Block) (deps : List Library) (id : LibraryId) (name : String) :
    b.analyze deps (analyzeAll bs deps (.new id name)) = b.analyze deps (.new id name) := by
  rw [analyze, Context.start_analyzeAll h rfl, analyze]

/-- A class and a variable, and then nothing at all. -/
theorem Block.analyze_again_class :
    let place : Place := ⟨0, .dummy⟩
    let class_ : ClassDecl := ⟨⟨1, .dummy⟩, ⟨"C", .dummy⟩, []⟩
    let x : VariableDecl := ⟨⟨2, .dummy⟩, ⟨"x", .dummy⟩, ⟨⟨3, .dummy⟩, ⟨"C", .dummy⟩, 1⟩, none⟩
    let unit : Block := ⟨place, [.classDecl class_, .variable x]⟩
    let nothing : Block := ⟨place, []⟩
    (∀ b ∈ [unit], ∀ d ∈ b.classes, d.IsPlain) ∧
      (analyzeAll [unit] [.core 0] (.new 1 "l")).symbols.size = 3 ∧
      nothing.analyze [.core 0] (analyzeAll [unit] [.core 0] (.new 1 "l")) =
        nothing.analyze [.core 0] (.new 1 "l") := by
  intro place class_ x unit nothing
  have hplain : ∀ b ∈ [unit], ∀ d ∈ b.classes, d.IsPlain := by decide +kernel
  exact ⟨hplain, by decide +kernel, analyze_again hplain nothing _ _ _⟩

/-- The library `y` is linked to one with a type of no name and a pointer to it. The class `*` is
this pointer type, so its declaration makes no symbol. The name stays published afterwards. -/
theorem Block.analyze_again_star :
    let x := (((Library.new 0 "x").createType "" true .dummy).2.pointerTo ⟨0, 0⟩).2
    let y := (Library.new 1 "y").link x
    let unit : Block := ⟨⟨1, .dummy⟩, [.classDecl ⟨⟨0, .dummy⟩, ⟨"*", .dummy⟩, []⟩]⟩
    let nothing : Block := ⟨⟨0, .dummy⟩, []⟩
    (nothing.analyze [y] (analyzeAll [unit] [y] (.new 2 "l"))).library.globals.entries =
        [("*", ⟨0, 1⟩)] ∧
      (nothing.analyze [y] (.new 2 "l")).library.globals.entries = [] := by
  decide +kernel

end Sable
