import Sable.Proofs.Analysis.BindingUnit
import Sable.Proofs.Analysis.Resolving
import Sable.Proofs.Analysis.Starting

/-!
# The first three phases

Before expressions get their types, all names of a unit are declared. What the three phases leave
behind is put together here.

## Main definitions

* `Block.withClasses`, `Block.withTypes`, `Block.withSymbols`: the states after each phase.
* `Block.valueEntries`, `Block.valueNames`: the variables and functions of the whole unit.

## Main statements

* `Block.Numbered.globals_withSymbols`: what a name means in the whole unit.
* `Block.Named.awaits`: the classes in front of the third phase.
-/
namespace Sable.Block

open Context

/-! ## States -/

section

variable (b : Block) (deps : List Library) (target : Library)

/-- The state before the first phase. -/
def atStart : Context := { Context.start deps target with parents := .build b.tree }

def withClasses : Context := ((Analyzing.declareClasses b).run (b.atStart deps target)).2

def withTypes : Context := ((Analyzing.resolveTypes b.tree).run (b.withClasses deps target)).2

def withSymbols : Context := ((Analyzing.bindBlock b).run (b.withTypes deps target)).2

theorem analyze_eq :
    b.analyze deps target = ((Analyzing.checkBlock b).run (b.withSymbols deps target)).2 := rfl

end

/-- The variables and functions of the whole unit. -/
def values (b : Block) : List Member := b.declarations.flatMap Declaration.values

variable {b : Block} {deps : List Library} {target : Library}

/-- All libraries within reach of the target and of the dependencies have other numbers. -/
def IsFresh (deps : List Library) (target : Library) : Prop :=
  ∀ dep ∈ Library.reachAll (target.dependencies ++ deps), dep.id ≠ target.id

theorem isFresh_core {id k : LibraryId} (h : id ≠ k) (name : String) :
    IsFresh [.core id] (.new k name) := by
  simp [IsFresh, Library.new, Library.reachAll, Library.reach_eq, Library.core_id,
    Library.core_dependencies, h]

namespace Numbered

/-- The classes are declared, and no other symbols. -/
theorem withClasses_spec (hb : b.Numbered) (h : IsFresh deps target) :
    (b.atStart deps target).Declares (b.withClasses deps target) ∧
      (b.withClasses deps target).library.IsApart ∧
      (∀ n ∉ b.classes.map fun d => d.place.id,
        (b.withClasses deps target).annotations.symbols.get? n = none) ∧
      ∀ n, (b.withClasses deps target).globals.get? n = (deps.findSome? (·.global? n)).or
        ((b.withClasses deps target).denoted? (b.classes.map ClassDecl.entry) n) := by
  obtain ⟨c, hrun, hdeclares, hlib, hrows, hglobals⟩ :=
    Analyzing.run_declareClasses (c := b.atStart deps target) (isApart_start h) b.classes
      hb.nodup_classes fun _ _ => rfl
  have hc : b.withClasses deps target = c := by
    change ((b.classes.forM Analyzing.declareClass).run _).2 = c
    rw [hrun]
  rw [hc]
  refine ⟨hdeclares, hlib, hrows, fun n => ?_⟩
  rw [hglobals, ← get?_globals_start deps target]
  rfl

theorem finds_withTypes (hb : b.Numbered) (h : IsFresh deps target) :
    (b.withClasses deps target).Finds (b.withTypes deps target) :=
  Analyzing.finds_resolveTypes b.tree _ (hb.withClasses_spec h).2.1

theorem isApart_withTypes (hb : b.Numbered) (h : IsFresh deps target) :
    (b.withTypes deps target).library.IsApart :=
  (hb.finds_withTypes h).interns.isApart (hb.withClasses_spec h).2.1

theorem scopes_withTypes (hb : b.Numbered) (h : IsFresh deps target) :
    (b.withTypes deps target).scopes.entries = [] := by
  rw [(hb.finds_withTypes h).scopes_eq]
  obtain ⟨_, _, _, _, _, heq⟩ := (hb.withClasses_spec h).1
  rw [heq]
  rfl

theorem binds_withSymbols (hb : b.Numbered) (h : IsFresh deps target) :
    (b.withTypes deps target).BindsDeclarations b.declarations (b.withSymbols deps target) :=
  hb.bindsDeclarations (hb.isApart_withTypes h) (hb.scopes_withTypes h)

theorem isApart_withSymbols (hb : b.Numbered) (h : IsFresh deps target) :
    (b.withSymbols deps target).library.IsApart :=
  (hb.binds_withSymbols h).binds.library.isApart (hb.isApart_withTypes h)

theorem scopes_withSymbols (hb : b.Numbered) (h : IsFresh deps target) :
    (b.withSymbols deps target).scopes.entries = [] := by
  rw [(hb.binds_withSymbols h).binds.scopes_eq, hb.scopes_withTypes h]

theorem hasMember_withSymbols (hb : b.Numbered) (h : IsFresh deps target) :
    ∀ d ∈ b.declarations, ∀ m ∈ d.members, (b.withSymbols deps target).HasMember m :=
  (hb.binds_withSymbols h).hasMember

/-- A class keeps its symbol. -/
theorem symbols_class (hb : b.Numbered) (h : IsFresh deps target) {d : ClassDecl}
    (hd : d ∈ b.classes) : (b.withSymbols deps target).annotations.symbols.get? d.place.id =
      (b.withClasses deps target).annotations.symbols.get? d.place.id := by
  rw [(hb.binds_withSymbols h).binds.symbols, (hb.finds_withTypes h).symbols_eq]
  rw [← b.bindings_tree]
  exact hb.class_notMem_bindings hd

/-- A name means, in the whole unit, what a dependency publishes, or else a class, or else a
variable or a function. Of several the first counts. -/
theorem globals_withSymbols (hb : b.Numbered) (h : IsFresh deps target) (n : String) :
    (b.withSymbols deps target).globals.get? n = (deps.findSome? (·.global? n)).or
      (((b.withSymbols deps target).denoted? (b.classes.map ClassDecl.entry) n).or
        ((b.withSymbols deps target).denoted? (b.values.map Member.entry) n)) := by
  have hclasses : (b.withSymbols deps target).denoted? (b.classes.map ClassDecl.entry) n =
      (b.withClasses deps target).denoted? (b.classes.map ClassDecl.entry) n := by
    refine denoted?_congr (fun d hd => ?_) n
    obtain ⟨e, he, rfl⟩ := List.mem_map.1 hd
    exact hb.symbols_class h he
  rw [(hb.binds_withSymbols h).globals, (hb.finds_withTypes h).globals_eq,
    (hb.withClasses_spec h).2.2.2, hclasses, Option.or_assoc]
  rfl

end Numbered

namespace Named

theorem canSay_value (hb : b.Named) {m : Member} (hm : m ∈ b.values) : b.CanSay m.name.name := by
  obtain ⟨d, hd, hm⟩ := List.mem_flatMap.1 hm
  refine hb.canSay (preorder_subset_of_mem hd ?_) m.name_mem_names
  match d with
  | .classDecl d => simp [Declaration.values] at hm
  | .function d =>
    obtain rfl : m = .function d := by simpa [Declaration.values] using hm
    exact Member.node_mem_preorder (.function d)
  | .variable d =>
    obtain rfl : m = .variable d := by simpa [Declaration.values] using hm
    exact Member.node_mem_preorder (.variable d)

variable (hb : b.Named) (h : IsFresh deps target)
  (hglobals : (b.atStart deps target).library.globals = .empty)
  (hstar : b.HasStar → (b.atStart deps target).AllowsStar)

include hb h hglobals hstar

/-- The classes are declared. -/
theorem declaresClasses :
    (b.atStart deps target).DeclaresClasses b.classes (b.withClasses deps target) := by
  refine Analyzing.declaresClasses (c := b.atStart deps target) (isApart_start h)
    (fun n _ hn => ?_) b.classes (fun d hd => hb.isPlainName_or_star_class hd)
    (fun ⟨d, hd, hname⟩ => ?_) hb.nodup_classes fun _ _ => rfl
  · rw [hglobals] at hn
    simp at hn
  · have hname := hasStar_of_class hd hname
    exact ⟨hstar hname, fun d hd => hb.ne_empty_class hname hd⟩

theorem keepsStar_withClasses (hname : b.HasStar) :
    (b.atStart deps target).KeepsStar (b.withClasses deps target) :=
  (hb.declaresClasses h hglobals hstar).keepsStar (hstar hname)
    fun _ hd => hb.ne_empty_class hname hd

/-- Classes that are named by a star have what it stands for, with no members of the unit yet. -/
theorem holdsStar_withClasses {d : ClassDecl} (hd : d ∈ b.classes) (hname : d.name.name = "*") :
    (b.withClasses deps target).HoldsStar (b.atStart deps target).library.starClass
      (fun _ => false) (b.withClasses deps target).library.star? := by
  obtain ⟨hallows, -, hclass, -⟩ :=
    hb.keepsStar_withClasses h hglobals hstar (hasStar_of_class hd hname)
  obtain ⟨-, hsome⟩ := (hb.declaresClasses h hglobals hstar).star d hd hname
  rw [← hclass, Library.starClass]
  cases hp : (b.withClasses deps target).library.nameless? with
  | none => rw [Option.elim_none, Library.star?, hp, Option.bind_none, HoldsStar]
  | some p =>
    obtain ⟨x, hx⟩ := Option.isSome_iff_exists.1 (hsome (by rw [hp]; rfl))
    have hpointer : (b.withClasses deps target).library.pointerType? p = some x := by
      rwa [Library.star?, hp] at hx
    obtain ⟨s, hs, -, hown⟩ := hallows.named hp hpointer
    rw [Option.elim_some, hpointer, Option.elim_some, Library.nameOf, hs, hx]
    by_cases hlibrary : x.library = (b.withClasses deps target).library.id
    · rw [if_pos hlibrary]
      exact ⟨x, _, rfl, (hown hlibrary).2, fun _ => rfl⟩
    · rw [if_neg hlibrary]
      exact ⟨x, s, rfl, hlibrary, hs, rfl⟩

/-- No other class has what a star stands for. -/
theorem symbol_ne_star? {d e : ClassDecl} (hd : d ∈ b.classes) (hname : d.name.name = "*")
    (he : e ∈ b.classes) (hne : e.name.name ≠ "*") :
    (b.withClasses deps target).annotations.symbols.get? e.place.id ≠
      (b.withClasses deps target).library.star? := by
  have hclasses := hb.declaresClasses h hglobals hstar
  have hallows := hstar (hasStar_of_class hd hname)
  obtain ⟨-, hnameless, -, hpointer⟩ :=
    hb.keepsStar_withClasses h hglobals hstar (hasStar_of_class hd hname)
  intro heq
  obtain ⟨x, hx, -⟩ := hclasses.hasMembers e he hne
  obtain ⟨hnew, hform⟩ := hclasses.form e he hne x hx
  rw [hx, eq_comm, Library.star?, Option.bind_eq_some_iff] at heq
  obtain ⟨p, hp, hx⟩ := heq
  cases hbefore : (b.atStart deps target).library.pointerType? p with
  | some y =>
    obtain rfl := Option.some.inj (hx.symm.trans (hpointer hbefore))
    obtain ⟨s, hs, -⟩ := hallows.named (hnameless ▸ hp) hbefore
    rw [hnew] at hs
    cases hs
  | none =>
    rw [Library.pointerType?_eq_or, Option.or_eq_none_iff] at hbefore
    rw [Library.pointerType?_eq_or, hclasses.dependencies_eq, hbefore.2, Option.or_none] at hx
    rcases hclasses.pointerTypes hx with hx | ⟨-, -, -, hform'⟩
    · rw [hbefore.1] at hx
      cases hx
    · exact TypeForm.noConfusion (hform.form_eq hform')

/-- The classes have symbols of their own. Types that are looked up do not publish a star. -/
theorem awaits (hpublished : b.HasStar →
      ((b.withTypes deps target).library.globals.get? "*").isSome →
      ((b.withClasses deps target).library.globals.get? "*").isSome) :
    (b.withTypes deps target).Awaits b.CanSay (b.atStart deps target).library.starClass
      (fun _ => false) (b.withClasses deps target).library.star? b.declarations := by
  have hclasses := hb.declaresClasses h hglobals hstar
  have hfinds := hb.finds_withTypes h
  have hrows (n : NodeId) : (b.withTypes deps target).annotations.symbols.get? n =
      (b.withClasses deps target).annotations.symbols.get? n := by rw [hfinds.symbols_eq]
  refine ⟨fun n hn hsome => ?_, fun d hd m hm => ?_, fun d hd hname => ?_, ?_, fun d hd hname => ?_,
    fun ⟨d, hd, hname⟩ hmem => ?_⟩
  · rw [hfinds.globals_eq]
    rcases hn with hn | ⟨rfl, hname⟩
    · exact hclasses.covers hn (hfinds.interns.globals_eq hn ▸ hsome)
    · have hallows := (hb.keepsStar_withClasses h hglobals hstar hname).allowsStar
      exact hallows.published (by decide) (hpublished hname hsome)
  · exact hb.canSay_value (List.mem_flatMap.2 ⟨d, hd, hm⟩)
  · rw [← classes_eq] at hd
    obtain ⟨x, hx, hmembers⟩ := hclasses.hasMembers d hd hname
    exact ⟨x, (hrows _).trans hx, hfinds.interns.hasMembers hmembers⟩
  · rw [ownSymbols, ← classes_eq]
    refine List.Nodup.map_on (fun d hd e he heq => ?_) (hb.nodup_classes.of_map.filter _)
    obtain ⟨hd, hname⟩ := List.mem_filter.1 hd
    obtain ⟨he, hname'⟩ := List.mem_filter.1 he
    rw [hrows, hrows] at heq
    exact List.inj_on_of_nodup_map hb.nodup_classes hd he
      (hclasses.inj d hd (by simpa using hname) e he (by simpa using hname') heq)
  · rw [← classes_eq] at hd
    exact ⟨(hrows _).trans (hclasses.star d hd hname).1,
      (hb.holdsStar_withClasses h hglobals hstar hd hname).interns hfinds.interns⟩
  · rw [← classes_eq] at hd
    obtain ⟨e, he, heq⟩ := List.mem_map.1 hmem
    obtain ⟨he, hne⟩ := List.mem_filter.1 he
    rw [← classes_eq] at he
    exact hb.symbol_ne_star? h hglobals hstar hd hname he (by simpa using hne)
      ((hrows _).symm.trans heq)

end Named

namespace Regular

variable (hb : b.Regular) (h : IsFresh deps target)
  (hglobals : (b.atStart deps target).library.globals = .empty)

include hb h hglobals

theorem declaresClasses :
    (b.atStart deps target).DeclaresClasses b.classes (b.withClasses deps target) :=
  hb.named.declaresClasses h hglobals fun hstar => absurd hstar hb.not_hasStar

/-- The classes get their members. -/
theorem fills : (b.withTypes deps target).Fills b.CanSay (b.atStart deps target).library.starClass
    (fun _ => false) (b.withClasses deps target).library.star? b.declarations
    (b.withSymbols deps target) :=
  (hb.binds_withSymbols h).fills (hb.named.awaits h hglobals
    (fun hstar => absurd hstar hb.not_hasStar) fun hstar => absurd hstar hb.not_hasStar)

end Regular

end Sable.Block
