import Sable.Proofs.Analysis.Pointing
import Sable.Proofs.Analysis.Signing

/-!
# What written types stand for

Behind an analysis, with errors or without, each written type stands for what it says. If its name
means a type, in the first dependency that publishes the name or else in the unit, the pointer type
of as many steps as there are stars; otherwise nothing, and this was reported once. A function has
the type that its parameters and its result make.

The libraries that the unit is linked to may be those of analyses with errors in their turn.

## Main definitions

* `Library.IsAnalyzed`: the libraries that analyses leave behind, with errors or without.
* `Context.namedType?`: the type that a name means.

## Main statements

* `Library.IsAnalyzed.isStarred`: in these libraries pointer types are named after what they lead to.
* `Block.writtenTypes_analyze`: the written types and the functions of a parsed unit.
-/
namespace Sable

open SymbolSort

/-- The built-in types, and what an analysis leaves behind, whether or not there were errors, if all
libraries below it are such libraries in their turn. The target of such an analysis may be in use, but
its number is no other library's. -/
inductive Library.IsAnalyzed : Library → Prop
  | core (id : LibraryId) : IsAnalyzed (core id)
  | analysis {lexer : Lexer} {source : String} {b : Block} {deps : List Library} {target : Library}
    (hparse : Block.parse (lexer.tokenize source) source = .ok b)
    (hdeps : ∀ dep ∈ target.dependencies ++ deps, IsAnalyzed dep)
    (hcoherent : Coherent (reachAll (target.dependencies ++ deps)))
    (hfresh : Block.IsFresh deps target) (hblank : target.IsBlank) :
    IsAnalyzed (b.analyze deps target).library

/-- The type that a name means: what the first dependency publishes under it, or else the first
class of this name, if it is a type. -/
def Context.namedType? (c : Context) (deps : List Library) (b : Block) (name : String) :
    Option SymbolId :=
  ((deps.findSome? (·.global? name)).or (c.denoted? (b.classes.map ClassDecl.entry) name)).filter
    fun x => (c.type? x).isSome

/-- If the name of a written type means a type, it stands for the pointer type that leads there in
as many steps as stars are written, and that is named so. Otherwise it stands for nothing, and it is
reported once, among `es`, that the name is unknown. -/
def Context.NotesType (c : Context) (deps : List Library) (b : Block) (es : List SemanticError)
    (t : WrittenType) : Prop :=
  match c.namedType? deps b t.name.name with
  | some base => (∃ x, c.annotations.declaredTypes.get? t.place.id = some x ∧
        c.library.follow? t.stars x = some base ∧ c.nameOf x = c.nameOf base ++ stars t.stars) ∧
      es.filter (fun e => e.span = t.name.span) = []
  | none => c.annotations.declaredTypes.get? t.place.id = none ∧
      es.filter (fun e => e.span = t.name.span) = [.symbolNotFound t.name.name t.name.span]

/-- If the types of the parameters and of the result of a function are known, it has the type that
they make. Otherwise it has none. -/
def Context.NotesSignature (c : Context) (deps : List Library) (b : Block) (d : FunctionDecl) :
    Prop :=
  match c.parts? (c.namedType? deps b Library.voidName) d.parameters d.returns with
  | some (ps, r) => ∃ x, c.annotations.signatures.get? d.place.id = some x ∧
      (c.type? x).map TypeSymbol.form = some (.function ps r)
  | none => c.annotations.signatures.get? d.place.id = none

namespace Block

variable {b : Block} {deps : List Library} {target : Library}

/-! ## The phases -/

section Phases

variable (hb : b.Numbered) (hs : b.Spelled) (hfresh : IsFresh deps target)
  (hblank : target.IsBlank)
  (hcoherent : Library.Coherent (Library.reachAll (target.dependencies ++ deps)))
  (hdeps : ∀ dep ∈ target.dependencies ++ deps, dep.IsStarred)

include hfresh hblank hcoherent hdeps

theorem isStarred_atStart : (b.atStart deps target).IsStarred where
  library := Library.isStarred_start hblank hcoherent hfresh hdeps
  globals _ _ hx := Library.knows_globals_start hblank hcoherent hfresh
    (fun dep hdep => (hdeps dep hdep).toIsSound) hx
  declaredTypes _ _ hx := absurd hx (by simp [atStart, Context.start])

theorem isStarred_withClasses : (b.withClasses deps target).IsStarred :=
  (Analyzing.furthers_declareClasses b
    (isStarred_atStart hfresh hblank hcoherent hdeps) rfl).1

include hb

/-- Nothing has been looked up in front of the second phase. -/
theorem Numbered.met_nil :
    Analyzing.Met b (b.withClasses deps target) [] (b.withClasses deps target) := by
  have hstart := isStarred_withClasses (b := b) hfresh hblank hcoherent hdeps
  obtain ⟨hattempted, hdeclared, hsignatures⟩ :
      (b.withClasses deps target).attempted = [] ∧
        (b.withClasses deps target).annotations.declaredTypes = .empty ∧
        (b.withClasses deps target).annotations.signatures = .empty := by
    obtain ⟨_, _, _, _, _, heq⟩ := (hb.withClasses_spec hfresh).1
    rw [heq]
    exact ⟨rfl, rfl, rfl⟩
  refine ⟨⟨hstart, rfl, .refl _, fun t _ hmem => ?_, fun n _ => ?_, [], by simp, fun t _ => ?_⟩,
    by simp, by simp, fun n _ => ?_⟩
  · simp [hattempted] at hmem
  · simp [hdeclared]
  · simp [hattempted]
  · simp [hsignatures]

include hs

theorem Numbered.met_withTypes : Analyzing.Met b (b.withClasses deps target) b.tree.preorder
    (b.withTypes deps target) :=
  Analyzing.met_resolveTypes hb hs (isStarred_withClasses hfresh hblank hcoherent hdeps)
    (hb.met_nil hfresh hblank hcoherent hdeps)

/-- The third phase makes no types. -/
theorem Numbered.isStarred_withSymbols : (b.withSymbols deps target).IsStarred ∧
    (b.withTypes deps target).library.Extends (b.withSymbols deps target).library := by
  have hstart : (b.atStart deps target).IsSound b False False :=
    isSound_atStart hfresh hblank hcoherent fun dep hdep => (hdeps dep hdep).toIsSound
  have hclasses := (Analyzing.sustains_declareClasses hstart rfl rfl).1
  have htypes := (Analyzing.sustains_resolveTypes hclasses rfl rfl).1
  have htarget : (b.withTypes deps target).scopes.registrationTarget? = none := by
    rw [ScopeStack.registrationTarget?, hb.scopes_withTypes hfresh]
    rfl
  obtain ⟨hsymbols, -, hext, -⟩ :=
    Analyzing.sustains_bindBlock (fun h => h) htarget htypes rfl rfl
  have hforms := (hb.binds_withSymbols hfresh).binds.library.form?_eq
  refine ⟨⟨⟨hsymbols.library, fun {x name p} hx => ?_⟩, hsymbols.globals,
    fun n x hx => (hsymbols.declaredTypes n x hx).2⟩, hext⟩
  obtain ⟨base, form, hp, hname⟩ :=
    (hb.met_withTypes hs hfresh hblank hcoherent hdeps).isStarred.library.pointer
      ((hforms x).symm.trans hx)
  exact ⟨base, form, (hforms p).trans hp, hname⟩

theorem Numbered.isStarred_analyze : (b.analyze deps target).IsStarred :=
  hs.analyze_of_steps hb hfresh (J := fun _ c => c.IsStarred)
    (hb.isStarred_withSymbols hs hfresh hblank hcoherent hdeps).1
    (fun _ _ h => ⟨h.library, h.globals, h.declaredTypes⟩)
    fun _ _ _ hm _ c _ _ hc _ => (hm.furthers c.library hc rfl).1

/-- Behind the analysis the notes of the second phase are the same, and the library has more. -/
theorem Numbered.retains_analyze :
    (b.analyze deps target).annotations.declaredTypes =
        (b.withTypes deps target).annotations.declaredTypes ∧
      (b.analyze deps target).annotations.signatures =
        (b.withTypes deps target).annotations.signatures ∧
      (b.withTypes deps target).library.Extends (b.analyze deps target).library := by
  have hbinds := (hb.binds_withSymbols hfresh).binds
  have hlooked := hs.looked hb hfresh
  obtain ⟨_, _, _, _, _, _, _, _, heq⟩ := hlooked.eq
  refine ⟨?_, ?_, (hb.isStarred_withSymbols hs hfresh hblank hcoherent hdeps).2.trans
    hlooked.interns.extends⟩
  · rw [← hbinds.declaredTypes_eq, heq]
  · rw [← hbinds.signatures_eq, heq]

/-- A name means the same type from the first phase on. -/
theorem Numbered.namedType?_analyze (name : String) :
    (b.analyze deps target).namedType? deps b name =
      (b.withClasses deps target).globalType? name := by
  have hclasses : (b.analyze deps target).denoted? (b.classes.map ClassDecl.entry) name =
      (b.withClasses deps target).denoted? (b.classes.map ClassDecl.entry) name := by
    refine Context.denoted?_congr (fun d hd => ?_) name
    obtain ⟨e, he, rfl⟩ := List.mem_map.1 hd
    refine (hs.symbols_analyze hb hfresh (classNode_mem_preorder he) rfl).trans ?_
    exact hb.symbols_class hfresh he
  have hlib : (b.withClasses deps target).library.Extends (b.analyze deps target).library :=
    (hb.met_withTypes hs hfresh hblank hcoherent hdeps).library.trans
      (hb.retains_analyze hs hfresh hblank hcoherent hdeps).2.2
  have hglobals := Context.globalType?_eq
    (c := { b.analyze deps target with globals := (b.withClasses deps target).globals })
    (isStarred_withClasses hfresh hblank hcoherent hdeps) hlib rfl name
  rw [Context.namedType?, hclasses, ← (hb.withClasses_spec hfresh).2.2.2, ← hglobals]
  rfl

/-- What was reported by the second phase is reported of the written types. -/
theorem Numbered.notesType {es : List SemanticError}
    (hes : (b.withTypes deps target).errors = (b.withClasses deps target).errors ++ es)
    {t : WrittenType} (ht : t ∈ b.writtenTypes) :
    (b.analyze deps target).NotesType deps b es t := by
  have hmet := hb.met_withTypes hs hfresh hblank hcoherent hdeps
  have hnamed := hb.namedType?_analyze hs hfresh hblank hcoherent hdeps t.name.name
  obtain ⟨hdeclared, -, hlib⟩ := hb.retains_analyze hs hfresh hblank hcoherent hdeps
  obtain ⟨n, hn, hhead⟩ := mem_writtenTypes.1 ht
  have hattempted := hmet.attempted n hn t hhead
  have hstands : (b.analyze deps target).Stands t _ := (hmet.stands t ht hattempted).mono hlib
    (congrArg (·.get? t.place.id) hdeclared)
  obtain ⟨es', hes', hreported⟩ := hmet.errors
  obtain rfl := List.append_cancel_left (hes.symm.trans hes')
  have hreported := hreported t ht
  rw [← hnamed] at hstands hreported
  unfold Context.NotesType
  split
  · next base hbase =>
    rw [hbase] at hstands hreported
    obtain ⟨x, hx, hfollow⟩ := hstands
    have hstarred := (hb.isStarred_analyze hs hfresh hblank hcoherent hdeps).library
    exact ⟨⟨x, hx, hfollow, hstarred.nameOf_of_follow? hfollow⟩, by simpa using hreported⟩
  · next hbase =>
    rw [hbase] at hstands hreported
    exact ⟨hstands, hreported.trans (if_pos ⟨hattempted, rfl⟩)⟩

theorem Numbered.notesSignature {d : FunctionDecl} (hd : d ∈ b.allFunctions) :
    (b.analyze deps target).NotesSignature deps b d := by
  have hmet := hb.met_withTypes hs hfresh hblank hcoherent hdeps
  obtain ⟨hdeclared, hsignatures, hlib⟩ := hb.retains_analyze hs hfresh hblank hcoherent hdeps
  obtain ⟨-, -, hsignature⟩ := hmet.signs d.node (node_mem_preorder hd) _ _ _ rfl
  rw [← Context.parts?_congr hdeclared,
    ← hb.namedType?_analyze hs hfresh hblank hcoherent hdeps] at hsignature
  have hsignature : (b.analyze deps target).HasSignature d.place.id _ :=
    hsignature.mono hlib (congrArg (·.get? d.place.id) hsignatures)
  unfold Context.NotesSignature
  split
  · next ps r hparts =>
    rw [hparts] at hsignature
    obtain ⟨x, hx, hknows⟩ := hsignature
    obtain ⟨name, hform⟩ := Library.exists_form?_of_knows_form hknows
    obtain ⟨t, ht, hform⟩ := Library.type?_of_form? hform
    exact ⟨x, hx, Option.map_eq_some_iff.2 ⟨t, ht, hform⟩⟩
  · next hparts => rwa [hparts] at hsignature

end Phases

end Block

/-- In the libraries of analyses, pointer types are named after what they lead to. -/
theorem Library.IsAnalyzed.isStarred {lib : Library} (h : lib.IsAnalyzed) : lib.IsStarred := by
  induction h with
  | core id => exact isStarred_core id
  | analysis hparse _ hcoherent hfresh hblank ih =>
    exact ((Block.numbered_of_parse hparse).isStarred_analyze (Block.spelled_of_parse hparse) hfresh
      hblank hcoherent ih).library

namespace Block

variable {b : Block} {deps : List Library} {target : Library}

/-- The written types and the functions of a parsed unit. What is missing is reported by the second
phase. -/
theorem writtenTypes_analyze {lexer : Lexer} {source : String}
    (hparse : Block.parse (lexer.tokenize source) source = .ok b)
    (hdeps : ∀ dep ∈ target.dependencies ++ deps, dep.IsAnalyzed)
    (hcoherent : Library.Coherent (Library.reachAll (target.dependencies ++ deps)))
    (hfresh : IsFresh deps target) (hblank : target.IsBlank) :
    let c := b.analyze deps target
    ∃ es after, (b.withTypes deps target).errors = (b.withClasses deps target).errors ++ es ∧
      c.errors = (b.withTypes deps target).errors ++ after ∧
      (∀ t ∈ b.writtenTypes, c.NotesType deps b es t) ∧
      ∀ d ∈ b.allFunctions, c.NotesSignature deps b d := by
  intro c
  have hb := numbered_of_parse hparse
  have hs := spelled_of_parse hparse
  have hstarred := fun dep hdep => (hdeps dep hdep).isStarred
  have hchecks : (Analyzing.checkBlock b).Grows :=
    Analyzing.reports_checkBlock (Tree.liesIn_of_forall (fun _ _ _ _ => trivial) _)
  obtain ⟨es, hes, -⟩ := (hb.met_withTypes hs hfresh hblank hcoherent hstarred).errors
  obtain ⟨es₁, hes₁, -⟩ := (hb.binds_withSymbols hfresh).errors
  obtain ⟨es₂, hes₂, -⟩ := hchecks (b.withSymbols deps target)
  refine ⟨es, es₁ ++ es₂, hes, ?_,
    fun t ht => hb.notesType hs hfresh hblank hcoherent hstarred hes ht,
    fun d hd => hb.notesSignature hs hfresh hblank hcoherent hstarred hd⟩
  rw [← List.append_assoc, ← hes₁]
  exact hes₂

/-- A class of another unit, whose analysis reported an error, one that is nowhere, and one of the
unit. -/
theorem writtenTypes_analyze_erroneous :
    let first := "class A { } var w: M;"
    let second := "class B { } fn g(x: A**, y: M): B* { }"
    ∃ a b, Block.parse ((Lexer.ofVocabulary .standard).tokenize first) first = .ok a ∧
      Block.parse ((Lexer.ofVocabulary .standard).tokenize second) second = .ok b ∧
      (a.analyze [.core 0] (.new 1 "a")).isOk = false ∧
      let deps := [.core 0, (a.analyze [.core 0] (.new 1 "a")).library]
      let c := b.analyze deps (.new 2 "b")
      b.writtenTypes.map (fun t => (t.name.name, t.stars, (c.namedType? deps b t.name.name).isSome)) =
        [("A", 2, true), ("M", 0, false), ("B", 1, true)] ∧
      ∃ es after, (b.withTypes deps (.new 2 "b")).errors =
          (b.withClasses deps (.new 2 "b")).errors ++ es ∧
        c.errors = (b.withTypes deps (.new 2 "b")).errors ++ after ∧
        (∀ t ∈ b.writtenTypes, c.NotesType deps b es t) ∧
        ∀ d ∈ b.allFunctions, c.NotesSignature deps b d := by
  intro first second
  have hrun : (Block.parse ((Lexer.ofVocabulary .standard).tokenize first) first).toOption.map
      (fun a => (Block.parse ((Lexer.ofVocabulary .standard).tokenize second) second).toOption.map
        fun b => ((a.analyze [.core 0] (.new 1 "a")).isOk,
          let deps := [.core 0, (a.analyze [.core 0] (.new 1 "a")).library]
          let c := b.analyze deps (.new 2 "b")
          b.writtenTypes.map fun t =>
            (t.name.name, t.stars, (c.namedType? deps b t.name.name).isSome))) =
      some (some (false, [("A", 2, true), ("M", 0, false), ("B", 1, true)])) := by
    decide +kernel
  obtain ⟨a, ha, hrun⟩ := exists_of_toOption_map hrun
  obtain ⟨b, hb, hrun⟩ := exists_of_toOption_map hrun
  obtain ⟨hok, hfound⟩ := Prod.mk.inj hrun
  obtain ⟨hid, hdependencies⟩ := links_analyze a [.core 0] (.new 1 "a")
  have hreach : Library.reachAll [.core 0, (a.analyze [.core 0] (.new 1 "a")).library] =
      [.core 0, (a.analyze [.core 0] (.new 1 "a")).library, .core 0] := by
    have hlinks : (a.analyze [.core 0] (.new 1 "a")).library.dependencies = [.core 0] :=
      hdependencies
    rw [Library.reachAll, Library.reachAll, Library.reachAll, Library.reach_eq,
      Library.core_dependencies, Library.reach_eq, hlinks, Library.reachAll_core]
    rfl
  have hfirst : (a.analyze [.core 0] (.new 1 "a")).library.IsAnalyzed := by
    exact .analysis ha (List.forall_mem_singleton.2 (.core 0)) (Library.coherent_core 0)
      (isFresh_core (by decide) "a") (Library.isBlank_new 1 "a")
  have hid : (a.analyze [.core 0] (.new 1 "a")).library.id = 1 := hid
  refine ⟨a, b, ha, hb, hok, hfound, writtenTypes_analyze hb ?_ ?_ ?_ (Library.isBlank_new 2 "b")⟩
  · exact List.forall_mem_cons.2 ⟨.core 0, List.forall_mem_singleton.2 hfirst⟩
  · change Library.Coherent (Library.reachAll [.core 0, _])
    rw [hreach]
    simp [Library.Coherent, hid, Library.core_id]
  · change ∀ dep ∈ Library.reachAll [.core 0, _], dep.id ≠ 2
    rw [hreach]
    simp [hid, Library.core_id]

end Block

end Sable
