import Sable.Proofs.Analysis.Annotating
import Sable.Proofs.Analysis.Finding
import Sable.Proofs.Analysis.Lexical
import Sable.Proofs.Analysis.Linking

/-!
# What an analysis leaves behind

Whatever an analysis notes, with errors or without, can be looked up and is of the right sort. If
there were no errors, nothing is missing. So the library of an analysis without errors can be linked
in its turn.

This needs all libraries below, not only the dependencies themselves: what one of them left without a
type is without a type in every unit that comes across it.

## Main definitions

* `Context.IsIntact`: all notes are right, and none is missing unless there were errors.
* `Library.IsBuilt`: the libraries that analyses without errors leave behind, all the way down.

## Main statements

* `Block.isIntact_analyze`: the analysis of a parsed unit.
* `Block.isIntact_analyze_untyped`: an error further down may leave notes missing.
-/
namespace Sable

open SymbolSort
open Library (mem_reach_self symbol?_of_owned?)

/-! ## The libraries of analyses -/

/-- The built-in types, and what an analysis without errors leaves behind, if all libraries below it
are such libraries in their turn. The target of such an analysis may be in use, but its number is no
other library's. -/
inductive Library.IsBuilt : Library → Prop
  | core (id : LibraryId) : IsBuilt (core id)
  | analysis {lexer : Lexer} {source : String} {b : Block} {deps : List Library} {target : Library}
    (hparse : Block.parse (lexer.tokenize source) source = .ok b)
    (hbuilt : ∀ dep ∈ target.dependencies ++ deps, IsBuilt dep)
    (hcoherent : Coherent (reachAll (target.dependencies ++ deps)))
    (hfresh : Block.IsFresh deps target) (hblank : target.IsBlank)
    (hok : (b.analyze deps target).errors = []) : IsBuilt (b.analyze deps target).library

namespace Block

variable {b : Block} {deps : List Library} {target : Library}

/-! ## In front of the last phase -/

theorem globals_start (hblank : target.IsBlank) :
    (b.atStart deps target).library.globals = .empty := by
  obtain ⟨_, _, heq, -⟩ := Library.library_start deps hblank
  rw [atStart, heq]
  rfl

section Sound

variable (hb : b.Numbered) (hfresh : IsFresh deps target) (hblank : target.IsBlank)
  (hcoherent : Library.Coherent (Library.reachAll (target.dependencies ++ deps)))

include hfresh hblank hcoherent

theorem isSound_atStart {typed : Prop}
    (hsound : ∀ dep ∈ target.dependencies ++ deps, dep.IsSound typed) :
    (b.atStart deps target).IsSound b typed False where
  library := Library.isSound_start hblank hcoherent hfresh hsound
  globals _ _ hx := Library.knows_globals_start hblank hcoherent hfresh hsound hx
  symbols _ _ hx := absurd hx (by simp [atStart, Context.start])
  declaredTypes _ _ hx := absurd hx (by simp [atStart, Context.start])
  signatures _ _ hx := absurd hx (by simp [atStart, Context.start])
  found := False.elim

variable (hsound : ∀ dep ∈ target.dependencies ++ deps, dep.IsSound True)

include hb hsound

/-- If there were no errors up to the second phase, all variables and functions have types. -/
theorem Numbered.isSound_withSymbols : (b.withSymbols deps target).IsSound b
    ((b.withTypes deps target).errors = []) ((b.withTypes deps target).errors = []) := by
  have hstart : (b.atStart deps target).IsSound b ((b.withTypes deps target).errors = []) False :=
    isSound_atStart hfresh hblank hcoherent fun dep hdep =>
      (hsound dep hdep).mono fun _ => trivial
  have hclasses := (Analyzing.sustains_declareClasses hstart rfl rfl).1
  have htypes := (Analyzing.sustains_resolveTypes hclasses rfl rfl).1
  have hfound := isSome_of_resolveTypes (b := b) (c := b.withClasses deps target)
    (hb.withClasses_spec hfresh).2.1 (by
      obtain ⟨_, _, _, _, _, heq⟩ := (hb.withClasses_spec hfresh).1
      rw [heq]
      rfl)
  have htypes' : (b.withTypes deps target).IsSound b ((b.withTypes deps target).errors = [])
      ((b.withTypes deps target).errors = []) :=
    ⟨htypes.library, htypes.globals, htypes.symbols, htypes.declaredTypes, htypes.signatures, hfound⟩
  have htarget : (b.withTypes deps target).scopes.registrationTarget? = none := by
    rw [ScopeStack.registrationTarget?, hb.scopes_withTypes hfresh]
    rfl
  exact (Analyzing.sustains_bindBlock (fun h => h) htarget htypes' rfl rfl).1

end Sound

section Numbered

variable (hb : b.Numbered) (h : IsFresh deps target)

include hb h

/-- Nothing is known of expressions and jumps. -/
theorem Numbered.annotations_withSymbols :
    (b.withSymbols deps target).annotations.resolvedTypes = .empty ∧
      (b.withSymbols deps target).annotations.members = .empty ∧
      (b.withSymbols deps target).annotations.labels = .empty := by
  obtain ⟨_, _, _, _, _, hclasses⟩ := (hb.withClasses_spec h).1
  obtain ⟨_, _, _, _, _, htypes⟩ := (hb.finds_withTypes h).eq
  obtain ⟨_, _, _, _, _, hsymbols⟩ := (hb.binds_withSymbols h).binds.declares
  rw [hsymbols, htypes, hclasses]
  exact ⟨rfl, rfl, rfl⟩

theorem Numbered.errors_withTypes (herrors : (b.withSymbols deps target).errors = []) :
    (b.withTypes deps target).errors = [] := by
  obtain ⟨es, heq, -⟩ := (hb.binds_withSymbols h).errors
  rw [heq] at herrors
  exact (List.append_eq_nil_iff.1 herrors).1

/-- Every function, parameter, variable and label has a symbol. -/
theorem Numbered.isSome_symbol {n : Node} (hn : n ∈ b.tree.declarations) :
    ((b.withSymbols deps target).annotations.symbols.get? n.id).isSome := by
  have hbound : ∀ {isValue name type}, (b.withSymbols deps target).Bound n.id name isValue type →
      ((b.withSymbols deps target).annotations.symbols.get? n.id).isSome := by
    rintro isValue name type ⟨x, s, hx, -⟩
    exact Option.isSome_iff_exists.2 ⟨x, hx⟩
  rw [b.declarations_tree] at hn
  obtain ⟨d, hd, hn⟩ := List.mem_flatMap.1 hn
  rw [d.declarations_tree] at hn
  obtain ⟨m, hm, hn⟩ := List.mem_flatMap.1 hn
  have hmember := hb.hasMember_withSymbols h d hd m hm
  match m with
  | .variable d =>
    obtain rfl : n = ⟨d.place, .variable d.name⟩ := by simpa [Member.tree] using hn
    exact hbound hmember
  | .function d =>
    rw [Member.tree, d.declarations_tree, List.mem_cons] at hn
    rcases hn with rfl | hn
    · exact hbound hmember.bound
    · obtain ⟨l, hl, rfl⟩ := List.mem_map.1 hn
      obtain ⟨x, -, hx, -⟩ := hmember.bound
      have hlocal := (hmember.holds x hx).bound l hl
      rw [Context.BoundLocal, ← l.id_node] at hlocal
      exact hbound hlocal

end Numbered

/-! ## Behind the last phase -/

/-- Classes are declared at the top of a unit only. -/
theorem exists_class_of_mem_preorder {n : Node} (hn : n ∈ b.tree.preorder)
    (hkind : n.kind = .classDecl) : ∃ d ∈ b.classes, n = ⟨d.place, .classDecl d.name⟩ := by
  have hinner : ¬n.IsInner := fun h => h.2.1 hkind
  have hfunction : ∀ d : FunctionDecl, n ∉ d.tree.preorder := fun d hn => by
    rcases d.eq_node_or_isInner n hn with rfl | h
    · simp [FunctionDecl.node, Node.kind, Head.kind] at hkind
    · exact hinner h
  have hmember : ∀ m : Member, n ∉ m.tree.preorder := fun m hn => by
    obtain d | d := m
    · exact hinner (d.isInner n hn)
    · exact hfunction d hn
  rw [tree, Tree.preorder, List.mem_cons, Tree.mem_preorders] at hn
  rcases hn with rfl | ⟨t, ht, hn⟩
  · simp [Node.kind, Head.kind] at hkind
  obtain ⟨d, hd, rfl⟩ := List.mem_map.1 ht
  obtain d | d | d := d
  · rw [Declaration.tree, ClassDecl.tree, Tree.preorder, List.mem_cons, Tree.mem_preorders] at hn
    rcases hn with rfl | ⟨t, ht, hn⟩
    · exact ⟨d, mem_classes.2 hd, rfl⟩
    · obtain ⟨m, -, rfl⟩ := List.mem_map.1 ht
      exact absurd hn (hmember m)
  · exact absurd hn (hfunction d)
  · exact absurd (d.isInner n hn) hinner

section Annotated

variable (hb : b.Numbered) (hfresh : IsFresh deps target) (hblank : target.IsBlank)
  (hcoherent : Library.Coherent (Library.reachAll (target.dependencies ++ deps)))
  (hsound : ∀ dep ∈ target.dependencies ++ deps, dep.IsSound True)

include hb hfresh hblank hcoherent hsound

theorem Numbered.hasAnnotated_nil :
    b.HasAnnotated ((b.withTypes deps target).errors = []) (b.withSymbols deps target) []
      (b.withSymbols deps target) := by
  obtain ⟨htypes, hmembers, hlabels⟩ := hb.annotations_withSymbols hfresh
  have hstart : (b.withSymbols deps target).IsAnnotated b
      ((b.withTypes deps target).errors = []) :=
    { hb.isSound_withSymbols hfresh hblank hcoherent hsound with
      resolvedTypes := fun n x hx => by simp [htypes] at hx
      members := fun n x hx => by simp [hmembers] at hx
      labels := fun n x hx => by simp [hlabels] at hx }
  exact ⟨List.nil_prefix, hstart, .refl b _ _, fun _ _ hn => by simp at hn⟩

/-- What every check keeps true while notes are taken is true behind the last phase. -/
theorem Numbered.analyze_of_annotates {J : List Check → Context → Prop}
    (hnil : J [] (b.withSymbols deps target))
    (hframe : ∀ {ks c} scopes visits, J ks c → J ks { c with scopes, visits })
    (hstep : ∀ ⦃k p m⦄, b.Step (b.withSymbols deps target).annotations.symbols.get? k p m →
      ∀ ⦃done c⦄, done ++ [k] <+: b.checks →
        c.IsReady b ((b.withTypes deps target).errors = []) k.ids → J done c →
        J (done ++ [k]) (m.run c).2) :
    b.HasAnnotated ((b.withTypes deps target).errors = []) (b.withSymbols deps target) b.checks
      (b.analyze deps target) ∧ J b.checks (b.analyze deps target) := by
  have htypes : ∀ e ∈ b.exprs, (b.withSymbols deps target).annotations.resolvedTypes.get? e.2.id =
      none := fun e _ => by
    rw [(hb.annotations_withSymbols hfresh).1]
    rfl
  have hrows : ∀ n ∈ b.tree.preorder, n.kind.isValue = true →
      ((b.withSymbols deps target).annotations.symbols.get? n.id).isSome := fun n hn hkind => by
    refine hb.isSome_symbol hfresh (List.mem_filter.2 ⟨hn, ?_⟩)
    revert hkind
    cases n.kind <;> simp [NodeKind.isValue, NodeKind.isBinding]
  have htyped := hb.errors_withTypes hfresh
  have hinvariant := (invariant_hasAnnotated hb htypes htyped hrows).and hframe
    fun _ _ _ hm _ _ hdone hc hJ _ _ => hstep hm hdone (hc.isReady hb htypes htyped hdone) hJ
  rw [analyze_eq]
  exact hinvariant.checkBlock ⟨hb.hasAnnotated_nil hfresh hblank hcoherent hsound, hnil⟩
    (hb.scopes_withSymbols hfresh)

theorem Numbered.hasAnnotated_analyze :
    b.HasAnnotated ((b.withTypes deps target).errors = []) (b.withSymbols deps target) b.checks
      (b.analyze deps target) :=
  (hb.analyze_of_annotates hfresh hblank hcoherent hsound (J := fun _ _ => True) trivial
    (fun _ _ _ => trivial) fun _ _ _ _ _ _ _ _ _ => trivial).1

omit hb in
/-- If nothing was reported, all nodes have all their notes. -/
theorem Regular.isComplete_analyze (hb : b.Regular) (herrors : (b.analyze deps target).errors = [])
    {n : Node} (hn : n ∈ b.tree.preorder) : (b.analyze deps target).IsComplete n := by
  have hannotated := hb.hasAnnotated_analyze hfresh hblank hcoherent hsound
  have hsymbols := hannotated.advances.errors herrors
  obtain ⟨htypes, hsignatures⟩ := hannotated.isAnnotated.found (hb.errors_withTypes hfresh hsymbols)
  obtain ⟨htype, hfunction⟩ := type_and_function_of_mem_preorder hn
  -- expressions and jumps are checked
  have hchecked : n.kind.isChecked = true → (b.analyze deps target).IsComplete n := fun hkind => by
    refine hannotated.isComplete herrors n ?_
    rw [b.flatMap_nodes_checks]
    exact List.mem_filter.2 ⟨hn, hkind⟩
  have hdeclared : n.kind.isBinding = true →
      ((b.analyze deps target).annotations.symbols.get? n.id).isSome := fun hkind =>
    hannotated.advances.symbols (hb.isSome_symbol hfresh (List.mem_filter.2 ⟨hn, hkind⟩))
  have hclass : n.kind = .classDecl →
      ((b.analyze deps target).annotations.symbols.get? n.id).isSome := fun hkind => by
    obtain ⟨d, hd, rfl⟩ := exists_class_of_mem_preorder hn hkind
    have hclasses := hb.declaresClasses hfresh (globals_start hblank)
    obtain ⟨x, hx, -⟩ := hclasses.hasMembers d hd (hb.class_ne_star hd)
    refine hannotated.advances.symbols ?_
    change ((b.withSymbols deps target).annotations.symbols.get? d.place.id).isSome
    rw [hb.symbols_class hfresh hd, hx]
    rfl
  refine ⟨fun h => (hchecked ?_).resolvedType h, fun h => ?_, fun h => (hchecked ?_).member h,
    fun h => (hchecked ?_).label h, fun h => ?_, fun h => ?_⟩
  · revert h
    cases n.kind <;> simp [NodeKind.isExpression, NodeKind.isChecked]
  · match n, h with
    | ⟨_, .classDecl _⟩, _ => exact hclass rfl
    | ⟨_, .function ..⟩, _ | ⟨_, .parameter _⟩, _ | ⟨_, .variable _⟩, _ | ⟨_, .label _⟩, _ =>
      exact hdeclared rfl
    | ⟨_, .value (.identifier _)⟩, h => exact (hchecked rfl).symbol h
  · simp [h, NodeKind.isChecked]
  · simp [h, NodeKind.isChecked]
  · obtain ⟨place, head⟩ := n
    cases head with
    | type t =>
      obtain rfl : place = t.place := htype t rfl
      exact htypes t (mem_writtenTypes.2 ⟨_, hn, rfl⟩)
    | _ => cases h
  · obtain ⟨d, hd, rfl⟩ := hfunction h
    exact hsignatures d hd

end Annotated

end Block

/-- The libraries of analyses are sound. -/
theorem Library.IsBuilt.isSound {lib : Library} (h : lib.IsBuilt) : lib.IsSound True := by
  induction h with
  | core id => exact isSound_core id
  | @analysis lexer source b deps target hparse _ hcoherent hfresh hblank hok ih =>
    have hb := Block.numbered_of_parse hparse
    have hannotated := hb.hasAnnotated_analyze hfresh hblank hcoherent ih
    exact hannotated.isAnnotated.library.mono fun _ =>
      hb.errors_withTypes hfresh (hannotated.advances.errors hok)

/-! ## Parsed units -/

/-- All notes are right: whatever is mentioned is known and is of the right sort. If nothing was
reported, no note is missing. -/
structure Context.IsIntact (b : Block) (c : Context) : Prop where
  symbol : ∀ x s, c.library.owned? x = some s → s.IsSound c.library (c.errors = [])
  globals : ∀ name x, c.library.globals.get? name = some x → c.library.Knows Any x
  symbols : ∀ n x, c.annotations.symbols.get? n = some x →
    ∃ m ∈ b.tree.preorder, m.id = n ∧ c.library.Knows m.head.Denotes x
  declaredTypes : ∀ n x, c.annotations.declaredTypes.get? n = some x →
    (∃ t ∈ b.writtenTypes, t.place.id = n) ∧ c.library.Knows IsType x
  signatures : ∀ n x, c.annotations.signatures.get? n = some x →
    (∃ d ∈ b.allFunctions, d.place.id = n) ∧ c.library.Knows IsSignature x
  resolvedTypes : ∀ n x, c.annotations.resolvedTypes.get? n = some x →
    (∃ m ∈ b.tree.preorder, m.id = n ∧ m.kind.isExpression = true) ∧ c.library.Knows IsType x
  members : ∀ n x, c.annotations.members.get? n = some x → ∃ Γ place kind object member,
    (Γ, .access place kind object member) ∈ b.exprs ∧ place.id = n ∧
      c.Accesses kind object member x
  labels : ∀ n x, c.annotations.labels.get? n = some x →
    (∃ m ∈ b.tree.preorder, m.id = n ∧ m.kind = .goto) ∧ c.library.Knows IsLabel x
  isComplete : c.errors = [] → ∀ n ∈ b.tree.preorder, c.IsComplete n

namespace Block

variable {b : Block} {deps : List Library} {target : Library}

/-- Whatever is noted in a parsed unit can be looked up and is of the right sort, if no analysis
further down had errors. -/
theorem isIntact_analyze {lexer : Lexer} (hlexer : lexer.vocabulary = .standard) {source : String}
    (hparse : Block.parse (lexer.tokenize source) source = .ok b)
    (hbuilt : ∀ dep ∈ target.dependencies ++ deps, dep.IsBuilt)
    (hcoherent : Library.Coherent (Library.reachAll (target.dependencies ++ deps)))
    (hfresh : IsFresh deps target) (hblank : target.IsBlank) :
    (b.analyze deps target).IsIntact b := by
  have hb := regular_of_parse hlexer hparse
  have hsound : ∀ dep ∈ target.dependencies ++ deps, dep.IsSound True :=
    fun dep hdep => (hbuilt dep hdep).isSound
  have hannotated := hb.hasAnnotated_analyze hfresh hblank hcoherent hsound
  have h := hannotated.isAnnotated
  have hsymbols := hannotated.advances.errors
  refine
    { symbol := fun x s hs => ?_
      globals := h.library.globals _ (mem_reach_self _)
      symbols := fun n x hx => ?_
      declaredTypes := h.declaredTypes
      signatures := h.signatures
      resolvedTypes := fun n x hx => ?_
      members := h.members
      labels := h.labels
      isComplete := fun herrors n hn =>
        hb.isComplete_analyze hfresh hblank hcoherent hsound herrors hn }
  · have hs := h.library.symbol (symbol?_of_owned? h.library.isApart hs)
    exact hs.mono fun herrors => hb.errors_withTypes hfresh (hsymbols herrors)
  · obtain ⟨m, hm, hid, hknows⟩ := h.symbols n x hx
    exact ⟨m, hm, hid, hknows (hb.isPlainName m hm)⟩
  · obtain ⟨⟨Γ, e, he, hid⟩, hknows⟩ := h.resolvedTypes n x hx
    obtain ⟨hroot, hkind⟩ := Numbered.root_mem_preorder he
    exact ⟨⟨e.tree.root, hroot, e.id_root.trans hid, hkind⟩, hknows⟩

/-- A member, a jump and a pointer type, without errors. -/
theorem isIntact_analyze_member :
    let source := "class A { var next: A*; } fn f(a: A) : A* { goto l; label l; return a.next; }"
    ∃ b, Block.parse ((Lexer.ofVocabulary .standard).tokenize source) source = .ok b ∧
      (b.analyze [.core 0] (.new 1 "unit")).isOk = true ∧
      (b.analyze [.core 0] (.new 1 "unit")).IsIntact b := by
  intro source
  have hok : (Block.parse ((Lexer.ofVocabulary .standard).tokenize source) source).toOption.map
      (fun b => (b.analyze [.core 0] (.new 1 "unit")).isOk) = some true := by
    decide +kernel
  obtain ⟨b, hparse, hok⟩ := exists_of_toOption_map hok
  refine ⟨b, hparse, hok, ?_⟩
  exact isIntact_analyze rfl hparse (List.forall_mem_singleton.2 (.core 0))
    (Library.coherent_core 0) (isFresh_core (by decide) "unit") (Library.isBlank_new 1 "unit")

/-- An analysis without errors is not enough, as long as one below it had errors: the member of a
class has no type there, but the class can be named, and the next library declares a variable of
it. -/
theorem isIntact_analyze_untyped :
    let parse (source : String) := Block.parse ((Lexer.ofVocabulary .standard).tokenize source) source
    ∃ low mid b, parse "class W { var m : Missing; }" = .ok low ∧ parse "var w : W;" = .ok mid ∧
      parse "fn f() { w.m; }" = .ok b ∧
      let below := low.analyze [.core 0] (.new 1 "low")
      let above := mid.analyze [.core 0, below.library] (.new 2 "mid")
      let c := b.analyze [.core 0, above.library] (.new 3 "unit")
      below.errors ≠ [] ∧ above.errors = [] ∧ c.errors = [] ∧ ¬c.IsIntact b := by
  intro parse
  have hruns : ((parse "class W { var m : Missing; }").toOption.bind fun low =>
      (parse "var w : W;").toOption.bind fun mid => (parse "fn f() { w.m; }").toOption.map fun b =>
        let below := low.analyze [.core 0] (.new 1 "low")
        let above := mid.analyze [.core 0, below.library] (.new 2 "mid")
        let c := b.analyze [.core 0, above.library] (.new 3 "unit")
        (!below.errors.isEmpty && above.errors.isEmpty && c.errors.isEmpty &&
          b.tree.preorder.any fun n =>
            n.kind.isExpression && !(c.annotations.resolvedTypes.get? n.id).isSome)) = some true := by
    decide +kernel
  obtain ⟨low, hlow, hruns⟩ := exists_of_toOption_bind hruns
  obtain ⟨mid, hmid, hruns⟩ := exists_of_toOption_bind hruns
  obtain ⟨b, hb, hruns⟩ := exists_of_toOption_map hruns
  refine ⟨low, mid, b, hlow, hmid, hb, ?_⟩
  intro below above c
  obtain ⟨hruns, hany⟩ := Bool.and_eq_true_iff.1 hruns
  obtain ⟨hruns, herrors⟩ := Bool.and_eq_true_iff.1 hruns
  obtain ⟨hbelow, habove⟩ := Bool.and_eq_true_iff.1 hruns
  obtain ⟨n, hn, hnone⟩ := List.any_eq_true.1 hany
  obtain ⟨hkind, hnone⟩ := Bool.and_eq_true_iff.1 hnone
  have herrors : c.errors = [] := List.isEmpty_iff.1 herrors
  refine ⟨fun hnil => ?_, List.isEmpty_iff.1 habove, herrors, fun hintact => ?_⟩
  · rw [show below.errors = [] from hnil] at hbelow
    simp at hbelow
  · have htyped := (hintact.isComplete herrors n hn).resolvedType hkind
    rw [htyped] at hnone
    simp at hnone

end Block

end Sable
