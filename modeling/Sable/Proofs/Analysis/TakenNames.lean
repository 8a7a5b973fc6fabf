import Sable.Proofs.Analysis.Phases
import Sable.Proofs.Analysis.Pointing
import Sable.Proofs.Typing.Parsed

/-!
# Names that are taken

A name is declared in the unit, in a class or in a function. If it is taken there, this is
reported, once for each declaration; nothing else is reported as a name that is taken.

## Main definitions

* `Block.takenNames`: the declared names of a unit that are taken when their turn comes.

## Main statements

* `Block.sameNames_analyze`: these are the names that an analysis reports as taken.
-/
namespace Sable

/-- The declared names that are taken when their turn comes: of classes, then of the variables and
functions of the unit, of the members of each class, and of the locals of each function. -/
def Block.takenNames (b : Block) (published : String → Bool) : List Ident :=
  Sable.takenNames published (b.classes.map ClassDecl.name) ++
    Sable.takenNames (fun n => published n || decide (n ∈ b.classes.map fun d => d.name.name))
      (b.values.map Member.name) ++
    b.classes.flatMap (fun d => Sable.takenNames (fun _ => false) (d.members.map Member.name)) ++
    b.allFunctions.flatMap FunctionDecl.takenLocals

theorem filter_isSameName_sameNames (names : List Ident) :
    (sameNames names).filter SemanticError.isSameName = sameNames names :=
  List.filter_eq_self.2 fun _ he => isSameName_of_mem_sameNames he

namespace Block

variable {b : Block} {deps : List Library} {target : Library}

theorem takenInside_perm (b : Block) : (b.declarations.flatMap Declaration.takenInside).Perm
    (b.classes.flatMap (fun d => Sable.takenNames (fun _ => false) (d.members.map Member.name)) ++
      b.allFunctions.flatMap FunctionDecl.takenLocals) := by
  rw [allFunctions, classes_eq]
  induction b.declarations with
  | nil => simp
  | cons d ds ih =>
    rw [List.flatMap_cons, List.flatMap_cons, Declaration.takenInside]
    have hcons : (d :: ds).filterMap Declaration.class? =
        d.class?.toList ++ ds.filterMap Declaration.class? := by
      cases d <;> simp [Declaration.class?, List.filterMap_cons]
    rw [hcons, List.flatMap_append, List.flatMap_append]
    exact (ih.append_left _).trans (perm_append_append _ _ _ _)

/-- The names of the unit in front of its variables and functions. -/
theorem Regular.isSome_globals_withTypes (hb : b.Regular) (h : IsFresh deps target)
    (hglobals : (b.atStart deps target).library.globals = .empty) (n : String) :
    ((b.withTypes deps target).globals.get? n).isSome =
      ((deps.findSome? (·.global? n)).isSome ||
        decide (n ∈ b.classes.map fun d => d.name.name)) := by
  have hclasses := hb.declaresClasses h hglobals
  have hdenoted : ∀ ds ⊆ b.classes,
      ((b.withClasses deps target).denoted? (ds.map ClassDecl.entry) n).isSome =
        decide (n ∈ ds.map fun d => d.name.name) := by
    intro ds hds
    induction ds with
    | nil => rfl
    | cons d ds ih =>
      rw [List.cons_subset] at hds
      obtain ⟨x, hx, -⟩ := hclasses.hasMembers d hds.1 (hb.class_ne_star hds.1)
      rw [List.map_cons, Context.denoted?_cons, Option.isSome_or, ih hds.2, ClassDecl.entry, hx]
      by_cases hn : d.name.name = n <;> simp [hn, eq_comm, Ne.symm]
  rw [(hb.finds_withTypes h).globals_eq, (hb.withClasses_spec h).2.2.2, Option.isSome_or,
    hdenoted _ (List.Subset.refl _)]

theorem Regular.sameNames_perm (hb : b.Regular) (h : IsFresh deps target)
    (hglobals : (b.atStart deps target).library.globals = .empty) :
    ((b.analyze deps target).errors.filter SemanticError.isSameName).Perm
      (sameNames (b.takenNames fun n => (deps.findSome? (·.global? n)).isSome)) := by
  have hclasses := (hb.declaresClasses h hglobals).errors_eq
  rw [ClassDecl.listErrors_of_ne fun d hd => hb.class_ne_star hd] at hclasses
  have hstart : ∀ n, (((b.atStart deps target).globals.get? n).isSome) =
      (deps.findSome? (·.global? n)).isSome :=
    fun n => congrArg Option.isSome (Context.get?_globals_start deps target n)
  simp only [hstart] at hclasses
  have htypes : (Analyzing.resolveTypes b.tree).Reports (·.isSameName = false) :=
    Block.reports_resolveTypes (fun _ _ _ => rfl) fun _ _ _ => rfl
  have hchecks : (Analyzing.checkBlock b).Reports (·.isSameName = false) :=
    Analyzing.reports_checkBlock (Tree.liesIn_of_forall (fun _ _ _ he => he) _)
  have heq := (hb.fills h hglobals).errors_eq
  rw [Declaration.listErrors_of_ne fun d hd => hb.class_ne_star (classes_eq (b := b) ▸ hd)] at heq
  simp only [hb.isSome_globals_withTypes h hglobals] at heq
  have hfilter : ((b.analyze deps target).errors.filter SemanticError.isSameName) =
      sameNames (Sable.takenNames (fun n => (deps.findSome? (·.global? n)).isSome)
        (b.classes.map ClassDecl.name)) ++ sameNames (Declaration.listTaken (fun n =>
          (deps.findSome? (·.global? n)).isSome || decide (n ∈ b.classes.map fun d => d.name.name))
          b.declarations) := by
    rw [analyze_eq, hchecks.filter_errors, heq, List.filter_append]
    change ((Analyzing.resolveTypes b.tree).run (b.withClasses deps target)).2.errors.filter _ ++ _ = _
    rw [htypes.filter_errors, hclasses, List.filter_append, filter_isSameName_sameNames,
      filter_isSameName_sameNames]
    rfl
  rw [hfilter, takenNames, List.append_assoc, List.append_assoc, sameNames_append]
  exact (((Declaration.listTaken_perm _ _).trans ((b.takenInside_perm).append_left _)).map
    _).append_left _

/-- What an analysis of a parsed unit reports as taken names. Classes have their turn before the
variables and functions of the unit; a name that a dependency publishes is taken from the start. -/
theorem sameNames_analyze {lexer : Lexer} (hlexer : lexer.vocabulary = .standard) {source : String}
    (hparse : Block.parse (lexer.tokenize source) source = .ok b) {id : LibraryId}
    (hid : ∀ dep ∈ Library.reachAll deps, dep.id ≠ id) (name : String) :
    ((b.analyze deps (.new id name)).errors.filter SemanticError.isSameName).Perm
      (sameNames (b.takenNames fun n => deps.any fun dep => (dep.global? n).isSome)) := by
  have hpublished : ∀ n, (deps.any fun dep => (dep.global? n).isSome) =
      (deps.findSome? (·.global? n)).isSome := fun n => (List.isSome_findSome? ..).symm
  simp only [hpublished]
  exact (regular_of_parse hlexer hparse).sameNames_perm hid (Context.globals_start_new deps id name)

/-- A class that is named as a built-in type, a function as a class, a member as another one, and a
label as a parameter. -/
theorem sameNames_analyze_four_times :
    let source := "class Void {} class A { var x: A; var x: A; } fn A(y: A) { label y; }"
    let published := fun n => [Library.core 0].any fun dep => (dep.global? n).isSome
    ∃ b, Block.parse ((Lexer.ofVocabulary .standard).tokenize source) source = .ok b ∧
      (b.takenNames published).map Ident.name = ["Void", "A", "x", "y"] ∧
      ((b.analyze [.core 0] (.new 1 "unit")).errors.filter SemanticError.isSameName).Perm
        (sameNames (b.takenNames published)) := by
  intro source published
  have hnames : (Block.parse ((Lexer.ofVocabulary .standard).tokenize source) source).toOption.map
      (fun b => (b.takenNames published).map Ident.name) = some ["Void", "A", "x", "y"] := by
    decide +kernel
  have hid : ∀ dep ∈ Library.reachAll [.core 0], dep.id ≠ 1 := by
    simp [Library.reachAll, Library.reach_eq, Library.core_id, Library.core_dependencies]
  obtain ⟨b, hparse, hnames⟩ := exists_of_toOption_map hnames
  exact ⟨b, hparse, hnames, sameNames_analyze rfl hparse hid "unit"⟩

end Block

end Sable
