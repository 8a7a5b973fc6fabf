import Sable.Proofs.Analysis.Surrounding
import Sable.Proofs.Diagnostic

/-!
# The order of declarations

The order in which a unit declares its classes, functions and variables does not matter to an
analysis, if their names are different from one another and from the names that dependencies
publish: in another order there are the same errors, and expressions have types of the same name.
Symbols and interned types have other numbers then, but they stand for the same.

## Main definitions

* `Block.IsReordered`: a unit with the declarations in another order.

## Main statements

* `Block.analyze_reordered`: the order does not matter.
-/
namespace Sable

open Library (reachAll)

theorem lookup_perm {α β : Type} [BEq α] [LawfulBEq α] {es es' : List (α × β)}
    (hperm : es.Perm es') (hnodup : (es.map Prod.fst).Nodup) (k : α) : es.lookup k = es'.lookup k := by
  have hnodup' := (hperm.map Prod.fst).nodup_iff.1 hnodup
  cases h : es.lookup k with
  | some v => exact (lookup_of_mem hnodup' (hperm.mem_iff.1 (mem_of_lookup h))).symm
  | none =>
    cases h' : es'.lookup k with
    | none => rfl
    | some v =>
      rw [lookup_of_mem hnodup (hperm.mem_iff.2 (mem_of_lookup h'))] at h
      simp at h

theorem findSome?_perm {α β : Type} {f : α → Option β} {xs ys : List α} (hperm : xs.Perm ys)
    (hf : ∀ x ∈ xs, ∀ y ∈ xs, (f x).isSome → (f y).isSome → f x = f y) :
    xs.findSome? f = ys.findSome? f := by
  have hsome {zs zs' : List α} (hzs : zs ⊆ xs) (hsubset : zs ⊆ zs') (hzs' : zs' ⊆ xs) {v : β}
      (hv : zs.findSome? f = some v) : zs'.findSome? f = some v := by
    obtain ⟨x, hx, hv⟩ := List.exists_of_findSome?_eq_some hv
    have hx_some : (f x).isSome := Option.isSome_of_eq_some hv
    obtain ⟨w, hw⟩ := Option.isSome_iff_exists.1
      (List.findSome?_isSome_iff.2 ⟨x, hsubset hx, hx_some⟩)
    obtain ⟨y, hy, hy_eq⟩ := List.exists_of_findSome?_eq_some hw
    rw [hw, ← hy_eq, ← hv, hf y (hzs' hy) x (hzs hx) (Option.isSome_of_eq_some hy_eq) hx_some]
  refine Option.ext fun v => ⟨hsome (List.Subset.refl xs) hperm.subset hperm.symm.subset, ?_⟩
  exact hsome hperm.symm.subset hperm.symm.subset (List.Subset.refl xs)

/-! ## Units -/

namespace Block

/-- The unit with its declarations in another order. -/
structure IsReordered (b b' : Block) : Prop where
  place_eq : b'.place = b.place
  perm : b.declarations.Perm b'.declarations

namespace IsReordered

variable {b b' : Block} (h : b.IsReordered b')

include h

theorem classes_perm : b.classes.Perm b'.classes := by
  rw [classes_eq, classes_eq]
  exact h.perm.filterMap _

theorem values_perm : b.values.Perm b'.values := h.perm.flatMap_right _

theorem allFunctions_perm : b.allFunctions.Perm b'.allFunctions := h.perm.flatMap_right _

theorem checks_perm : b.checks.Perm b'.checks := h.perm.flatMap_right _

theorem exprs_perm : b.exprs.Perm b'.exprs := h.checks_perm.flatMap_right _

theorem preorder_perm : b.tree.preorder.Perm b'.tree.preorder := by
  rw [tree, tree, Tree.preorder, Tree.preorder, Tree.preorders_eq_flatMap, Tree.preorders_eq_flatMap,
    h.place_eq, List.flatMap_map, List.flatMap_map]
  exact (h.perm.flatMap_right _).cons _

theorem hasStar_iff : b.HasStar ↔ b'.HasStar :=
  exists_congr fun _ => and_congr_left' h.preorder_perm.mem_iff

theorem canSay_iff {name : String} : b.CanSay name ↔ b'.CanSay name :=
  or_congr_right (and_congr_right' h.hasStar_iff)

theorem named (hb : b.Named) : b'.Named where
  nodup_ids := (h.preorder_perm.map _).nodup_iff.1 hb.nodup_ids
  isPlainName_or_star n hn := hb.isPlainName_or_star n (h.preorder_perm.mem_iff.2 hn)
  ne_empty hstar n hn := hb.ne_empty (h.hasStar_iff.2 hstar) n (h.preorder_perm.mem_iff.2 hn)

/-- If names are different, they mean the same. -/
theorem namedClass?_eq (hnodup : (b.entries.map Prod.fst).Nodup) (star? : Option Entity)
    (name : String) : b.namedClass? star? name = b'.namedClass? star? name := by
  refine findSome?_perm h.classes_perm fun d hd e he hname hname' => ?_
  rw [entries, List.map_append, List.map_map] at hnodup
  have hname : d.name.name = name := by
    by_contra hne
    rw [if_neg hne] at hname
    cases hname
  have hname' : e.name.name = name := by
    by_contra hne
    rw [if_neg hne] at hname'
    cases hname'
  rw [List.inj_on_of_nodup_map hnodup.of_append_left hd he (hname.trans hname'.symm)]

theorem denoted?_eq (hnodup : (b.entries.map Prod.fst).Nodup) (star? : Option Entity)
    (name : String) : b.denoted? star? name = b'.denoted? star? name := by
  have hvalues : ((b.values.map Member.entry).map Prod.fst).Nodup := by
    rw [entries, List.map_append] at hnodup
    exact hnodup.of_append_right
  rw [denoted?, denoted?, h.namedClass?_eq hnodup, lookup_perm (h.values_perm.map _) hvalues]

end IsReordered

/-- The names of a unit are those of its classes and those of its variables and functions. -/
theorem map_name_declarations_perm (b : Block) : (b.declarations.map Declaration.name).Perm
    (b.classes.map ClassDecl.name ++ b.values.map Member.name) := by
  rw [classes_eq, values]
  induction b.declarations with
  | nil => exact .nil
  | cons d ds ih =>
    match d with
    | .classDecl d => exact ih.cons d.name
    | .function d | .variable d => exact (ih.cons d.name).trans List.perm_middle.symm

end Block

/-! ## Names that are not taken -/

namespace ClassDecl

variable {star : StarClass} {taken : String → Bool} {ds : List ClassDecl}

theorem errors_of_not_taken {d : ClassDecl} (h : taken d.name.name = false) :
    d.errors star taken = d.errors star fun _ => false := by
  rw [errors.eq_def, errors.eq_def]
  split
  · next hname =>
    rw [hname] at h
    cases star <;> simp [takenNames, hname, h]
  · simp [takenNames, h]

/-- Classes of different names have nothing to do with one another. -/
theorem listErrors_eq_flatMap (hnodup : ((ds.map ClassDecl.name).map Ident.name).Nodup)
    (h : ∀ d ∈ ds, taken d.name.name = false) :
    listErrors star taken ds = ds.flatMap fun d => d.errors star fun _ => false := by
  induction ds generalizing taken with
  | nil => rfl
  | cons d ds ih =>
    rw [List.map_cons, List.map_cons, List.nodup_cons] at hnodup
    rw [List.forall_mem_cons] at h
    rw [listErrors, errors_of_not_taken h.1, ih hnodup.2 fun e he => ?_, List.flatMap_cons]
    have hne : e.name.name ≠ d.name.name := fun heq =>
      hnodup.1 (heq ▸ List.mem_map_of_mem (List.mem_map_of_mem he))
    rw [h.2 e he, beq_eq_false_iff_ne.2 hne, Bool.and_false, Bool.or_false]

end ClassDecl

namespace Declaration

variable {star : StarClass} {taken members : String → Bool}

theorem name_of_mem_values {d : Declaration} {m : Member} (hm : m ∈ d.values) :
    m.name = d.name := by
  match d with
  | .classDecl _ => simp [values] at hm
  | .function _ | .variable _ => rw [List.mem_singleton.1 hm, name, Member.name]

theorem name_of_class? {d : Declaration} {e : ClassDecl} (he : e ∈ d.class?) : e.name = d.name := by
  match d with
  | .classDecl _ => rw [← Option.some.inj he, name]
  | .function _ | .variable _ => cases he

theorem errors_of_not_taken {d : Declaration} (h : ∀ m ∈ d.values, taken m.name.name = false)
    (hmembers : ∀ e ∈ d.class?, e.name.name = "*" → members = fun _ => false) :
    d.errors star taken members = d.errors star (fun _ => false) fun _ => false := by
  match d with
  | .classDecl e =>
    rw [errors, errors]
    split
    · next hname => rw [hmembers e rfl hname]
    · rfl
  | .function d | .variable d =>
    have htaken := h _ (List.mem_singleton_self _)
    rw [errors_of_class?_eq_none rfl, errors_of_class?_eq_none rfl]
    simp [Declaration.taken, Member.listTaken, takenNames, htaken]

theorem starMembers_eq_nil {d : Declaration} (h : d.name.name ≠ "*") : d.starMembers = [] := by
  match d with
  | .classDecl _ => exact if_neg h
  | .function _ | .variable _ => rfl

/-- Declarations of different names have nothing to do with one another. -/
theorem listErrors_eq_flatMap {ds : List Declaration} (hnodup : (ds.map fun d => d.name.name).Nodup)
    (h : ∀ d ∈ ds, ∀ m ∈ d.values, taken m.name.name = false)
    (hmembers : ∀ d ∈ ds, ∀ e ∈ d.class?, e.name.name = "*" → members = fun _ => false) :
    listErrors star taken members ds =
      ds.flatMap fun d => d.errors star (fun _ => false) fun _ => false := by
  induction ds generalizing taken members with
  | nil => rfl
  | cons d ds ih =>
    rw [List.map_cons, List.nodup_cons] at hnodup
    rw [List.forall_mem_cons] at h hmembers
    rw [listErrors, errors_of_not_taken h.1 hmembers.1, ih hnodup.2 (fun e he m hm => ?_)
      (fun e he c hc hname => ?_), List.flatMap_cons]
    · have hne : ∀ m' ∈ d.values, m'.name.name ≠ m.name.name := fun m' hm' heq => by
        rw [name_of_mem_values hm, name_of_mem_values hm'] at heq
        exact hnodup.1 (heq ▸ List.mem_map_of_mem he)
      simpa [h.2 e he m hm] using hne
    · have hother : d.starMembers = [] := starMembers_eq_nil fun hname' => by
        refine hnodup.1 (List.mem_map.2 ⟨e, he, ?_⟩)
        rw [← name_of_class? hc, hname, hname']
      simp only [hother, hmembers.2 e he c hc hname, List.map_nil, List.not_mem_nil, decide_false,
        Bool.or_false]

end Declaration

/-! ## Worlds -/

namespace World

variable {b b' : Block} {deps : List Library} {k : LibraryId}

/-- The world of a unit is that of the unit in another order. -/
theorem models_reordered (hk : Library.IsUnused k deps) (hb : b.Named)
    (hdeps : b.HasStar → Library.LinkedNames deps) (h : b.IsReordered b')
    (hnodup : (b.entries.map Prod.fst).Nodup) (name : String) :
    (around deps b).Models (Stands k) b' deps (.new k name) :=
  have hmodels := models_around hk hb hdeps name
  have hlibrary : (b.atStart deps (.new k name)).library =
      (b'.atStart deps (.new k name)).library := by
    rw [library_atStart_new, library_atStart_new]
  { hmodels with
    named := h.named hb
    globals_eq := hlibrary ▸ hmodels.globals_eq
    grounds := hlibrary ▸ hmodels.grounds
    describes :=
      ⟨fun d hd => hmodels.describes.classes d (h.classes_perm.mem_iff.2 hd),
        fun d hd => hmodels.describes.members d (h.perm.mem_iff.2 hd),
        fun d hd => hmodels.describes.locals d (h.allFunctions_perm.mem_iff.2 hd)⟩
    apart := fun n hn => hmodels.apart n (h.preorder_perm.mem_iff.2 hn)
    published := fun hname => hmodels.published (h.canSay_iff.2 hname)
    global?_eq := fun hname hnone => by
      rw [hmodels.global?_eq (h.canSay_iff.2 hname) hnone, h.denoted?_eq hnodup]
    star := fun hstar =>
      have hknows := hmodels.star (h.hasStar_iff.2 hstar)
      have hallows := hknows.allowsStar
      { hknows with
        allowsStar := ⟨hallows.empty, hallows.library_ne, hallows.named, hallows.published⟩
        name_ne := fun hname => hknows.name_ne (h.canSay_iff.2 hname) } }

end World

/-! ## Analyses -/

namespace Block

variable {b b' : Block} {deps : List Library} {k k' : LibraryId}

/-- Names of the unit are different from one another and from what dependencies publish. -/
structure HasOwnNames (b : Block) (deps : List Library) : Prop where
  nodup : (b.declarations.map fun d => d.name.name).Nodup
  isNew : ∀ d ∈ b.declarations, ∀ dep ∈ deps, dep.global? d.name.name = none

namespace HasOwnNames

variable (h : b.HasOwnNames deps)

include h

theorem nodup_names :
    ((b.classes.map ClassDecl.name ++ b.values.map Member.name).map Ident.name).Nodup := by
  refine (b.map_name_declarations_perm.map Ident.name).nodup_iff.1 ?_
  rw [List.map_map]
  exact h.nodup

theorem nodup_entries : (b.entries.map Prod.fst).Nodup := by
  have hentries : b.entries.map Prod.fst =
      (b.classes.map ClassDecl.name ++ b.values.map Member.name).map Ident.name := by
    simp [entries, ClassDecl.entry, Member.entry, Function.comp_def]
  rw [hentries]
  exact h.nodup_names

theorem isSome_published {name : Ident}
    (hname : name ∈ b.classes.map ClassDecl.name ++ b.values.map Member.name) :
    (deps.findSome? (·.global? name.name)).isSome = false := by
  obtain ⟨d, hd, rfl⟩ := List.mem_map.1 (b.map_name_declarations_perm.mem_iff.2 hname)
  rw [Option.isSome_eq_false_iff, Option.isNone_iff_eq_none, List.findSome?_eq_none_iff]
  exact h.isNew d hd

/-- No name of the unit is taken. -/
theorem takenNames_classes : Sable.takenNames (fun n => (deps.findSome? (·.global? n)).isSome)
    (b.classes.map ClassDecl.name) = [] := by
  have hnodup := h.nodup_names
  rw [List.map_append, List.nodup_append'] at hnodup
  exact takenNames_eq_nil.2
    ⟨fun name hname => h.isSome_published (List.mem_append_left _ hname), hnodup.1⟩

theorem takenNames_values : Sable.takenNames (fun n => (deps.findSome? (·.global? n)).isSome ||
    decide (n ∈ (b.classes.map ClassDecl.name).map Ident.name)) (b.values.map Member.name) = [] := by
  have hnodup := h.nodup_names
  rw [List.map_append, List.nodup_append'] at hnodup
  refine takenNames_eq_nil.2 ⟨fun name hname => ?_, hnodup.2.1⟩
  rw [h.isSome_published (List.mem_append_right _ hname), Bool.false_or, decide_eq_false_iff_not]
  exact fun hclass => hnodup.2.2 hclass (List.mem_map_of_mem hname)

theorem reordered (hperm : b.IsReordered b') : b'.HasOwnNames deps :=
  ⟨(hperm.perm.map _).nodup_iff.1 h.nodup, fun d hd => h.isNew d (hperm.perm.mem_iff.2 hd)⟩

/-- All errors of an analysis, if the names of the unit are its own. No declaration matters to what
is reported of another one. -/
theorem errors_eq {W : World} {G : Entity → SymbolId → Prop} {target : Library}
    (hmodels : W.Models G b deps target) : (b.analyze deps target).errors =
      (b.classes.flatMap fun d =>
        d.errors (b.atStart deps target).library.starClass fun _ => false) ++
      (b.declarations.flatMap Declaration.requests).flatMap W.unknown ++
      (b.declarations.flatMap fun d =>
        d.errors (b.atStart deps target).library.starClass (fun _ => false) fun _ => false) ++
      b.checks.flatMap fun k => (W.check k).errors := by
  have hnodup := h.nodup_names
  rw [List.map_append, List.nodup_append'] at hnodup
  obtain ⟨hclasses, hvalues, hdisjoint⟩ := hnodup
  rw [hmodels.errors_analyze, ClassDecl.listErrors_eq_flatMap hclasses fun d hd =>
    h.isSome_published (List.mem_append_left _ (List.mem_map_of_mem hd)),
    Declaration.listErrors_eq_flatMap h.nodup (fun d hd m hm => ?_) fun _ _ _ _ _ => rfl]
  have hname : m.name ∈ b.values.map Member.name :=
    List.mem_map_of_mem (List.mem_flatMap.2 ⟨d, hd, hm⟩)
  rw [h.isSome_published (List.mem_append_right _ hname), Bool.false_or, Option.isSome_eq_false_iff,
    Option.isNone_iff_eq_none, Option.eq_none_iff_forall_ne_some]
  intro t ht
  obtain ⟨e, he, heq, -⟩ := exists_of_namedClass? ht
  exact hdisjoint (List.mem_map_of_mem (List.mem_map_of_mem he)) (heq ▸ List.mem_map_of_mem hname)

end HasOwnNames

namespace Named

variable (hb : b.Named) (hdeps : b.HasStar → Library.LinkedNames deps)

include hb hdeps

/-- Two analyses of a unit, in two orders, report the same. -/
theorem errors_reordered (hperm : b.IsReordered b') (hnames : b.HasOwnNames deps)
    (hk : Library.IsUnused k deps) (hk' : Library.IsUnused k' deps) (name name' : String) :
    (b.analyze deps (.new k name)).errors.Perm (b'.analyze deps (.new k' name')).errors := by
  have hmodels := World.models_around hk hb hdeps name
  have hmodels' := World.models_reordered hk' hb hdeps hperm hnames.nodup_entries name'
  rw [hnames.errors_eq hmodels, (hnames.reordered hperm).errors_eq hmodels',
    World.starClass_atStart_eq b' b hk' hk name' name]
  refine .append (.append (.append ?_ ?_) ?_) ?_
  · exact hperm.classes_perm.flatMap_right _
  · exact (hperm.perm.flatMap_right _).flatMap_right _
  · exact hperm.perm.flatMap_right _
  · exact hperm.checks_perm.flatMap_right _

/-- So the expressions have types of the same name. -/
theorem nameOf_reordered (hperm : b.IsReordered b') (hnames : b.HasOwnNames deps)
    (hk : Library.IsUnused k deps) (hk' : Library.IsUnused k' deps) (name name' : String)
    {n : Node} (hn : n ∈ b.tree.expressions) :
    ((b.analyze deps (.new k name)).annotations.resolvedTypes.get? n.id).map
        (b.analyze deps (.new k name)).library.nameOf =
      ((b'.analyze deps (.new k' name')).annotations.resolvedTypes.get? n.id).map
        (b'.analyze deps (.new k' name')).library.nameOf := by
  have hmodels := World.models_around hk hb hdeps name
  have hmodels' := World.models_reordered hk' hb hdeps hperm hnames.nodup_entries name'
  rw [← b.map_root_exprs] at hn
  obtain ⟨e, he, rfl⟩ := List.mem_map.1 hn
  rw [Expr.id_root, hmodels.nameOf_resolvedType he,
    hmodels'.nameOf_resolvedType (hperm.exprs_perm.mem_iff.1 he)]

end Named

/-- The order of the declarations of a parsed unit does not matter, if their names are different and
new. Analyses into new libraries report the same errors, and every expression has a type of the same
name. In vocabularies without a sign that begins with a star, a star may be a name of the unit. It
is the name of a pointer type, too, so that the names in the dependencies matter; they are right in
libraries of one workspace. -/
theorem analyze_reordered {lexer : Lexer} {source : String}
    (hparse : Block.parse (lexer.tokenize source) source = .ok b) (hperm : b.IsReordered b')
    (hnames : b.HasOwnNames deps) (hdeps : b.HasStar → Library.StandTogether deps)
    (hk : Library.IsUnused k deps) (hk' : Library.IsUnused k' deps) (name name' : String) :
    (b.analyze deps (.new k name)).errors.Perm (b'.analyze deps (.new k' name')).errors ∧
      ∀ n ∈ b.tree.expressions,
        ((b.analyze deps (.new k name)).annotations.resolvedTypes.get? n.id).map
            (b.analyze deps (.new k name)).library.nameOf =
          ((b'.analyze deps (.new k' name')).annotations.resolvedTypes.get? n.id).map
            (b'.analyze deps (.new k' name')).library.nameOf :=
  have hb := named_of_parse hparse
  have hnamed := fun hstar => (hdeps hstar).linkedNames
  ⟨hb.errors_reordered hnamed hperm hnames hk hk' name name',
    fun _ hn => hb.nameOf_reordered hnamed hperm hnames hk hk' name name' hn⟩

/-- A class that is used before it is declared, with an error in the function that uses it, and a
class whose name is a star. -/
theorem analyze_reordered_reverse :
    let lexer := Lexer.ofVocabulary Lexer.starless
    let source := "fn get(a: A): Integer { return a.c; } class A { var b: A; } " ++
      "class * { var b: A; } var g: Integer = 1;"
    ∃ b, Block.parse (lexer.tokenize source) source = .ok b ∧
      (b.declarations.map fun d => d.name.name) = ["get", "A", "*", "g"] ∧
      (b.analyze [.core 0] (.new 1 "unit")).errors.Perm
        ({ b with declarations := b.declarations.reverse }.analyze [.core 0] (.new 2 "unit")).errors := by
  intro lexer source
  have hnames : (Block.parse (lexer.tokenize source) source).toOption.map
      (fun b => b.declarations.map fun d => d.name.name) = some ["get", "A", "*", "g"] := by
    decide +kernel
  obtain ⟨b, hparse, hdeclared⟩ := exists_of_toOption_map hnames
  have hown : b.HasOwnNames [.core 0] := by
    refine ⟨hdeclared ▸ by decide, fun d hd dep hdep => ?_⟩
    obtain rfl := List.mem_singleton.1 hdep
    have hmem : d.name.name ∈ ["get", "A", "*", "g"] := hdeclared ▸ List.mem_map_of_mem hd
    have hnew : ∀ n ∈ ["get", "A", "*", "g"], (Library.core 0).global? n = none := by decide
    exact hnew _ hmem
  have hperm : b.IsReordered { b with declarations := b.declarations.reverse } :=
    ⟨rfl, (List.reverse_perm _).symm⟩
  have hone : Library.IsUnused 1 [.core 0] := Library.isUnused_core (by decide)
  have htwo : Library.IsUnused 2 [.core 0] := Library.isUnused_core (by decide)
  have hdeps : b.HasStar → Library.StandTogether [.core 0] := fun _ => Library.standTogether_core
  exact ⟨b, hparse, hdeclared,
    (analyze_reordered hparse hperm hown hdeps hone htwo "unit" "unit").1⟩

end Block

end Sable
