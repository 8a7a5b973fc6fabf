import Sable.Proofs.Analysis.Ambient
import Sable.Proofs.Analysis.Confirming
import Sable.Proofs.Analysis.TakenNames

/-!
# Correctness of the analysis

An analysis against the built-in types reports nothing exactly if the unit is well-formed, and then
it notes for every expression the one type that the rules derive.

## Main statements

* `Library.Portrays.denotes`: a symbol stands for the type of its entity.
* `Block.Regular.errors_eq_nil`: what is reported.
* `Block.analyze_wellFormed`: correctness.
-/
namespace Sable

open Library (core)

/-! ## Types of symbols -/

namespace Library.Portrays

variable {W : World} {G : Entity → SymbolId → Prop} {row : NodeId → Option SymbolId}
  {lib lib₀ : Library} (h : lib.Portrays W G row lib₀) (hG : W.Grounds G lib₀)

include h hG

theorem form? {t : Entity} {x : SymbolId} (hx : lib.Means G row t x) {s : Sketch}
    (hs : W.sketch? t = some s) {shape : Shape} (hshape : s.shape = some shape) :
    ∃ form, lib.form? x = some (s.name, form) ∧ shape.Fits (lib.Means G row) form := by
  have hsymbol := h.symbol? hG hx
  rw [hs] at hsymbol
  generalize hy : lib.symbol? x = y at hsymbol
  cases hsymbol with
  | @some _ symbol hfits =>
    have hform := hfits.shape
    rw [hshape] at hform
    cases htype : symbol.type? with
    | none =>
      rw [htype] at hform
      cases hform
    | some type =>
      rw [htype] at hform
      cases hform with
      | some hform =>
        refine ⟨type.form, ?_, hform⟩
        rw [Library.form?, hy, Option.bind_some, htype, Option.map_some, hfits.name_eq]

omit h hG

mutual

/-- A symbol stands for the type of the entity that it means. -/
theorem denotes (h : lib.Portrays W G row lib₀) (hG : W.Grounds G lib₀) {b : Block}
    (hW : W.Knows b) : {t : Entity} → {τ : Ty} → W.Denotes b t τ →
    ∀ {x : SymbolId}, lib.Means G row t x → lib.Denotes x τ
  | _, _, .builtin hglobal, x, hx => by
    obtain ⟨s, hs, hname, -, hshape⟩ := hW.sketch_builtin hglobal
    obtain ⟨form, hform, hfits⟩ := h.form? hG hx hs hshape
    cases hfits
    exact .builtin (hname ▸ hform)
  | _, _, .classType hd, x, hx => by
    obtain ⟨form, hform, hfits⟩ := h.form? hG hx (hW.sketch_class hd) rfl
    cases hfits
    exact .classType hform
  | _, _, .pointer ht, x, hx => by
    obtain ⟨s, hs, hshape⟩ := Option.bind_eq_some_iff.1 (hW.shape_pointerTo _)
    obtain ⟨form, hform, hfits⟩ := h.form? hG hx hs hshape
    cases hfits with
    | pointer hp => exact .pointer hform (h.denotes hG hW ht hp)
  | _, _, .function hts ht, x, hx => by
    obtain ⟨s, hs, hshape⟩ := Option.bind_eq_some_iff.1 (hW.shape_functionType _ _)
    obtain ⟨form, hform, hfits⟩ := h.form? hG hx hs hshape
    cases hfits with
    | function hps hr => exact .function hform (h.denoteAll hG hW hts hps) (h.denotes hG hW ht hr)

theorem denoteAll (h : lib.Portrays W G row lib₀) (hG : W.Grounds G lib₀) {b : Block}
    (hW : W.Knows b) : {ts : List Entity} → {τs : List Ty} →
    W.DenoteAll b ts τs → ∀ {xs : List SymbolId}, List.Forall₂ (lib.Means G row) ts xs →
    lib.DenoteAll xs τs
  | _, _, .nil, _, .nil => .nil
  | _, _, .cons ht hts, _, .cons hx hxs => .cons (h.denotes hG hW ht hx) (h.denoteAll hG hW hts hxs)

end

end Library.Portrays

namespace Block

variable {b : Block} {k id : LibraryId}

/-! ## Errors -/

theorem isPlainName_declaration (hb : b.Regular) {d : Declaration} (hd : d ∈ b.declarations) :
    IsPlainName d.name.name := by
  have hroot : d.tree.root ∈ b.tree.preorder := by
    refine preorder_subset_of_mem hd ?_
    cases h : d.tree with
    | node n ts => exact List.mem_cons_self
  refine hb.isPlainName _ hroot d.name ?_
  cases d <;> simp [Declaration.tree, ClassDecl.tree, FunctionDecl.tree, VariableDecl.tree,
    Declaration.name, Head.names]

/-- Names are a unit's own if they are different and none is that of a built-in type. -/
theorem Regular.hasOwnNames_core (hb : b.Regular) : b.HasOwnNames [core k] ↔
    (BuiltinType.all.map BuiltinType.name ++ b.declarations.map fun d => d.name.name).Nodup := by
  have hbuiltin : (BuiltinType.all.map BuiltinType.name).Nodup := by decide
  rw [List.nodup_append', and_iff_right hbuiltin]
  constructor
  · rintro ⟨hnodup, hnew⟩
    refine ⟨hnodup, fun name hname hmem => ?_⟩
    obtain ⟨t, -, rfl⟩ := List.mem_map.1 hname
    obtain ⟨d, hd, heq⟩ := List.mem_map.1 hmem
    have hnone := hnew d hd _ (List.mem_singleton_self _)
    rw [heq, Library.core_global?_builtin] at hnone
    exact Option.some_ne_none _ hnone
  · rintro ⟨hnodup, hdisjoint⟩
    refine ⟨hnodup, fun d hd dep hdep => ?_⟩
    obtain rfl := List.mem_singleton.1 hdep
    by_contra hne
    obtain ⟨x, hx⟩ := Option.ne_none_iff_exists'.1 hne
    obtain ⟨t, ht⟩ := Library.core_global?_of_isPlainName (isPlainName_declaration hb hd) hx
    have hall : t ∈ BuiltinType.all := by cases t <;> decide
    refine hdisjoint (List.mem_map_of_mem (f := BuiltinType.name) hall) ?_
    rw [← ht]
    exact List.mem_map_of_mem (f := fun d => d.name.name) hd

/-- Inside of classes and functions no name is taken exactly if all names are different. -/
theorem takenInside_eq_nil : b.declarations.flatMap Declaration.takenInside = [] ↔
    (∀ d ∈ b.classes, (d.members.map fun m => m.name.name).Nodup) ∧
      ∀ d ∈ b.allFunctions, (d.locals.map fun l => l.name.name).Nodup := by
  have hperm := b.takenInside_perm
  rw [← List.perm_nil, hperm.congr_left, List.perm_nil, List.append_eq_nil_iff,
    List.flatMap_eq_nil_iff, List.flatMap_eq_nil_iff]
  simp only [FunctionDecl.takenLocals, takenNames_eq_nil, List.map_map]
  simp [Function.comp_def]

/-- Nothing is reported exactly if the unit is well-formed. -/
theorem Regular.errors_eq_nil (hb : b.Regular) (hid : k ≠ id) (name : String) :
    (b.analyze [core k] (.new id name)).errors = [] ↔ b.WellFormed := by
  have hmodels := World.models_around_of_regular (Library.isUnused_core hid) hb name
  have htaken : ∀ taken, Declaration.listTaken taken b.declarations = [] ↔
      Sable.takenNames taken (b.values.map Member.name) = [] ∧
        b.declarations.flatMap Declaration.takenInside = [] := fun taken => by
    rw [← List.perm_nil, (Declaration.listTaken_perm taken b.declarations).congr_left,
      List.perm_nil, List.append_eq_nil_iff]
    rfl
  rw [hmodels.errors_analyze_of_regular hb, List.append_eq_nil_iff, List.append_eq_nil_iff,
    List.append_eq_nil_iff, hb.unknown_requests_eq_nil, sameNames, sameNames, List.map_eq_nil_iff,
    List.map_eq_nil_iff, htaken, takenInside_eq_nil]
  have hnames : b.HasOwnNames [core k] ↔ _ := HasOwnNames.iff_takenNames
  have hchecks : b.HasOwnNames [core k] →
      (∀ d ∈ b.classes, (d.members.map fun m => m.name.name).Nodup) →
      (∀ t ∈ b.writtenTypes, t.IsKnown b) →
      ((b.checks.flatMap fun k' => ((World.around [core k] b).check k').errors) = [] ↔
        ∀ k' ∈ b.checks, k'.Holds b) := by
    intro hown hmembers hknown
    have hW := World.knows_around hb hown hmembers hknown
    have hconfirms : ∀ k' ∈ b.checks, _ := fun k' hk' =>
      hW.confirms_check hb (Block.relies_checks hW.offers k' hk')
    rw [List.flatMap_eq_nil_iff]
    exact ⟨fun h k' hk' => (hconfirms k' hk').sound (World.isWithin_around hb) (h k' hk'),
      fun h k' hk' => (hconfirms k' hk').errors_eq (h k' hk')⟩
  constructor
  · rintro ⟨⟨⟨hclasses, hknown⟩, hvalues, hmembers, hlocals⟩, herrors⟩
    have hown := hnames.2 ⟨hclasses, hvalues⟩
    exact ⟨hb.hasOwnNames_core.1 hown, hmembers, hlocals, hknown,
      (hchecks hown hmembers hknown).1 herrors⟩
  · rintro ⟨hdeclarations, hmembers, hlocals, hknown, hholds⟩
    have hown : b.HasOwnNames [core k] := hb.hasOwnNames_core.2 hdeclarations
    obtain ⟨hclasses, hvalues⟩ := hnames.1 hown
    exact ⟨⟨⟨hclasses, hknown⟩, hvalues, hmembers, hlocals⟩,
      (hchecks hown hmembers hknown).2 hholds⟩

/-! ## Types of expressions -/

/-- In a well-formed unit every expression has one type, and the symbol that is noted for it stands
for this type. -/
theorem WellFormed.resolvedType (hwell : b.WellFormed) (hb : b.Regular) (hid : k ≠ id)
    (name : String) : ∀ n ∈ b.tree.expressions, ∃ x τ,
      (b.analyze [core k] (.new id name)).annotations.resolvedTypes.get? n.id = some x ∧
      ∀ σ, (b.Derives n.id σ ↔ σ = τ) ∧
        ((b.analyze [core k] (.new id name)).library.Denotes x σ ↔ σ = τ) := by
  intro n hn
  have hmodels := World.models_around_of_regular (Library.isUnused_core hid) hb name
  have hW := World.knows_around hb (hb.hasOwnNames_core (k := k).2 hwell.nodup_declarations)
    hwell.nodup_members hwell.isKnown
  rw [← b.map_root_exprs] at hn
  obtain ⟨e, he, rfl⟩ := List.mem_map.1 hn
  obtain ⟨τ, hτ⟩ := exists_hasType hwell.holds e he
  have hdecides := hW.decides_of_mem_exprs hb he
  obtain ⟨t, ht, hanswer⟩ := hdecides.finds hτ
  have hnoted := hmodels.resolvedType_analyze he
  rw [World.type?, hanswer, Found.answer_pure] at hnoted
  rw [Expr.id_root]
  generalize hx : (b.analyze [core k] (.new id name)).annotations.resolvedTypes.get? e.2.id = x at hnoted
  cases hnoted with
  | @some _ x hmeans =>
    have hreflects := hmodels.reports_analyze.reflects
    have hdenotes := hreflects.portrays.denotes hmodels.grounds hW ht hmeans
    refine ⟨x, τ, rfl, fun σ => ⟨⟨?_, ?_⟩, fun h => h.unique hdenotes, fun h => h ▸ hdenotes⟩⟩
    · rintro ⟨Γ, e', he', hid', hσ⟩
      obtain rfl := hb.exprs_inj he' he hid'
      obtain ⟨t', ht', hanswer'⟩ := hdecides.finds hσ
      obtain rfl := Option.some.inj (congrArg Found.answer (hanswer'.symm.trans hanswer))
      exact ht'.unique hW _ ht
    · rintro rfl
      exact ⟨e.1, e.2, he, rfl, hτ⟩

/-- An analysis of a parsed unit against the built-in types decides whether the unit is well-formed.
If it is, the symbol that is noted for an expression stands for the type of the expression, which is
the only one that the rules derive. -/
theorem analyze_wellFormed {lexer : Lexer} (hlexer : lexer.vocabulary = .standard) {source : String}
    (hparse : Block.parse (lexer.tokenize source) source = .ok b) (hid : k ≠ id) (name : String) :
    ((b.analyze [.core k] (.new id name)).errors = [] ↔ b.WellFormed) ∧
    (b.WellFormed → ∀ n ∈ b.tree.expressions, ∃ x τ,
      (b.analyze [.core k] (.new id name)).annotations.resolvedTypes.get? n.id = some x ∧
      ∀ σ, (b.Derives n.id σ ↔ σ = τ) ∧
        ((b.analyze [.core k] (.new id name)).library.Denotes x σ ↔ σ = τ)) := by
  have hb := regular_of_parse hlexer hparse
  exact ⟨hb.errors_eq_nil hid name, fun hwell => hwell.resolvedType hb hid name⟩

/-- A function that returns what its parameter points to. -/
theorem analyze_wellFormed_deref :
    let source := "fn f(a: Byte*): Byte { return *a; }"
    ∃ b, Block.parse ((Lexer.ofVocabulary .standard).tokenize source) source = .ok b ∧
      b.WellFormed ∧ b.tree.expressions.length = 2 ∧ ∀ n ∈ b.tree.expressions, ∃ x τ,
        (b.analyze [.core 0] (.new 1 "unit")).annotations.resolvedTypes.get? n.id = some x ∧
        ∀ σ, (b.Derives n.id σ ↔ σ = τ) ∧
          ((b.analyze [.core 0] (.new 1 "unit")).library.Denotes x σ ↔ σ = τ) := by
  intro source
  have hid : (0 : LibraryId) ≠ 1 := by decide
  have hfound : ((Block.parse ((Lexer.ofVocabulary .standard).tokenize source) source).toOption.map
      fun b => ((b.analyze [.core 0] (.new 1 "unit")).errors.isEmpty, b.tree.expressions.length)) =
        some (true, 2) := by decide +kernel
  obtain ⟨b, hparse, hfound⟩ := exists_of_toOption_map hfound
  rw [Prod.mk.injEq, List.isEmpty_iff] at hfound
  obtain ⟨hcorrect, htypes⟩ := analyze_wellFormed rfl hparse hid "unit"
  have hwell := hcorrect.1 hfound.1
  exact ⟨b, hparse, hwell, hfound.2, htypes hwell⟩

end Block

end Sable
