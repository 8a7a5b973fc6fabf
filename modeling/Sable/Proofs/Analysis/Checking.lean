import Sable.Proofs.Analysis.Integrity
import Sable.Proofs.Analysis.Mirroring
import Sable.Proofs.Analysis.Requesting
import Sable.Proofs.Syntax.Parents

/-!
# What the last phase reports

The errors of the last phase are what the world finds in the checks of the unit, one check after
another. Behind it the type of every expression is noted, if it has one in the world.

## Main definitions

* `Stage.Reports`: these checks are done.

## Main statements

* `World.Models.errors_analyze`: all errors of an analysis.
* `World.Models.resolvedType_analyze`: the types of expressions.
-/
namespace Sable

open Library (Means Portrays Remembers)

/-! ## Written types and results -/

namespace World

variable (W : World)

theorem ofTy?_named (name : String) : W.ofTy? (Ty.named name) = W.typeNamed? name := by
  rw [Ty.named]
  cases h : BuiltinType.ofName? name with
  | none => rw [ofTy?]
  | some t =>
    have hname : t.name = name := by simpa using List.find?_some h
    rw [ofTy?, hname]

theorem ofTy?_pointers (τ : Ty) (depth : Nat) :
    W.ofTy? (τ.pointers depth) = (W.ofTy? τ).map (W.pointers · depth) := by
  induction depth generalizing τ with
  | zero =>
    rw [Ty.pointers]
    cases W.ofTy? τ <;> rfl
  | succ depth ih =>
    rw [Ty.pointers, ih, ofTy?, Option.map_map]
    rfl

/-- What is written and what is derived from it are the same type. -/
theorem ofTy?_ty (t : WrittenType) : W.ofTy? t.ty = W.written? t := by
  rw [WrittenType.ty, ofTy?_pointers, ofTy?_named, written?]

theorem ofTy?_result (d : FunctionDecl) : W.ofTy? d.result = W.result? d.returns := by
  rw [FunctionDecl.result]
  cases d.returns with
  | none => rfl
  | some t => exact W.ofTy?_ty t

end World

namespace Block

variable {b : Block}

/-- A function stands in the unit or in one of its classes. -/
theorem exists_paths_subset {d : FunctionDecl} (hd : d ∈ b.allFunctions) :
    ∃ above, d.tree.paths above ⊆ b.tree.paths [] := by
  obtain ⟨e, he, hd⟩ := exists_member_of_mem_allFunctions hd
  have hdeclaration : e.tree.paths [⟨b.place, .block⟩] ⊆ b.tree.paths [] :=
    Tree.paths_subset_of_mem_children (t := b.tree) [] (List.mem_map_of_mem he)
  match e with
  | .function e =>
    obtain rfl := Member.function.inj (List.mem_singleton.1 hd)
    exact ⟨_, hdeclaration⟩
  | .variable e => exact absurd (List.mem_singleton.1 hd) (by simp)
  | .classDecl e =>
    have hmember : d.tree ∈ e.tree.children := List.mem_map_of_mem hd
    exact ⟨_, List.Subset.trans (Tree.paths_subset_of_mem_children _ hmember) hdeclaration⟩

/-- What stands in the body of a function stands in that function. -/
theorem Numbered.enclosingFunction? (hb : b.Numbered) {d : FunctionDecl} (hd : d ∈ b.allFunctions)
    {n : Node} (hn : n ∈ d.body.tree.preorder) :
    (ParentMap.build b.tree).enclosingFunction? n.id = some d.node := by
  obtain ⟨above, hsubset⟩ := exists_paths_subset hd
  obtain ⟨as, has⟩ := (Tree.mem_preorder_iff (d.node :: above)).1 hn
  have hbody : d.body.tree ∈ d.tree.children := by simp [FunctionDecl.tree, Tree.children]
  have hpath : (n, as) ∈ b.tree.paths [] :=
    hsubset (Tree.paths_subset_of_mem_children above hbody has)
  rw [ParentMap.enclosingFunction?_build hb.nodup_ids hpath,
    Tree.find?_of_mem_paths d.body.tree (fun k hk => ?_) has]
  · simp [FunctionDecl.node, Node.kind, Head.kind]
  · have hinner := d.body.isInner k hk
    simpa [Node.IsInner] using hinner.1

end Block

/-! ## Checks -/

/-- The expressions of a check and their parts. -/
def Check.located (k : Check) : List (Locals × Expr) :=
  k.exprs.flatMap fun e => Stage.located e.1 e.2.parts

theorem Block.exprs_eq (b : Block) : b.exprs = b.checks.flatMap Check.located := rfl

namespace Stage

variable {S : Stage} {c c' : Context}

theorem Advances.frame {es : List (Locals × Expr)} {errors : List SemanticError}
    (h : S.Advances es errors c c') (scopes : ScopeStack SymbolId) :
    S.Advances es errors { c with scopes } { c' with scopes } :=
  ⟨h.reflects.frame scopes c'.visits c'.errors, rfl, h.errors_eq, h.remembers, h.types, h.others⟩

/-- These checks, the first ones of the unit, are done: what the world finds in them is reported,
and the types of their expressions are noted. -/
structure Reports (S : Stage) (ks : List Check) (c : Context) : Prop where
  isPrefix : ks <+: S.unit.checks
  advances : S.Advances (ks.flatMap Check.located) (ks.flatMap fun k => (S.world.check k).errors)
    S.start { c with scopes := S.start.scopes }

theorem Reports.reflects {ks : List Check} (h : S.Reports ks c) : S.Reflects c :=
  h.advances.reflects.frame c.scopes c.visits c.errors

theorem Reports.frame {ks : List Check} (h : S.Reports ks c) (scopes : ScopeStack SymbolId)
    (visits : List Visit) : S.Reports ks { c with scopes, visits } :=
  ⟨h.isPrefix, h.advances.before (.of_visits h.advances.reflects visits) |> fun h => by
    rwa [List.append_nil] at h⟩

/-! ## Comparisons -/

section Comparisons

variable (hS : S.Suits) (hc : S.Reflects c) {t u : Option Entity} {x y : Option SymbolId}

/-- The answer of a check does not matter. -/
abbrev Whatever (_ : Context) (_ _ : Unit) : Prop := True

include hc in
theorem mirrors_reportOnly (e : SemanticError) :
    S.Mirrors Whatever [] (Found.report e) (Analyzing.report e) c :=
  ⟨.of_report hc e, trivial⟩

include hS hc

theorem map_nameOf_option (hx : S.Answers c t x) : x.map c.nameOf = t.map S.world.name := by
  cases hx with
  | none => rfl
  | some hx => rw [Option.map_some, Option.map_some, hc.nameOf_eq hS hx]

theorem mirrors_mismatch {t : Entity} {x : SymbolId} (hx : S.Means c t x) (hy : S.Answers c u y)
    (span : Span) : S.Mirrors Whatever [] (S.world.mismatch t u span)
      (Analyzing.mismatch x y span) c := by
  refine mirrors_get_bind ?_
  rw [World.mismatch, hc.nameOf_eq hS hx, map_nameOf_option hS hc hy]
  exact mirrors_reportOnly hc _

theorem mirrors_compareInitializer (hx : S.Answers c t x) (e : Expr) (hy : S.Answers c u y) :
    S.Mirrors Whatever [] (S.world.compareInitializer t e u)
      (Analyzing.compareInitializer x e y) c := by
  refine mirrors_get_bind ?_
  cases hx with
  | none => exact mirrors_pure hc trivial
  | @some t x hx =>
    cases hy with
    | none => exact mirrors_pure hc trivial
    | @some u y hy =>
      have hne : (y ≠ x ∧ (!(c.isPointer x && c.isNullPointer y)) = true) ↔
          (u ≠ t ∧ (!(S.world.isPointer t && S.world.isNullPointer u)) = true) := by
        rw [ne_eq, ne_eq, hc.eq_iff hS hy hx, hc.isPointer_eq hS hx, hc.isNullPointer_eq hS hy]
      rw [World.compareInitializer]
      dsimp only
      by_cases h : u ≠ t ∧ (!(S.world.isPointer t && S.world.isNullPointer u)) = true
      · rw [if_pos h, if_pos (hne.2 h)]
        exact mirrors_mismatch hS hc hx (.some hy) _
      · rw [if_neg h, if_neg (mt hne.1 h)]
        exact mirrors_pure hc trivial

theorem mirrors_compareCondition (e : Expr) (hx : S.Answers c t x) :
    S.Mirrors Whatever [] (S.world.compareCondition e t) (Analyzing.compareCondition e x) c := by
  cases hx with
  | none => exact mirrors_pure hc trivial
  | @some t x hx =>
    refine mirrors_get_bind ?_
    rw [World.compareCondition, hc.isBooleanOrPointer_eq hS hx, hc.nameOf_eq hS hx]
    cases S.world.isBooleanOrPointer t with
    | true => exact mirrors_pure hc trivial
    | false => exact mirrors_reportOnly hc _

/-- The type that a function must return. -/
theorem answers_expectedReturn {d : FunctionDecl} (hd : d ∈ S.unit.allFunctions) {n : Node}
    (hn : n ∈ d.body.tree.preorder) (hparents : S.start.parents = .build S.unit.tree) :
    S.Answers c (S.world.ofTy? d.result) (Analyzing.expectedReturn? c n.id) := by
  rw [Analyzing.expectedReturn?, hc.parents_eq, hparents,
    hS.named.enclosingFunction? hd hn, World.ofTy?_result]
  have hreturns := Block.returns_mem_writtenTypes hd
  rw [Option.map_some, FunctionDecl.node]
  cases h : d.returns with
  | none => exact hc.globalType? hS (.inl (isPlainName_builtin .void))
  | some t => exact hc.written? hS (hreturns t h)

theorem mirrors_compareReturn {place : Place}
    (hx : S.Answers c t (Analyzing.expectedReturn? c place.id)) (value : Option Expr)
    (hy : S.Answers c u y) : S.Mirrors Whatever [] (S.world.compareReturn place t value u)
      (Analyzing.compareReturn place value y) c := by
  refine mirrors_get_bind ?_
  generalize Analyzing.expectedReturn? c place.id = x at hx ⊢
  cases hx with
  | none => exact mirrors_pure hc trivial
  | @some t x hx =>
    cases value with
    | none =>
      have hvoid := hc.isBuiltin_eq hS hx (isPlainName_builtin .void)
      rw [BuiltinType.name] at hvoid
      rw [World.compareReturn]
      dsimp only
      rw [hvoid]
      cases S.world.isBuiltin t Library.voidName with
      | true => exact mirrors_pure hc trivial
      | false => exact mirrors_mismatch hS hc hx .none _
    | some e =>
      cases hy with
      | none => exact mirrors_pure hc trivial
      | @some u y hy =>
        rw [World.compareReturn]
        dsimp only
        by_cases h : u = t
        · rw [if_neg (not_not.2 h), if_neg (not_not.2 ((hc.eq_iff hS hy hx).2 h))]
          exact mirrors_pure hc trivial
        · rw [if_pos h, if_pos (mt (hc.eq_iff hS hy hx).1 h)]
          exact mirrors_mismatch hS hc hx (.some hy) _

end Comparisons

/-! ## The walk -/

section Does

variable (hS : S.Suits)
  (hfree : ∀ e ∈ S.unit.exprs, S.start.annotations.resolvedTypes.get? e.2.id = none)

include hS hfree

/-- A step that finds what the world finds does a check. -/
theorem does_of_mirrors {k : Check} {p : ScopeStack SymbolId → Prop} {m : Analyzing Unit}
    (hm : ((k.located.map fun e => e.2.id).Nodup) → ∀ c : Context, S.Reflects c → p c.scopes →
      (∀ e ∈ k.located, c.annotations.resolvedTypes.get? e.2.id = none) →
      S.Mirrors (fun _ _ _ => True) k.located (S.world.check k) m c) :
    Analyzing.Does S.unit S.Reports p k m := by
  intro done c hdone hc hp
  have hnodup := hS.named.nodup_exprs
  obtain ⟨ks, hks⟩ := hdone
  rw [Block.exprs_eq, ← hks, List.flatMap_append, List.flatMap_append, List.flatMap_singleton,
    List.map_append, List.map_append] at hnodup
  have hnew := List.nodup_append'.1 hnodup.of_append_left
  have hmirrors := hm hnew.2.1 c hc.reflects hp fun e he => by
    have hmem : e ∈ S.unit.exprs := by
      rw [Block.exprs_eq, ← hks]
      exact List.mem_flatMap.2 ⟨k, by simp, he⟩
    have hothers := hc.advances.others e.2.id fun hdone =>
      hnew.2.2 hdone (List.mem_map_of_mem he)
    exact hothers.trans (hfree e hmem)
  refine ⟨⟨⟨ks, hks⟩, ?_⟩, hmirrors.advances.scopes_eq⟩
  rw [List.flatMap_append, List.flatMap_append, List.flatMap_singleton, List.flatMap_singleton]
  refine hc.advances.trans (hmirrors.advances.frame S.start.scopes) fun e he hmem => ?_
  exact hnew.2.2 (List.mem_map_of_mem he) hmem

/-- A check of one expression. -/
theorem does_of_typeExpr {k : Check} {Γ : Locals} {e : Expr} (hexprs : k.exprs = [(Γ, e)])
    (he : e.tree.preorder ⊆ S.unit.tree.preorder) {m : Analyzing Unit}
    (hm : ∀ c : Context, S.Reflects c → (∀ visits, S.Mirrors S.Answers (located Γ e.parts) (S.world.typeExpr Γ e)
        (Analyzing.typeExpr e) { c with visits }) →
      S.Mirrors (fun _ _ _ => True) (located Γ e.parts) (S.world.check k) m c) :
    Analyzing.Does S.unit S.Reports (·.Shows S.declared? Γ) k m := by
  have hlocated : k.located = located Γ e.parts := by
    rw [Check.located, hexprs, List.flatMap_singleton]
  refine does_of_mirrors hS hfree fun hnodup c hc hshows hfresh => ?_
  rw [hlocated] at hnodup hfresh ⊢
  rw [map_id_located] at hnodup
  refine hm c hc fun visits => mirrors_typeExpr hS Γ e he hnodup ?_
  exact ⟨hc.frame c.scopes visits c.errors, hshows,
    fun part hpart => hfresh _ (List.mem_map_of_mem hpart)⟩

end Does

end Stage

namespace World

/-- The last phase of an analysis. -/
def stage (W : World) (G : Entity → SymbolId → Prop) (b : Block) (deps : List Library)
    (target : Library) : Stage :=
  ⟨W, G, b, (b.atStart deps target).library, b.withSymbols deps target⟩

namespace Models

variable {W : World} {G : Entity → SymbolId → Prop} {b : Block} {deps : List Library}
  {target : Library} (h : W.Models G b deps target)

include h

theorem suits : (W.stage G b deps target).Suits where
  grounds := h.grounds
  named := h.named
  global? hname := h.global?_withSymbols hname
  written? t ht := by
    change Option.Rel _ (W.written? t)
      ((b.withSymbols deps target).annotations.declaredTypes.get? t.place.id)
    rw [(h.named.binds_withSymbols h.isFresh).binds.declaredTypes_eq]
    exact rel_mono h.means_withSymbols (h.written?_withTypes ht)

theorem reflects : (W.stage G b deps target).Reflects (b.withSymbols deps target) where
  portrays := h.portrays_withSymbols
  interns := .refl _
  remembers := .refl _
  globals_eq := rfl
  parents_eq := rfl
  declaredTypes_eq := rfl
  symbols_eq _ _ _ := rfl

theorem parents_withSymbols : (b.withSymbols deps target).parents = .build b.tree := by
  obtain ⟨_, _, _, _, _, hclasses⟩ := (h.named.withClasses_spec h.isFresh).1
  obtain ⟨_, _, _, _, _, htypes⟩ := (h.named.finds_withTypes h.isFresh).eq
  obtain ⟨_, _, _, _, _, hsymbols⟩ := (h.named.binds_withSymbols h.isFresh).binds.declares
  rw [hsymbols, htypes, hclasses]
  rfl

theorem declared?_eq {n : Node} (hn : n ∈ b.tree.preorder) (hkind : n.kind.isValue = true) :
    (W.stage G b deps target).declared? n.id =
      (b.withSymbols deps target).annotations.symbols.get? n.id := by
  obtain ⟨x, hx⟩ := Option.isSome_iff_exists.1 (h.named.isSome_declared? h.isFresh hn hkind)
  have hshared : ¬b.IsShared n.id := by
    refine Block.not_isShared_binding h.named.toNumbered (List.mem_map.2 ⟨n, ?_, rfl⟩)
    refine List.mem_filter.2 ⟨hn, ?_⟩
    revert hkind
    cases n.kind <;> simp [NodeKind.isValue, NodeKind.isBinding]
  change Option.filter _ (b.row (b.withSymbols deps target) n.id) = _
  rw [Block.row_of_not_isShared hshared]
  exact hx.trans (Option.filter_eq_some_iff.1 hx).1.symm

omit h in
theorem mirrors_checkLoopControl {c : Context}
    (hc : (W.stage G b deps target).Reflects c) {place : Place} {inLoop : Bool}
    (hloop : c.scopes.inLoop = inLoop) : (W.stage G b deps target).Mirrors Stage.Whatever []
      (W.check (.loopControl place inLoop)) (Analyzing.checkLoopControl place) c := by
  have hcheck : (W.stage G b deps target).Mirrors Stage.Whatever []
      (W.check (.loopControl place inLoop)) (do
        unless (← get).scopes.inLoop do
          Analyzing.report (.breakContinueOutsideLoop place.span))
      { c with visits := ⟨.typing, place.id, c.scopes.entries⟩ :: c.visits } := by
    refine Stage.mirrors_get_bind ?_
    rw [World.check, hloop]
    have hc' := hc.frame c.scopes (⟨.typing, place.id, c.scopes.entries⟩ :: c.visits) c.errors
    cases inLoop with
    | true => exact Stage.mirrors_pure hc' trivial
    | false => exact Stage.mirrors_reportOnly hc' _
  exact ⟨(Stage.Advances.of_visits hc _).after hcheck.advances, trivial⟩

theorem mirrors_checkGoto {c : Context} (hc : (W.stage G b deps target).Reflects c) {place : Place}
    {label : Ident} {d : FunctionDecl} (hd : d ∈ b.allFunctions)
    (hnearest : c.scopes.nearestFunction? = (W.stage G b deps target).declared? d.place.id) :
    (W.stage G b deps target).Mirrors Stage.Whatever []
      (W.check (.goto place d.labels label)) (Analyzing.checkGoto place label) c := by
  obtain ⟨x, s, g, hx, hs, hfunction, hlabels⟩ := h.named.labels_withSymbols h.isFresh hd
  have hdeclared := h.declared?_eq (Block.node_mem_preorder hd) rfl
  have hcheck : (W.stage G b deps target).Mirrors Stage.Whatever []
      (W.check (.goto place d.labels label)) (do
        let c ← get
        Analyzing.noteLabel place label (c.jump? label.name))
      { c with visits := ⟨.typing, place.id, c.scopes.entries⟩ :: c.visits } := by
    refine Stage.mirrors_get_bind ?_
    have hs' : c.symbol? x = some s := hc.interns.symbol?_mono hs
    have hc' := hc.frame c.scopes (⟨.typing, place.id, c.scopes.entries⟩ :: c.visits) c.errors
    have hfound : ({ c with visits := ⟨.typing, place.id, c.scopes.entries⟩ :: c.visits } :
        Context).jump? label.name = g.labels.get? label.name := by
      change (((c.scopes.nearestFunction?).bind c.symbol?).bind Symbol.function?).bind
        (·.labels.get? label.name) = _
      rw [hnearest, show (W.stage G b deps target).declared? d.place.id = some x from
        hdeclared.trans hx, Option.bind_some, hs', Option.bind_some, hfunction, Option.bind_some]
    rw [World.check]
    have hlabel := hlabels label.name
    rw [hfound]
    generalize g.labels.get? label.name = y at hlabel ⊢
    cases y with
    | none =>
      rw [if_neg (by simpa using hlabel.symm)]
      exact Stage.mirrors_reportOnly hc' _
    | some y =>
      rw [if_pos (by simpa using hlabel.symm)]
      exact ⟨⟨⟨hc.portrays, hc.interns, hc.remembers, hc.globals_eq, hc.parents_eq,
        hc.declaredTypes_eq, hc.symbols_eq⟩, rfl, (List.append_nil _).symm, .refl _, by simp,
        fun _ _ => rfl⟩, trivial⟩
  exact ⟨(Stage.Advances.of_visits hc _).after hcheck.advances, trivial⟩

/-- What the checks find is reported, one after another. -/
theorem invariant_reports : b.Invariant (W.stage G b deps target).declared?
    (W.stage G b deps target).Reports := by
  have hS := h.suits
  have hfree : ∀ e ∈ b.exprs,
      (b.withSymbols deps target).annotations.resolvedTypes.get? e.2.id = none := fun e _ => by
    rw [(Block.Numbered.annotations_withSymbols h.named.toNumbered h.isFresh).1]
    exact OrderedMap.get?_empty _
  refine
    { frame := fun scopes visits hc => hc.frame scopes visits
      symbols_eq := fun hc n hn hkind =>
        (hc.reflects.symbols_eq n hn hkind).trans (h.declared?_eq hn hkind).symm
      isSome := fun n hn hkind => by
        rw [h.declared?_eq hn hkind]
        obtain ⟨x, hx⟩ :=
          Option.isSome_iff_exists.1 (h.named.isSome_declared? h.isFresh hn hkind)
        exact Option.isSome_of_mem (Option.filter_eq_some_iff.1 hx).1
      expr := fun Γ e he => Stage.does_of_typeExpr hS hfree rfl he fun c hc hexpr => ?_
      condition := fun Γ e he => Stage.does_of_typeExpr hS hfree rfl he fun c hc hexpr => ?_
      initializer := fun Γ d e hd he => Stage.does_of_typeExpr hS hfree rfl
        (Tree.preorder_subset_of_mem_children hd (d.initializer_mem_children he))
        fun c hc hexpr => ?_
      returns := fun Γ place value hvalue d hd hnode => ?_
      loopControl := fun place inLoop => Stage.does_of_mirrors hS hfree fun _ c hc hloop _ =>
        mirrors_checkLoopControl hc hloop
      goto := fun place label d hd _ => Stage.does_of_mirrors hS hfree fun _ c hc hnearest _ =>
        h.mirrors_checkGoto hc hd hnearest }
  · have hexpr := hexpr c.visits
    exact hexpr.bindRule (Stage.mirrors_pure hexpr.advances.reflects trivial)
  · have hexpr := hexpr c.visits
    rw [Analyzing.checkCondition_eq]
    exact hexpr.bindRule
      (Stage.mirrors_compareCondition hS hexpr.advances.reflects e hexpr.answer)
  · have hexpr := hexpr c.visits
    refine Stage.mirrors_get_bind (hexpr.bindRule ?_)
    have hc' := hexpr.advances.reflects
    have hdeclared : (W.stage G b deps target).Answers c (W.ofTy? d.type.ty)
        (c.annotations.declaredTypes.get? d.type.place.id) := by
      rw [World.ofTy?_ty]
      exact hc.written? hS (Block.mem_writtenTypes_of_node
        (Tree.preorder_subset_of_mem_subtrees hd d.type_mem_preorder))
    exact Stage.mirrors_compareInitializer hS hc' (hdeclared.mono hexpr.advances.remembers) e
      hexpr.answer
  · rw [Analyzing.checkReturn_eq]
    have hexpected : ∀ {c : Context}, (W.stage G b deps target).Reflects c →
        (W.stage G b deps target).Answers c (W.ofTy? d.result)
          (Analyzing.expectedReturn? c place.id) := fun hc =>
      Stage.answers_expectedReturn hS hc hd hnode h.parents_withSymbols
    cases value with
    | none =>
      refine Stage.does_of_mirrors hS hfree fun _ c hc _ _ => ?_
      have hc' := hc.frame c.scopes (⟨.typing, place.id, c.scopes.entries⟩ :: c.visits) c.errors
      have hcompare := Stage.mirrors_compareReturn hS hc' (hexpected hc') none .none
      exact ⟨(Stage.Advances.of_visits hc _).after hcompare.advances, trivial⟩
    | some e =>
      refine Stage.does_of_typeExpr hS hfree rfl
        (Tree.preorder_subset_of_mem_children hvalue (Expr.mem_optionTrees rfl))
        fun c hc hexpr => ?_
      have hexpr := hexpr (⟨.typing, place.id, c.scopes.entries⟩ :: c.visits)
      have hc' := hexpr.advances.reflects
      have hcompare := hexpr.bindRule (Stage.mirrors_compareReturn hS hc' (hexpected hc') (some e)
        hexpr.answer)
      exact ⟨(Stage.Advances.of_visits hc _).after hcompare.advances, trivial⟩

/-- The last phase. -/
theorem reports_analyze :
    (W.stage G b deps target).Reports b.checks (b.analyze deps target) := by
  rw [Block.analyze_eq]
  exact h.invariant_reports.checkBlock ⟨List.nil_prefix, .refl h.reflects⟩
    (h.named.scopes_withSymbols h.isFresh)

/-- The errors of the first phase. -/
theorem errors_withClasses : (b.withClasses deps target).errors =
    ClassDecl.listErrors (b.atStart deps target).library.starClass
      (fun n => (deps.findSome? (·.global? n)).isSome) b.classes := by
  rw [h.declaresClasses.errors_eq]
  simp only [Block.atStart, Context.get?_globals_start]
  exact List.nil_append _

/-- Whether a name is taken when the third phase begins. -/
theorem isSome_globals_withTypes (name : String) :
    ((b.withTypes deps target).globals.get? name).isSome =
      ((deps.findSome? (·.global? name)).isSome || (b.namedClass? W.star? name).isSome) := by
  rw [(h.named.finds_withTypes h.isFresh).globals_eq,
    (h.named.withClasses_spec h.isFresh).2.2.2, Option.isSome_or]
  exact congrArg _ (isSome_eq_of_rel
    (Context.rel_denoted?_classes (fun d hd => h.rel_entity? hd) name)).symm

/-- All errors of an analysis, phase by phase: those of the classes, unknown names of types, other
names that are taken, and what the checks find. -/
theorem errors_analyze : (b.analyze deps target).errors =
    ClassDecl.listErrors (b.atStart deps target).library.starClass
      (fun n => (deps.findSome? (·.global? n)).isSome) b.classes ++
    (b.declarations.flatMap Declaration.requests).flatMap W.unknown ++
    Declaration.listErrors (b.atStart deps target).library.starClass
      (fun n => (deps.findSome? (·.global? n)).isSome || (b.namedClass? W.star? n).isSome)
      (fun _ => false) b.declarations ++
    b.checks.flatMap fun k => (W.check k).errors := by
  have hchecks : (b.analyze deps target).errors = (b.withSymbols deps target).errors ++ _ :=
    h.reports_analyze.advances.errors_eq
  have htaken : (fun n => ((b.withTypes deps target).globals.get? n).isSome) = fun n =>
      (deps.findSome? (·.global? n)).isSome || (b.namedClass? W.star? n).isSome :=
    funext h.isSome_globals_withTypes
  rw [hchecks, h.fills.errors_eq, htaken, h.errors_withTypes, h.errors_withClasses,
    h.named.firsts_requests]
  rfl

/-- Without a star, the errors of the first and the third phase are about names that are taken. -/
theorem errors_analyze_of_regular (hb : b.Regular) : (b.analyze deps target).errors =
    sameNames (takenNames (fun n => (deps.findSome? (·.global? n)).isSome)
      (b.classes.map ClassDecl.name)) ++
    (b.declarations.flatMap Declaration.requests).flatMap W.unknown ++
    sameNames (Declaration.listTaken (fun n => (deps.findSome? (·.global? n)).isSome ||
      decide (n ∈ (b.classes.map ClassDecl.name).map Ident.name)) b.declarations) ++
    b.checks.flatMap fun k => (W.check k).errors := by
  have hclasses : ∀ d ∈ b.declarations.filterMap Declaration.class?, d.name.name ≠ "*" :=
    b.classes_eq ▸ fun d hd => hb.class_ne_star hd
  rw [h.errors_analyze, ClassDecl.listErrors_of_ne (b.classes_eq ▸ hclasses),
    Declaration.listErrors_of_ne hclasses]
  simp only [hb.isSome_namedClass?]

/-- The type that is noted for an expression is the one that it has in the world. -/
theorem resolvedType_analyze {e : Locals × Expr} (he : e ∈ b.exprs) :
    Option.Rel ((b.analyze deps target).library.Means G
      (b.row (b.withSymbols deps target))) (W.type? e.1 e.2)
      ((b.analyze deps target).annotations.resolvedTypes.get? e.2.id) :=
  h.reports_analyze.advances.types e he

/-- The name of the type that is noted for an expression. -/
theorem nameOf_resolvedType {e : Locals × Expr} (he : e ∈ b.exprs) :
    ((b.analyze deps target).annotations.resolvedTypes.get? e.2.id).map
      (b.analyze deps target).library.nameOf = (W.type? e.1 e.2).map W.name :=
  Stage.map_nameOf_option h.suits h.reports_analyze.reflects (h.resolvedType_analyze he)

end Models

end World

end Sable
