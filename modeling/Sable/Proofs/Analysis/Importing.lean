import Sable.Proofs.Analysis.Joining
import Sable.Proofs.Symbol.Importing

/-!
# Units that follow an analyzed unit

The library that one analysis leaves behind is linked to the next one. The world around both units
is right about the second analysis, where the symbols of the first unit are symbols of a dependency.

## Main definitions

* `World.StandsBeside`: symbols of linked libraries stand for themselves, for two analyses.

## Main statements

* `World.Models.global?_analyze`: the names that an analysis publishes.
* `Block.Joins.portrays_left`: the symbols of the first unit.
* `Block.Joins.models_right`: the world around both units, and the second analysis.
-/
namespace Sable

open Library (core reachAll linked Means Portrays)

/-! ## Published names -/

/-- Of two libraries the first one counts. -/
theorem Library.findSome?_pair {α : Type} (f : Library → Option α) (lib lib' : Library) :
    [lib, lib'].findSome? f = (f lib).or (f lib') := by
  rw [List.findSome?_cons, List.findSome?_singleton]
  cases f lib <;> rfl

namespace Block.Regular

variable {b : Block} {deps : List Library} {target : Library}

theorem publishes_withSymbols (hb : b.Regular) (h : IsFresh deps target)
    (hglobals : (b.atStart deps target).library.globals = .empty) :
    (b.withSymbols deps target).Publishes fun name => deps.findSome? (·.global? name) := by
  apply (hb.fills h hglobals).publishes
  intro name hname
  have hstart : (b.atStart deps target).Publishes fun name => deps.findSome? (·.global? name) := by
    intro name _
    rw [hglobals, OrderedMap.get?_empty, Option.or_none]
    exact Context.get?_globals_start deps target name
  have hfinds := hb.finds_withTypes h
  rw [hfinds.globals_eq, hfinds.interns.globals_eq hname]
  exact (hb.declaresClasses h hglobals).publishes hstart hname

end Block.Regular

/-- What an analysis publishes under a name of its own stands for what the name means. -/
theorem World.Models.global?_analyze {W : World} {G : Entity → SymbolId → Prop} {b : Block}
    {deps : List Library} {target : Library} (h : W.Models G b deps target) (hb : b.Regular)
    {name : String} (hname : IsPlainName name) (hnone : deps.findSome? (·.global? name) = none) :
    Option.Rel ((b.analyze deps target).library.Means G
      (b.row (b.withSymbols deps target))) (W.global? name)
      ((b.analyze deps target).library.global? name) := by
  have hreflects := h.reports_analyze.reflects
  have hpublishes : (b.withSymbols deps target).globals.get? name =
      (deps.findSome? (·.global? name)).or ((b.withSymbols deps target).library.globals.get? name) :=
    hb.publishes_withSymbols h.isFresh h.globals_eq hname
  rw [hnone, Option.none_or] at hpublishes
  have hglobal : (b.analyze deps target).library.global? name =
      (b.withSymbols deps target).globals.get? name :=
    (hreflects.interns.globals_eq hname).trans hpublishes.symm
  rw [hglobal]
  exact rel_mono (fun hx => hx.mono hreflects.remembers fun h => h) 
    (h.global?_withSymbols (hb.canSay_iff.2 hname))

/-! ## Symbols of linked libraries -/

namespace World

/-- The symbols of linked libraries stand for themselves, and neither number is theirs. -/
def StandsBeside (k k' : LibraryId) (t : Entity) (x : SymbolId) : Prop :=
  Stands k t x ∧ Stands k' t x

variable {M M' : Entity → SymbolId → Prop}

theorem rel_and {α β : Type} {R R' : α → β → Prop} {x : Option α} {y : Option β}
    (h : Option.Rel R x y) (h' : Option.Rel R' x y) : Option.Rel (fun a b => R a b ∧ R' a b) x y := by
  cases h with
  | none => exact .none
  | some h =>
    cases h' with
    | some h' => exact .some ⟨h, h'⟩

theorem forall₂_and {α β : Type} {R R' : α → β → Prop} {xs : List α} {ys : List β}
    (h : List.Forall₂ R xs ys) (h' : List.Forall₂ R' xs ys) :
    List.Forall₂ (fun a b => R a b ∧ R' a b) xs ys := by
  rw [List.forall₂_iff_zip] at h h' ⊢
  exact ⟨h.1, fun hmem => ⟨h.2 hmem, h'.2 hmem⟩⟩

theorem fits_and {k : Sketch} {s : Symbol} (h : s.Fits M k) (h' : s.Fits M' k) :
    s.Fits (fun t x => M t x ∧ M' t x) k where
  name_eq := h.name_eq
  isValue_eq := h.isValue_eq
  shape := by
    apply rel_mono _ (rel_and h.shape h'.shape)
    rintro shape form ⟨hshape, hshape'⟩
    cases hshape with
    | primitive => exact .primitive
    | classType => exact .classType
    | pointer hp =>
      cases hshape' with
      | pointer hp' => exact .pointer ⟨hp, hp'⟩
    | function hps hr =>
      cases hshape' with
      | function hps' hr' => exact .function (forall₂_and hps hps') ⟨hr, hr'⟩
  members t ht hclass n := rel_and (h.members t ht hclass n) (h'.members t ht hclass n)
  type := rel_and h.type h'.type

/-- Two new libraries that are linked to the same see the same symbols. -/
theorem grounds_beside {W : World} {k k' : LibraryId} {name name' : String} {deps : List Library}
    (h : W.Grounds (Stands k) { Library.new k name with dependencies := deps })
    (h' : W.Grounds (Stands k') { Library.new k' name' with dependencies := deps }) :
    W.Grounds (StandsBeside k k') { Library.new k name with dependencies := deps } := by
  refine
    { pointerTypes_eq := rfl
      functionTypes_eq := rfl
      library_ne := fun hx => h.library_ne hx.1
      biUnique := ⟨fun _ _ _ hx hy => h.biUnique.1 hx.1 hy.1,
        fun _ _ _ hx hy => h.biUnique.2 hx.1 hy.1⟩
      name_eq := fun hx => h.name_eq hx.1
      fits := fun {t x} hx => ?_
      pointerTo := fun {t x y} hx hy => ⟨h.pointerTo hx.1 hy, h'.pointerTo hx.2 ?_⟩
      pointerTo_eq := fun hx hnone => h.pointerTo_eq hx.1 hnone
      pointer := fun hx => Entity.noConfusion hx.1.1
      functionType := fun {ts t xs x y} hxs hx hy => ⟨?_, ?_⟩
      functionType_eq := fun hxs hx hnone =>
        h.functionType_eq (hxs.imp fun _ _ hy => hy.1) hx.1 hnone
      function := fun hx => Entity.noConfusion hx.1.1
      pointerType? := fun hp => h.pointerType? hp
      functionType? := fun hmem hp => h.functionType? hmem hp }
  · have hsymbol : { Library.new k' name' with dependencies := deps }.symbol? x =
        { Library.new k name with dependencies := deps }.symbol? x := by
      rw [Library.symbol?_new, Library.symbol?_new]
    have hfits := h'.fits hx.2
    rw [hsymbol] at hfits
    exact rel_mono (fun hs => fits_and hs.1 hs.2) (rel_and (h.fits hx.1) hfits)
  · rwa [Library.pointerType?_new] at hy ⊢
  · exact h.functionType (hxs.imp fun _ _ hy => hy.1) hx.1 hy
  · apply h'.functionType (hxs.imp fun _ _ hy => hy.2) hx.2
    rwa [Library.functionType?_new] at hy ⊢

/-- The world around a unit is right about the analysis also where it says nothing of symbols with
another number that is not in use. -/
theorem models_beside {b : Block} {deps : List Library} {k k' : LibraryId}
    (hk : Library.IsUnused k deps) (hk' : Library.IsUnused k' deps) (hb : b.Regular)
    (name : String) : (around deps b).Models (StandsBeside k k') b deps (.new k name) :=
  have hmodels := models_around_of_regular hk hb name
  { named := hb.named
    isFresh := hmodels.isFresh
    globals_eq := hmodels.globals_eq
    grounds := by
      have hgrounds := hmodels.grounds
      have hgrounds' := (models_around_of_regular hk' hb name).grounds
      rw [library_atStart_new] at hgrounds hgrounds' ⊢
      exact grounds_beside hgrounds hgrounds'
    describes := hmodels.describes
    apart := fun n hn x hx => hmodels.apart n hn x hx.1
    published := fun hname hx => by
      obtain ⟨t, ht, hstands⟩ := hmodels.published hname hx
      obtain ⟨t', ht', hstands'⟩ := (models_around_of_regular hk' hb name).published hname hx
      obtain rfl := Option.some.inj (ht.symm.trans ht')
      exact ⟨t, ht, hstands, hstands'⟩
    global?_eq := hmodels.global?_eq
    star := fun hstar => absurd hstar hb.not_hasStar }

end World

/-! ## The analysis of the first unit -/

namespace Block.Regular

variable {b : Block} (hb : b.Regular) {k₀ k : LibraryId} (h : k₀ ≠ k) (name : String)

include hb h

theorem id_and_dependencies_analyze : (b.analyze [core k₀] (.new k name)).library.id = k ∧
    (b.analyze [core k₀] (.new k name)).library.dependencies = [core k₀] := by
  have hmodels := World.models_around_of_regular (Library.isUnused_core h) hb name
  have hportrays := hmodels.reports_analyze.reflects.portrays
  have hlibrary := World.library_atStart_new b [core k₀] k name
  exact ⟨hportrays.id_eq.trans (congrArg Library.id hlibrary),
    hportrays.dependencies_eq.trans (congrArg Library.dependencies hlibrary)⟩

/-- The library of the unit is linked to the built-in types, which are linked to nothing. -/
theorem mem_reachAll_analyze {dep : Library}
    (hdep : dep ∈ reachAll [core k₀, (b.analyze [core k₀] (.new k name)).library]) :
    dep = core k₀ ∨ dep = (b.analyze [core k₀] (.new k name)).library := by
  have hdependencies := (hb.id_and_dependencies_analyze h name).2
  simp only [reachAll, Library.reach_eq, Library.core_dependencies, hdependencies] at hdep
  grind

end Block.Regular

namespace Block.Joins

variable {b₁ b₂ b : Block} (h : b₁.Joins b₂ b) {k₀ k₁ k₂ : LibraryId} (h₁ : k₀ ≠ k₁) (h₂ : k₀ ≠ k₂)
  (hknows : (World.around [core k₀] b₁).Knows b₁) (name₁ : String)

section Left

include h h₁ h₂

/-- What the first analysis publishes under a name that is not built in. -/
theorem global?_left {name : String} (hname : IsPlainName name)
    (hnone : (core k₀).global? name = none) : Option.Rel
      ((b₁.analyze [core k₀] (.new k₁ name₁)).library.Means (World.StandsBeside k₁ k₂)
        (b₁.row (b₁.withSymbols [core k₀] (.new k₁ name₁))))
      ((b₁.named? name).map .declared)
      ((b₁.analyze [core k₀] (.new k₁ name₁)).library.global? name) := by
  have hmodels := World.models_beside (Library.isUnused_core h₁) (Library.isUnused_core h₂)
    h.regular_left name₁
  have hglobal := hmodels.global?_analyze h.regular_left hname (by simp [hnone])
  rwa [World.global?_around_core h.regular_left, hnone, Option.map_none, Option.none_or] at hglobal

/-- Whether a name of the second unit is published does not depend on the first one. -/
theorem isSome_published_right {x : Ident}
    (hx : x ∈ b₂.classes.map ClassDecl.name ++ b₂.values.map Member.name) :
    ([core k₀, (b₁.analyze [core k₀] (.new k₁ name₁)).library].findSome?
        (·.global? x.name)).isSome = ([core k₀].findSome? (·.global? x.name)).isSome := by
  rw [Library.findSome?_pair, List.findSome?_singleton]
  cases hcore : (core k₀).global? x.name with
  | some y => rfl
  | none =>
    obtain ⟨d, hd, rfl⟩ := List.mem_map.1 (b₂.map_name_declarations_perm.mem_iff.2 hx)
    have hglobal := h.global?_left h₁ h₂ name₁ (isPlainName_declaration h.regular_right hd) hcore
    rw [h.named?_left_eq_none hx, Option.map_none] at hglobal
    cases hlib : (b₁.analyze [core k₀] (.new k₁ name₁)).library.global? d.name.name with
    | none => rfl
    | some y =>
      rw [hlib] at hglobal
      cases hglobal

include hknows

/-- The symbols of the first unit stand for what it declares, in the world around both units. -/
theorem portrays_left : (b₁.analyze [core k₀] (.new k₁ name₁)).library.Portrays
    (World.around [core k₀] b) (World.StandsBeside k₁ k₂)
    (b₁.row (b₁.withSymbols [core k₀] (.new k₁ name₁)))
    (b.atStart [core k₀] (.new k₁ name₁)).library := by
  have hmodels := World.models_beside (Library.isUnused_core h₁) (Library.isUnused_core h₂)
    h.regular_left name₁
  have hlibrary : (b.atStart [core k₀] (.new k₁ name₁)).library =
      (b₁.atStart [core k₀] (.new k₁ name₁)).library := by
    rw [World.library_atStart_new, World.library_atStart_new]
  rw [hlibrary]
  apply Portrays.of_world (V := World.around [core k₀] b₁)
  · exact fun hx => ⟨_, hx.1.1⟩
  · rfl
  · intro n x hx
    exact World.declared?_around_left h hknows (h.regular_left.exists_of_symbol hmodels.isFresh
      (Block.row_eq_some.1 hx).2)
  · exact hmodels.reports_analyze.reflects.portrays

end Left

/-! ## The analysis of the second unit -/

section Right

include h h₁ h₂

/-- What is published stands for what it means in the world around both units. -/
theorem published_right {name : String} {x : SymbolId} (hname : IsPlainName name)
    (hx : [core k₀, (b₁.analyze [core k₀] (.new k₁ name₁)).library].findSome? (·.global? name) =
      some x) : ∃ t, (World.around [core k₀] b).global? name = some t ∧
        (b₁.analyze [core k₀] (.new k₁ name₁)).library.Means (World.StandsBeside k₁ k₂)
          (b₁.row (b₁.withSymbols [core k₀] (.new k₁ name₁))) t x := by
  have hmodels := World.models_beside (Library.isUnused_core h₁) (Library.isUnused_core h₂)
    h.regular name₁
  rw [Library.findSome?_pair] at hx
  cases hcore : (core k₀).global? name with
  | some y =>
    obtain rfl : y = x := by simpa [hcore] using hx
    have hpublished : [core k₀].findSome? (·.global? name) = some y := by
      rw [List.findSome?_singleton, hcore]
    obtain ⟨t, ht, hy⟩ := hmodels.published (h.regular.canSay_iff.2 hname) hpublished
    exact ⟨t, ht, .ground hy⟩
  | none =>
    have hglobal := h.global?_left h₁ h₂ name₁ hname hcore
    rw [hcore, Option.none_or] at hx
    rw [hx] at hglobal
    generalize ht : (b₁.named? name).map Entity.declared = t at hglobal
    cases hglobal with
    | @some t _ hx =>
      refine ⟨t, World.global?_around_left h ?_, hx⟩
      rw [World.global?_around_core h.regular_left, hcore, ht]
      rfl

/-- What is not published is a name of the second unit, or of none. -/
theorem global?_right {name : String} (hname : IsPlainName name)
    (hnone : [core k₀, (b₁.analyze [core k₀] (.new k₁ name₁)).library].findSome? (·.global? name) =
      none) : (World.around [core k₀] b).global? name = (b₂.named? name).map .declared := by
  rw [Library.findSome?_pair, Option.or_eq_none_iff] at hnone
  have hglobal := h.global?_left h₁ h₂ name₁ hname hnone.1
  rw [hnone.2] at hglobal
  rw [World.global?_around_core h.regular, hnone.1, h.named?_eq]
  cases hnamed : b₁.named? name with
  | none => rfl
  | some n =>
    rw [hnamed] at hglobal
    cases hglobal

end Right

variable (h₁₂ : k₁ ≠ k₂) (name₂ : String)

include h h₁ h₂ hknows h₁₂

/-- The world around both units is right about the analysis of the second unit. -/
theorem models_right : (World.around [core k₀] b).Models
    ((b₁.analyze [core k₀] (.new k₁ name₁)).library.Means (World.StandsBeside k₁ k₂)
      (b₁.row (b₁.withSymbols [core k₀] (.new k₁ name₁))))
    b₂ [core k₀, (b₁.analyze [core k₀] (.new k₁ name₁)).library] (.new k₂ name₂) := by
  have hportrays := h.portrays_left h₁ h₂ hknows name₁
  have hpublished {name : String} {x : SymbolId} (hname : IsPlainName name) :=
    h.published_right h₁ h₂ name₁ (x := x) hname
  have hother {name : String} (hname : IsPlainName name) := h.global?_right h₁ h₂ name₁ hname
  have hmodels := World.models_beside (Library.isUnused_core h₁) (Library.isUnused_core h₂)
    h.regular name₁
  have hleft := World.models_beside (Library.isUnused_core h₁) (Library.isUnused_core h₂)
    h.regular_left name₁
  obtain ⟨hid, hdependencies⟩ := h.regular_left.id_and_dependencies_analyze h₁ name₁
  have hreach {dep : Library}
      (hdep : dep ∈ reachAll [core k₀, (b₁.analyze [core k₀] (.new k₁ name₁)).library]) :=
    h.regular_left.mem_reachAll_analyze h₁ name₁ hdep
  have hnode {n : NodeId} {x : SymbolId}
      (hx : b₁.row (b₁.withSymbols [core k₀] (.new k₁ name₁)) n = some x) :=
    h.regular_left.exists_of_symbol hleft.isFresh (Block.row_eq_some.1 hx).2
  generalize b₁.row (b₁.withSymbols [core k₀] (.new k₁ name₁)) = row
    at hportrays hpublished hnode ⊢
  generalize (b₁.analyze [core k₀] (.new k₁ name₁)).library = lib
    at hportrays hpublished hother hid hdependencies hreach ⊢
  have hlinked : linked [core k₀, lib] = lib.dependencies ++ [lib] := by
    simp [linked, Library.link, Library.new, hdependencies, Library.core_id, hid, h₁]
  have hunused : Library.IsUnused k₂ [core k₀] := Library.isUnused_core h₂
  refine
    { named := h.regular_right.named
      isFresh := fun dep hdep => ?_
      globals_eq := Block.globals_start (Library.isBlank_new k₂ name₂)
      grounds := ?_
      describes := h.describes_right hmodels.describes
      apart := fun n hn x hx => ?_
      published := fun hname hx => hpublished (h.regular_right.canSay_iff.1 hname) hx
      global?_eq := fun hname hnone =>
        (hother (h.regular_right.canSay_iff.1 hname) hnone).trans
          (h.regular_right.denoted?_eq ..).symm
      star := fun hstar => absurd hstar h.regular_right.not_hasStar }
  · rcases hreach hdep with rfl | rfl
    · rwa [Library.core_id]
    · rwa [hid]
  · rw [World.library_atStart_new, hlinked]
    apply hportrays.grounds hmodels.grounds (hportrays.sees (hid ▸ h₁₂) name₂)
    · exact fun hx => hx.2.2
    · intro p hp
      rw [World.library_atStart_new, Library.pointerType?_new, List.findSome?_eq_none_iff]
      intro dep hdep
      by_contra hne
      obtain ⟨x, hx⟩ := Option.ne_none_iff_exists'.1 hne
      exact ((World.avoids_linked hunused hdep).pointerTypes p x hx).1 hp
    · intro ps r p hmem hp
      rw [World.library_atStart_new, Library.functionType?_new, List.findSome?_eq_none_iff]
      intro dep hdep
      by_contra hne
      obtain ⟨x, hx⟩ := Option.ne_none_iff_exists'.1 hne
      exact ((World.avoids_linked hunused hdep).functionTypes ps r x hx).1 p hmem hp
  · cases hx with
    | ground hx => exact Entity.noConfusion hx.1.1
    | declared hx => exact h.notMem_left hn (hnode hx)

end Block.Joins

/-! ## Errors -/

namespace Block.Joins

variable {b₁ b₂ b : Block} (h : b₁.Joins b₂ b)

include h

section Names

variable {p : String → Bool} (p' : String → Bool) (hp : ∀ x ∈ b₂.classes.map ClassDecl.name ++
  b₂.values.map Member.name, p' x.name = p x.name)

include hp

/-- Names of classes are taken in the second unit if they are taken in both. -/
theorem takenNames_right (hleft : Sable.takenNames p (b₁.classes.map ClassDecl.name) = []) :
    Sable.takenNames p (b.classes.map ClassDecl.name) =
      Sable.takenNames p' (b₂.classes.map ClassDecl.name) := by
  rw [h.classes_eq, List.map_append, takenNames_append, hleft, List.nil_append]
  apply takenNames_congr
  intro x hx
  have hx' := List.mem_append_left (b₂.values.map Member.name) hx
  have hnotMem : x.name ∉ (b₁.classes.map ClassDecl.name).map Ident.name := by
    intro hmem
    obtain ⟨y, hy, heq⟩ := List.mem_map.1 hmem
    exact h.ident_ne (List.mem_append_left _ hy) hx' heq
  rw [hp x hx', decide_eq_false hnotMem, Bool.or_false]

/-- So are the other names. -/
theorem listTaken_right (hleft : Declaration.listTaken (fun n => p n ||
      decide (n ∈ (b₁.classes.map ClassDecl.name).map Ident.name)) b₁.declarations = []) :
    Declaration.listTaken (fun n => p n ||
      decide (n ∈ (b.classes.map ClassDecl.name).map Ident.name)) b.declarations =
    Declaration.listTaken (fun n => p' n ||
      decide (n ∈ (b₂.classes.map ClassDecl.name).map Ident.name)) b₂.declarations := by
  have hnil : Declaration.listTaken (fun n => p n ||
      decide (n ∈ (b.classes.map ClassDecl.name).map Ident.name)) b₁.declarations = [] := by
    rw [← hleft]
    apply Declaration.listTaken_congr
    intro m hm
    have hm' := List.mem_append_right (b₁.classes.map ClassDecl.name)
      (List.mem_map_of_mem (f := Member.name) hm)
    have hnotMem : m.name.name ∉ (b₂.classes.map ClassDecl.name).map Ident.name := by
      intro hmem
      obtain ⟨y, hy, heq⟩ := List.mem_map.1 hmem
      exact h.ident_ne hm' (List.mem_append_left _ hy) heq.symm
    simp only [h.classes_eq, List.map_append, List.mem_append, hnotMem, or_false]
  rw [h.declarations_eq, Declaration.listTaken_append, hnil, List.nil_append, ← values]
  apply Declaration.listTaken_congr
  intro m hm
  have hm' := List.mem_append_right (b₂.classes.map ClassDecl.name)
    (List.mem_map_of_mem (f := Member.name) hm)
  have hnotMem : ∀ xs ⊆ b₁.classes.map ClassDecl.name ++ b₁.values.map Member.name,
      m.name.name ∉ xs.map Ident.name := by
    intro xs hxs hmem
    obtain ⟨y, hy, heq⟩ := List.mem_map.1 hmem
    exact h.ident_ne (hxs hy) hm' heq
  have hclasses := hnotMem _ (List.subset_append_left _ _)
  have hvalues := hnotMem _ (List.subset_append_right _ _)
  rw [hp _ hm', decide_eq_false hvalues, Bool.or_false]
  simp only [h.classes_eq, List.map_append, List.mem_append, hclasses, false_or]

end Names

variable {k₀ : LibraryId}

/-- What the first unit knows it knows in front of the second one. -/
theorem unknown_right (hleft : (b₁.declarations.flatMap Declaration.requests).flatMap
      (World.around [core k₀] b₁).unknown = []) :
    (b.declarations.flatMap Declaration.requests).flatMap (World.around [core k₀] b).unknown =
      (b₂.declarations.flatMap Declaration.requests).flatMap
        (World.around [core k₀] b).unknown := by
  have hnil : (b₁.declarations.flatMap Declaration.requests).flatMap
      (World.around [core k₀] b).unknown = [] := by
    rw [List.flatMap_eq_nil_iff] at hleft ⊢
    intro r hr
    have hr := hleft r hr
    cases htype : (World.around [core k₀] b₁).typeNamed? r.name.name with
    | none => simp [World.unknown, htype] at hr
    | some t => simp [World.unknown, World.typeNamed?_around_left h htype]
  rw [h.declarations_eq, List.flatMap_append, List.flatMap_append, hnil, List.nil_append]

/-- What holds in the first unit holds in front of the second one. -/
theorem checks_right (hwell : b₁.WellFormed) (hknows : (World.around [core k₀] b₁).Knows b₁) :
    (b.checks.flatMap fun c => ((World.around [core k₀] b).check c).errors) =
      b₂.checks.flatMap fun c => ((World.around [core k₀] b).check c).errors := by
  have hW := h.knows_left hknows
  have hnil : (b₁.checks.flatMap fun c => ((World.around [core k₀] b).check c).errors) = [] := by
    rw [List.flatMap_eq_nil_iff]
    intro c hc
    have hconfirms := hW.confirms_check h.regular_left (Block.relies_checks hW.offers c hc)
    exact hconfirms.errors_eq (hwell.holds c hc)
  rw [h.checks_eq, List.flatMap_append, hnil, List.nil_append]

/-- Without errors in the first unit, the errors of both are those of the second one. -/
theorem errors_eq {k₁ k₂ k : LibraryId} (h₁ : k₀ ≠ k₁) (h₂ : k₀ ≠ k₂) (h₁₂ : k₁ ≠ k₂) (h₀ : k₀ ≠ k)
    {name₁ : String} (hok : (b₁.analyze [core k₀] (.new k₁ name₁)).errors = [])
    (name₂ name : String) : (b.analyze [core k₀] (.new k name)).errors =
      (b₂.analyze [core k₀, (b₁.analyze [core k₀] (.new k₁ name₁)).library]
        (.new k₂ name₂)).errors := by
  have hwell := (h.regular_left.errors_eq_nil h₁ name₁).1 hok
  have hown : b₁.HasOwnNames [core k₀] :=
    h.regular_left.hasOwnNames_core.2 hwell.nodup_declarations
  have hknows := World.knows_around h.regular_left hown hwell.nodup_members hwell.isKnown
  have hjoined := World.models_around_of_regular (Library.isUnused_core h₀) h.regular name
  have hright := h.models_right h₁ h₂ hknows name₁ h₁₂ name₂
  have hleft := World.models_around_of_regular (Library.isUnused_core h₁) h.regular_left name₁
  have hpublished : ∀ x ∈ b₂.classes.map ClassDecl.name ++ b₂.values.map Member.name, _ :=
    fun x hx => h.isSome_published_right h₁ h₂ name₁ hx
  -- what the built-in types and the first unit publish
  let published (n : String) : Bool :=
    ([core k₀, (b₁.analyze [core k₀] (.new k₁ name₁)).library].findSome? (·.global? n)).isSome
  rw [hleft.errors_analyze_of_regular h.regular_left, List.append_eq_nil_iff,
    List.append_eq_nil_iff, List.append_eq_nil_iff, sameNames, List.map_eq_nil_iff, sameNames, List.map_eq_nil_iff] at hok
  obtain ⟨⟨⟨hclasses, hunknown⟩, htaken⟩, -⟩ := hok
  rw [hjoined.errors_analyze_of_regular h.regular,
    hright.errors_analyze_of_regular h.regular_right,
    h.takenNames_right published hpublished hclasses, h.unknown_right hunknown,
    h.listTaken_right published hpublished htaken, h.checks_right hwell hknows]

end Block.Joins

end Sable
