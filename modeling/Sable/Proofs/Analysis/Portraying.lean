import Sable.Proofs.Analysis.Lexical
import Sable.Proofs.Analysis.Settling

/-!
# What the symbols of a unit stand for

Behind the third phase every declaration of a unit has its symbol, which stands for what the node
declares and is as the world sketches it. The names of the whole unit stand for what the world says
of them.

## Main statements

* `World.Models.portrays_withSymbols`: the symbols of declarations.
* `World.Models.global?_withSymbols`: the names of the whole unit.
-/
namespace Sable

open Library (Means Represents Portrays Remembers)

theorem Library.Binds.remembers {lib lib' : Library} {owner : Library.Owner}
    (h : lib.Binds owner lib') : lib.Remembers lib' :=
  ⟨fun hx => by rwa [h.pointerTypes_eq], fun hx => by rwa [h.functionTypes_eq]⟩

/-! ## Nodes with symbols -/

/-- What is bound in a member: the member and its locals. -/
theorem Member.bindings_tree (m : Member) : m.tree.bindings =
    m.place.id :: (m.functions.flatMap FunctionDecl.locals).map fun l => l.place.id := by
  match m with
  | .variable d => simp [Member.tree, d.bindings_tree, Member.place, Member.functions]
  | .function d => simp [Member.tree, d.bindings_tree, Member.place, Member.functions]

namespace Block

open Context

section

variable (b : Block)

/-- The variables and functions that are no locals. -/
def allMembers : List Member := b.declarations.flatMap Declaration.members

def allLocals : List LocalDecl := b.allFunctions.flatMap FunctionDecl.locals

theorem flatMap_functions_allMembers : b.allMembers.flatMap Member.functions = b.allFunctions := by
  rw [allMembers, allFunctions, List.flatMap_assoc]
  congr 1
  funext d
  cases d <;> rfl

/-- What is bound in a unit, the members in front of the locals. -/
theorem bindings_perm : b.tree.bindings.Perm
    (b.allMembers.map (fun m => m.place.id) ++ b.allLocals.map fun l => l.place.id) := by
  have hbindings : b.tree.bindings = b.allMembers.flatMap fun m =>
      [m.place.id] ++ (m.functions.flatMap FunctionDecl.locals).map fun l => l.place.id := by
    rw [bindings_tree, allMembers, List.flatMap_assoc]
    refine List.flatMap_congr fun d _ => ?_
    rw [Declaration.bindings_tree]
    exact List.flatMap_congr fun m _ => m.bindings_tree
  rw [hbindings, allLocals, ← flatMap_functions_allMembers, List.flatMap_assoc, List.map_flatMap,
    List.map_eq_flatMap]
  exact (List.flatMap_append_perm _ _ _).symm

end

variable {b : Block} {deps : List Library} {target : Library}

theorem member_mem_bindings {m : Member} (hm : m ∈ b.allMembers) : m.place.id ∈ b.tree.bindings :=
  b.bindings_perm.mem_iff.2 (List.mem_append_left _ (List.mem_map_of_mem hm))

theorem local_mem_bindings {l : LocalDecl} (hl : l ∈ b.allLocals) : l.place.id ∈ b.tree.bindings :=
  b.bindings_perm.mem_iff.2 (List.mem_append_right _ (List.mem_map_of_mem hl))

theorem exists_member_of_mem_allFunctions {d : FunctionDecl} (hd : d ∈ b.allFunctions) :
    ∃ e ∈ b.declarations, .function d ∈ e.members := by
  obtain ⟨e, he, hd⟩ := List.mem_flatMap.1 hd
  refine ⟨e, he, ?_⟩
  match e with
  | .classDecl e =>
    obtain ⟨m, hm, hd⟩ := List.mem_flatMap.1 hd
    match m with
    | .function m =>
      obtain rfl := List.mem_singleton.1 hd
      exact hm
    | .variable _ => simp [Member.functions] at hd
  | .function e =>
    obtain rfl := List.mem_singleton.1 hd
    exact List.mem_singleton_self _
  | .variable _ => simp [Declaration.functions] at hd

theorem mem_allFunctions_of_mem_members {e : Declaration} (he : e ∈ b.declarations)
    {d : FunctionDecl} (hd : .function d ∈ e.members) : d ∈ b.allFunctions := by
  refine List.mem_flatMap.2 ⟨e, he, ?_⟩
  match e with
  | .classDecl e => exact List.mem_flatMap.2 ⟨_, hd, List.mem_singleton_self d⟩
  | .function e =>
    obtain rfl := Member.function.inj (List.mem_singleton.1 hd)
    exact List.mem_singleton_self _
  | .variable e => exact absurd (List.mem_singleton.1 hd) (by simp)

/-- What is bound is a variable or a function, or else a local of a function. -/
theorem exists_of_mem_bindings {n : NodeId} (hn : n ∈ b.tree.bindings) :
    (∃ e ∈ b.declarations, ∃ m ∈ e.members, m.place.id = n) ∨
      ∃ d ∈ b.allFunctions, ∃ l ∈ d.locals, l.place.id = n := by
  rw [bindings_tree] at hn
  obtain ⟨e, he, hn⟩ := List.mem_flatMap.1 hn
  rw [Declaration.bindings_tree] at hn
  obtain ⟨m, hm, hn⟩ := List.mem_flatMap.1 hn
  match m with
  | .variable d =>
    rw [Member.tree, d.bindings_tree, List.mem_singleton] at hn
    exact .inl ⟨e, he, _, hm, hn.symm⟩
  | .function d =>
    rw [Member.tree, d.bindings_tree, List.mem_cons, List.mem_map] at hn
    rcases hn with rfl | ⟨l, hl, rfl⟩
    · exact .inl ⟨e, he, _, hm, rfl⟩
    · exact .inr ⟨d, mem_allFunctions_of_mem_members he hm, l, hl, rfl⟩

namespace Numbered

variable (hb : b.Numbered) (h : IsFresh deps target)

include hb h

/-- Only declarations have symbols. -/
theorem exists_of_symbol {n : NodeId} {x : SymbolId}
    (hx : (b.withSymbols deps target).annotations.symbols.get? n = some x) :
    (∃ d ∈ b.classes, d.place.id = n) ∨ n ∈ b.tree.bindings := by
  by_contra hnone
  rw [not_or] at hnone
  rw [b.bindings_tree] at hnone
  rw [(hb.binds_withSymbols h).binds.symbols n hnone.2, (hb.finds_withTypes h).symbols_eq,
    (hb.withClasses_spec h).2.2.1 n fun hn => hnone.1 (List.mem_map.1 hn)] at hx
  simp at hx

theorem hasFunction {d : FunctionDecl} (hd : d ∈ b.allFunctions) :
    (b.withSymbols deps target).HasFunction d := by
  obtain ⟨e, he, hd⟩ := exists_member_of_mem_allFunctions hd
  exact hb.hasMember_withSymbols h e he _ hd

theorem holdsLocals {d : FunctionDecl} (hd : d ∈ b.allFunctions) :
    ∃ x, (b.withSymbols deps target).annotations.symbols.get? d.place.id = some x ∧
      (b.withSymbols deps target).HoldsLocals x d.locals := by
  have hfunction := hb.hasFunction h hd
  obtain ⟨x, -, hx, -⟩ := hfunction.bound
  exact ⟨x, hx, hfunction.holds x hx⟩

theorem boundLocal {d : FunctionDecl} (hd : d ∈ b.allFunctions) {l : LocalDecl}
    (hl : l ∈ d.locals) : (b.withSymbols deps target).BoundLocal l := by
  obtain ⟨x, -, hlocals⟩ := hb.holdsLocals h hd
  exact hlocals.bound l hl

/-- A label of a function is found in its table. -/
theorem labels_withSymbols {d : FunctionDecl} (hd : d ∈ b.allFunctions) : ∃ x s g,
      (b.withSymbols deps target).annotations.symbols.get? d.place.id = some x ∧
      (b.withSymbols deps target).library.symbol? x = some s ∧ s.function? = some g ∧
      ∀ name, (g.labels.get? name).isSome = decide (name ∈ d.labels) := by
  obtain ⟨x, hx, hlocals⟩ := hb.holdsLocals h hd
  obtain ⟨s, g, hs, hkind, -, hlabels⟩ := hlocals.locals.entries
  refine ⟨x, s, g, hx, hs, by rw [Symbol.function?, hkind], fun name => ?_⟩
  have hrows : ∀ e ∈ LocalDecl.labelEntries d.locals,
      ((b.withSymbols deps target).annotations.symbols.get? e.2).isSome := fun e he => by
    obtain ⟨l, hl, -, hid⟩ := LocalDecl.exists_of_mem_labelEntries he
    obtain ⟨y, -, hy, -⟩ := hb.boundLocal h hd hl
    rw [← hid, hy]
    rfl
  have hnames : d.labels = (LocalDecl.labelEntries d.locals).map Prod.fst := by
    rw [FunctionDecl.labels, LocalDecl.labelEntries, List.map_map]
    rfl
  rw [hlabels, Context.denoted?_eq_bind hrows, hnames]
  cases hlookup : (LocalDecl.labelEntries d.locals).lookup name with
  | none =>
    rw [List.lookup_eq_none_iff] at hlookup
    simpa using fun n hn => by simpa using hlookup _ hn
  | some n =>
    have hmem := mem_of_lookup hlookup
    obtain ⟨y, hy⟩ := Option.isSome_iff_exists.1 (hrows _ hmem)
    rw [Option.bind_some, hy]
    simpa using ⟨n, hmem⟩

end Numbered

end Block

namespace World.Models

variable {W : World} {G : Entity → SymbolId → Prop} {b : Block} {deps : List Library}
  {target : Library} (h : W.Models G b deps target)

include h

/-! ## Declarations -/

/-- The classes get their members. -/
theorem fills : (b.withTypes deps target).Fills b.CanSay (b.atStart deps target).library.starClass
    (fun _ => false) (b.withClasses deps target).library.star? b.declarations
    (b.withSymbols deps target) :=
  (h.named.binds_withSymbols h.isFresh).fills (h.named.awaits h.isFresh h.globals_eq
    (fun hstar => (h.star hstar).allowsStar) fun hstar hpublished =>
      h.asks_withTypes.1.settles.published hstar ▸ hpublished)

/-- What symbols stood for behind the second phase they stand for behind the third. -/
theorem means_withSymbols {t : Entity} {x : SymbolId}
    (hx : (b.withTypes deps target).library.Means G
      (b.row (b.withClasses deps target)) t x) :
    (b.withSymbols deps target).library.Means G
      (b.row (b.withSymbols deps target)) t x := by
  have hb := h.named.toNumbered
  refine hx.mono (hb.binds_withSymbols h.isFresh).binds.library.remembers fun {n y} hy => ?_
  rw [Block.row_eq_some] at hy ⊢
  have hn : ∃ d ∈ b.classes, d.place.id = n := by
    by_contra hn
    have hnone := (hb.withClasses_spec h.isFresh).2.2.1 n fun hmem => hn (List.mem_map.1 hmem)
    simp [hnone] at hy
  obtain ⟨d, hd, rfl⟩ := hn
  rwa [hb.symbols_class h.isFresh hd]

/-- What a node is bound to is as the declaration is sketched. -/
theorem fits_of_bound {n : NodeId} {x : SymbolId} {k : Sketch} {type : Option SymbolId}
    (hx : (b.withSymbols deps target).annotations.symbols.get? n = some x)
    (hbound : (b.withSymbols deps target).Bound n k.name k.isValue type) (hshape : k.shape = none)
    (htype : Option.Rel ((b.withTypes deps target).library.Means G
      (b.row (b.withClasses deps target))) k.type type) :
    (b.withSymbols deps target).library.HasSketch x k ∧
      ∃ s, (b.withSymbols deps target).library.symbol? x = some s ∧
        s.Fits ((b.withSymbols deps target).library.Means G
          (b.row (b.withSymbols deps target))) k := by
  obtain ⟨y, s, hy, hlibrary, hs, hname, hvalue, rfl, hnone⟩ := hbound
  obtain rfl := Option.some.inj (hx.symm.trans hy)
  refine ⟨⟨hlibrary, s, hs, hname, .inl ⟨hshape, hnone⟩⟩, s, hs, hname, hvalue, ?_, ?_, ?_⟩
  · rw [hshape, hnone]
    exact .none
  · intro t ht
    rw [hnone] at ht
    simp at ht
  · exact rel_mono h.means_withSymbols htype

/-- The symbol of a variable or of a function. -/
theorem fits_member {e : Declaration} (he : e ∈ b.declarations) {m : Member} (hm : m ∈ e.members)
    {x : SymbolId} (hx : (b.withSymbols deps target).annotations.symbols.get? m.place.id = some x) :
    (b.withSymbols deps target).library.HasSketch x (W.memberSketch m) ∧
      ∃ s, (b.withSymbols deps target).library.symbol? x = some s ∧
        s.Fits ((b.withSymbols deps target).library.Means G
          (b.row (b.withSymbols deps target))) (W.memberSketch m) := by
  have hb := h.named.toNumbered
  have hmember := hb.hasMember_withSymbols h.isFresh e he m hm
  have hbinds := (hb.binds_withSymbols h.isFresh).binds
  match m with
  | .variable d =>
    refine h.fits_of_bound hx (k := W.variableSketch d.name d.type) hmember rfl ?_
    have htype := Block.mem_writtenTypes_of_node (Block.preorder_subset_of_mem he
      (Declaration.preorder_subset_of_mem hm d.type_mem_preorder))
    change Option.Rel _ (W.written? d.type)
      ((b.withSymbols deps target).annotations.declaredTypes.get? d.type.place.id)
    rw [hbinds.declaredTypes_eq]
    exact h.written?_withTypes htype
  | .function d =>
    have hd := Block.mem_allFunctions_of_mem_members he hm
    refine h.fits_of_bound hx (k := W.functionSketch d) hmember.bound rfl ?_
    rw [hbinds.signatures_eq]
    exact h.signature?_withTypes hd

/-- The symbol of a parameter, of a variable or of a label inside of a function. -/
theorem fits_local {d : FunctionDecl} (hd : d ∈ b.allFunctions) {l : LocalDecl} (hl : l ∈ d.locals)
    {x : SymbolId} (hx : (b.withSymbols deps target).annotations.symbols.get? l.place.id = some x) :
    (b.withSymbols deps target).library.HasSketch x (W.localSketch l) ∧
      ∃ s, (b.withSymbols deps target).library.symbol? x = some s ∧
        s.Fits ((b.withSymbols deps target).library.Means G
          (b.row (b.withSymbols deps target))) (W.localSketch l) := by
  have hb := h.named.toNumbered
  have hlocal := hb.boundLocal h.isFresh hd hl
  have htypes := (hb.binds_withSymbols h.isFresh).binds.declaredTypes_eq
  have htype : ∀ t ∈ l.type?, Option.Rel ((b.withTypes deps target).library.Means G
      (b.row (b.withClasses deps target))) (W.written? t)
      ((b.withSymbols deps target).annotations.declaredTypes.get? t.place.id) := fun t ht => by
    rw [htypes]
    exact h.written?_withTypes (Block.mem_writtenTypes_of_node
      (Block.preorder_subset_of_mem_allFunctions hd (d.type_mem_preorder l hl t ht)))
  match l with
  | .parameter d =>
    exact h.fits_of_bound hx (k := W.variableSketch d.name d.type) hlocal rfl (htype d.type rfl)
  | .variable d =>
    exact h.fits_of_bound hx (k := W.variableSketch d.name d.type) hlocal rfl (htype d.type rfl)
  | .label _ name =>
    exact h.fits_of_bound hx (k := { name := name.name }) hlocal rfl .none

/-- The members of a class by name, as the symbols of the class and of its members tell. -/
theorem rel_members {d : ClassDecl} (hd : d ∈ b.classes) (name : String) :
    Option.Rel ((b.withSymbols deps target).library.Means G
      (b.row (b.withSymbols deps target))) (d.sketch.members name)
      ((b.withSymbols deps target).denoted? (d.members.map Member.entry) name) := by
  have hmem := (Block.mem_classes).1 hd
  have hrows : ∀ e ∈ d.members.map Member.entry,
      ((b.withSymbols deps target).annotations.symbols.get? e.2).isSome := by
    rw [List.forall_mem_map]
    exact fun m hm =>
      (h.named.hasMember_withSymbols h.isFresh _ hmem m hm).isSome_symbol
  have hmembers : d.sketch.members name =
      ((d.members.map Member.entry).lookup name).map .declared := rfl
  rw [Context.denoted?_eq_bind hrows, hmembers]
  cases hlookup : (d.members.map Member.entry).lookup name with
  | none => exact .none
  | some n =>
    obtain ⟨x, hx⟩ := Option.isSome_iff_exists.1 (hrows _ (mem_of_lookup hlookup))
    rw [Option.bind_some, hx]
    obtain ⟨m, hm, heq⟩ := List.mem_map.1 (mem_of_lookup hlookup)
    obtain rfl : m.place.id = n := congrArg Prod.snd heq
    have hbinding := Block.member_mem_bindings (List.mem_flatMap.2 ⟨_, hmem, hm⟩)
    exact .some (.declared (Block.row_eq_some.2
      ⟨Block.not_isShared_binding h.named.toNumbered hbinding, hx⟩))

/-- Interned types stay what they are in the third phase. -/
theorem hasForm_withSymbols {x : SymbolId} {name : String} {form : TypeForm}
    (hx : (b.withTypes deps target).library.HasForm x name form) :
    (b.withSymbols deps target).library.HasForm x name form := by
  have hb := h.named.toNumbered
  have hbinds := (hb.binds_withSymbols h.isFresh).binds.library
  obtain ⟨hlibrary, s, hs, hname, hform, htype⟩ := hx
  obtain ⟨s', hs', hkeeps, -⟩ := hbinds.symbol hs
  exact ⟨hlibrary.trans hbinds.id_eq.symm, s', hs', hkeeps.name_eq.trans hname,
    hkeeps.form_eq.trans hform, hkeeps.type_eq.trans htype⟩

/-- The symbol of a class, with its members. -/
theorem fits_class {d : ClassDecl} (hd : d ∈ b.classes) (hname : d.name.name ≠ "*") {x : SymbolId}
    (hx : (b.withSymbols deps target).annotations.symbols.get? d.place.id = some x) :
    (b.withSymbols deps target).library.HasSketch x d.sketch ∧
      ∃ s, (b.withSymbols deps target).library.symbol? x = some s ∧
        s.Fits ((b.withSymbols deps target).library.Means G
          (b.row (b.withSymbols deps target))) d.sketch := by
  have hb := h.named.toNumbered
  have hfinds := hb.finds_withTypes h.isFresh
  rw [Block.classes_eq] at hd
  obtain ⟨y, hy, hmembers⟩ := h.fills.hasMembers d hd hname
  rw [← Block.classes_eq] at hd
  obtain rfl := Option.some.inj (hx.symm.trans hy)
  obtain ⟨s, t, hs, hkind, hentries⟩ := hmembers.entries
  rw [hb.symbols_class h.isFresh hd] at hx
  -- the name, the form and the type are those of the first phase
  obtain ⟨-, hform⟩ := h.declaresClasses.form d hd hname x hx
  obtain ⟨-, s₁, hs₁, hname₁, hform₁, htype₁⟩ := h.hasForm_withSymbols
    (hform.mono hfinds.interns.id_eq (.of_symbol? hfinds.interns.symbol?_mono))
  obtain rfl := Option.some.inj (hs.symm.trans hs₁)
  have hs_type : s.type? = some t := by rw [Symbol.type?, hkind]
  refine ⟨⟨hmembers.library_eq, s, hs, hname₁, .inr ⟨rfl, hform₁⟩⟩, s, hs, hname₁, ?_, ?_, ?_, ?_⟩
  · rw [Symbol.isValue, hkind]
    rfl
  · rw [hform₁]
    exact .some .classType
  · intro t' ht' _ n
    obtain rfl := Option.some.inj (hs_type.symm.trans ht')
    rw [hentries]
    exact h.rel_members hd n
  · rw [htype₁]
    exact .none

/-! ## The library -/

/-- What has a symbol is as it is sketched. -/
theorem fits_withSymbols {n : NodeId} {x : SymbolId}
    (hx : b.row (b.withSymbols deps target) n = some x) :
    (∃ m ∈ b.tree.preorder, m.id = n) ∧ ∃ k, W.declared? n = some k ∧
      (b.withSymbols deps target).library.HasSketch x k ∧
        ∃ s, (b.withSymbols deps target).library.symbol? x = some s ∧
          s.Fits ((b.withSymbols deps target).library.Means G
            (b.row (b.withSymbols deps target))) k := by
  obtain ⟨hshared, hx⟩ := Block.row_eq_some.1 hx
  rcases h.named.exists_of_symbol h.isFresh hx with ⟨d, hd, rfl⟩ | hn
  · exact ⟨⟨_, Block.classNode_mem_preorder hd, rfl⟩, _, h.describes.classes d hd,
      h.fits_class hd (fun hname => hshared ⟨d, hd, hname, rfl⟩) hx⟩
  · obtain ⟨m, hm, rfl⟩ := List.mem_map.1 hn
    refine ⟨⟨m, (List.mem_filter.1 hm).1, rfl⟩, ?_⟩
    rcases Block.exists_of_mem_bindings hn with ⟨e, he, m', hm', heq⟩ | ⟨d, hd, l, hl, heq⟩
    · rw [← heq] at hx ⊢
      exact ⟨_, h.describes.members e he m' hm', h.fits_member he hm' hx⟩
    · rw [← heq] at hx ⊢
      exact ⟨_, h.describes.locals d hd l hl, h.fits_local hd hl hx⟩

/-- Nodes have symbols of their own, apart from classes that are named by a star. -/
theorem differs_withSymbols : (b.withSymbols deps target).Differs b.IsShared := by
  have hb := h.named.toNumbered
  have hfinds := hb.finds_withTypes h.isFresh
  have hrepresents := h.represents_withClasses
  refine (hb.binds_withSymbols h.isFresh).binds.differs ⟨fun {n x} hn hx => ?_,
    fun {n m x} hn hm hx hy => ?_⟩
  · rw [hfinds.symbols_eq] at hx
    obtain ⟨-, k, -, -, s, hs, -⟩ := hrepresents.declared (Block.row_eq_some.2 ⟨hn, hx⟩)
    exact ⟨s, hfinds.interns.symbol?_mono hs⟩
  · rw [hfinds.symbols_eq] at hx hy
    exact hrepresents.row_inj (Block.row_eq_some.2 ⟨hn, hx⟩) (Block.row_eq_some.2 ⟨hm, hy⟩)

theorem portrays_withSymbols : (b.withSymbols deps target).library.Portrays W G
    (b.row (b.withSymbols deps target)) (b.atStart deps target).library where
  isApart := h.named.isApart_withSymbols h.isFresh
  id_eq := (h.named.binds_withSymbols h.isFresh).binds.library.id_eq.trans
    h.asks_withTypes.1.settles.represents.id_eq
  dependencies_eq := (h.named.binds_withSymbols h.isFresh).binds.library.dependencies_eq.trans
    h.asks_withTypes.1.settles.represents.dependencies_eq
  row_inj hx hy := by
    obtain ⟨hn, hx⟩ := Block.row_eq_some.1 hx
    obtain ⟨hm, hy⟩ := Block.row_eq_some.1 hy
    exact h.differs_withSymbols.inj hn hm hx hy
  declared hx := by
    obtain ⟨⟨m, hm, rfl⟩, k, hk, hsketch, -⟩ := h.fits_withSymbols hx
    exact ⟨h.apart m hm, k, hk, hsketch⟩
  pointer hx := by
    rw [(h.named.binds_withSymbols h.isFresh).binds.library.pointerTypes_eq] at hx
    obtain ⟨hnone, t, ht, hform⟩ := h.asks_withTypes.1.settles.represents.pointer hx
    exact ⟨hnone, t, h.means_withSymbols ht, h.hasForm_withSymbols hform⟩
  function hx := by
    rw [(h.named.binds_withSymbols h.isFresh).binds.library.functionTypes_eq] at hx
    obtain ⟨hnone, ts, t, hts, ht, hform⟩ := h.asks_withTypes.1.settles.represents.function hx
    exact ⟨hnone, ts, t, hts.imp fun _ _ => h.means_withSymbols, h.means_withSymbols ht,
      h.hasForm_withSymbols hform⟩
  fits hx := by
    obtain ⟨-, k, hk, -, s, hs, hfits⟩ := h.fits_withSymbols hx
    exact ⟨k, s, hk, hs, hfits⟩

/-! ## Names -/

/-- What a class stands for is what its symbol stands for. -/
theorem rel_entity?_withSymbols {d : ClassDecl} (hd : d ∈ b.classes) :
    Option.Rel ((b.withSymbols deps target).library.Means G (b.row (b.withSymbols deps target)))
      (d.entity? W.star?) ((b.withSymbols deps target).annotations.symbols.get? d.place.id) := by
  rw [h.named.symbols_class h.isFresh hd]
  exact rel_mono (fun hx => h.means_withSymbols (hx.mono h.asks_withTypes.1.remembers fun h => h))
    (h.rel_entity? hd)

/-- The variables and functions of the whole unit stand for themselves. -/
theorem rel_values (name : String) :
    Option.Rel ((b.withSymbols deps target).library.Means G (b.row (b.withSymbols deps target)))
      (((b.values.map Member.entry).lookup name).map .declared)
      ((b.withSymbols deps target).denoted? (b.values.map Member.entry) name) := by
  have hb := h.named.toNumbered
  rw [Context.denoted?_eq_bind]
  · cases hlookup : (b.values.map Member.entry).lookup name with
    | none => exact .none
    | some n =>
      obtain ⟨m, hm, heq⟩ := List.mem_map.1 (mem_of_lookup hlookup)
      obtain rfl : m.place.id = n := congrArg Prod.snd heq
      obtain ⟨x, hx⟩ := Option.isSome_iff_exists.1
        ((hb.binds_withSymbols h.isFresh).hasValues m hm).isSome_symbol
      obtain ⟨d, hd, hm⟩ := List.mem_flatMap.1 hm
      have hbinding := Block.member_mem_bindings (List.mem_flatMap.2 ⟨d, hd, d.values_subset hm⟩)
      rw [Option.bind_some, hx]
      exact .some (.declared (Block.row_eq_some.2 ⟨Block.not_isShared_binding hb hbinding, hx⟩))
  · rw [List.forall_mem_map]
    exact fun m hm => ((hb.binds_withSymbols h.isFresh).hasValues m hm).isSome_symbol

/-- What a name means in the whole unit. -/
theorem global?_withSymbols {name : String} (hname : b.CanSay name) :
    Option.Rel ((b.withSymbols deps target).library.Means G
      (b.row (b.withSymbols deps target))) (W.global? name)
      ((b.withSymbols deps target).globals.get? name) := by
  rw [h.named.globals_withSymbols h.isFresh]
  cases hpublished : deps.findSome? (·.global? name) with
  | some x =>
    obtain ⟨t, ht, hx⟩ := h.published hname hpublished
    rw [ht, Option.some_or]
    exact .some (.ground hx)
  | none =>
    rw [h.global?_eq hname hpublished, Option.none_or, Block.denoted?]
    exact rel_or (Context.rel_denoted?_classes (fun d hd => h.rel_entity?_withSymbols hd) name)
      (h.rel_values name)

end World.Models

end Sable
