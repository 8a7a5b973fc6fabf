import Sable.Proofs.Analysis.Correctness

/-!
# Units one behind the other

Two units with different names are joined to one. The world around the joined unit says of the first
unit what the world around that one says, though it knows more names. So if nothing is wrong with
the first unit alone, nothing is wrong with it where the second one follows.

## Main definitions

* `Block.Joins`: a unit that consists of two others.

## Main statements

* `World.written?_around_left`, `World.declared?_around_left`: what the first unit says.
* `Block.Joins.knows_left`: the world around the joined unit knows the first one.
-/
namespace Sable

open Library (core Means)

/-! ## Names that are taken -/

theorem takenNames_congr {p q : String → Bool} {names : List Ident}
    (h : ∀ name ∈ names, p name.name = q name.name) : takenNames p names = takenNames q names := by
  induction names generalizing p q with
  | nil => rfl
  | cons name names ih =>
    rw [List.forall_mem_cons] at h
    have hrest : takenNames (fun n => p n || n == name.name) names =
        takenNames (fun n => q n || n == name.name) names := by
      apply ih
      intro n hn
      rw [h.2 n hn]
    rw [takenNames, takenNames, h.1, hrest]

namespace Declaration

variable {p q : String → Bool}

theorem taken_congr {d : Declaration} (h : ∀ m ∈ d.values, p m.name.name = q m.name.name) :
    d.taken p = d.taken q := by
  match d with
  | .classDecl d => rfl
  | .function d | .variable d =>
    rw [values, List.forall_mem_singleton] at h
    rw [taken, taken, Member.listTaken, Member.listTaken, takenNames_congr (q := q) (by simpa using h)]
    rfl

/-- Only names of variables and functions of the unit matter. -/
theorem listTaken_congr {ds : List Declaration}
    (h : ∀ m ∈ ds.flatMap values, p m.name.name = q m.name.name) :
    listTaken p ds = listTaken q ds := by
  induction ds generalizing p q with
  | nil => rfl
  | cons d ds ih =>
    rw [List.flatMap_cons, List.forall_mem_append] at h
    rw [listTaken, listTaken, taken_congr h.1]
    congr 1
    apply ih
    intro m hm
    rw [h.2 m hm]

end Declaration

/-! ## Units -/

namespace Block

/-- The name of an entry is that of a declaration. -/
theorem exists_of_mem_entries {b : Block} {e : String × NodeId} (he : e ∈ b.entries) :
    ∃ d ∈ b.declarations, d.name.name = e.1 := by
  have hname : e.1 ∈ (b.classes.map ClassDecl.name ++ b.values.map Member.name).map Ident.name := by
    have hentries : b.entries.map Prod.fst =
        (b.classes.map ClassDecl.name ++ b.values.map Member.name).map Ident.name := by
      simp [entries, ClassDecl.entry, Member.entry, Function.comp_def]
    exact hentries ▸ List.mem_map_of_mem he
  obtain ⟨name, hname, heq⟩ := List.mem_map.1 hname
  obtain ⟨d, hd, rfl⟩ := List.mem_map.1 (b.map_name_declarations_perm.mem_iff.2 hname)
  exact ⟨d, hd, heq⟩

/-- The last unit has the declarations of the first one and behind them those of the second, with
the numbers that they have there. Their names are different. -/
structure Joins (b₁ b₂ b : Block) : Prop where
  declarations_eq : b.declarations = b₁.declarations ++ b₂.declarations
  id_eq : b₂.place.id = b.place.id
  regular : b.Regular
  regular_left : b₁.Regular
  regular_right : b₂.Regular
  name_ne : ∀ d ∈ b₁.declarations, ∀ e ∈ b₂.declarations, d.name.name ≠ e.name.name

namespace Joins

variable {b₁ b₂ b : Block} (h : b₁.Joins b₂ b)

include h

theorem classes_eq : b.classes = b₁.classes ++ b₂.classes := by
  rw [Block.classes_eq, Block.classes_eq, Block.classes_eq, h.declarations_eq,
    List.filterMap_append]

theorem values_eq : b.values = b₁.values ++ b₂.values := by
  rw [values, values, values, h.declarations_eq, List.flatMap_append]

theorem allFunctions_eq : b.allFunctions = b₁.allFunctions ++ b₂.allFunctions := by
  rw [allFunctions, allFunctions, allFunctions, h.declarations_eq, List.flatMap_append]

theorem checks_eq : b.checks = b₁.checks ++ b₂.checks := by
  rw [checks, checks, checks, h.declarations_eq, List.flatMap_append]

theorem entry_ne {e e' : String × NodeId} (he : e ∈ b₁.entries) (he' : e' ∈ b₂.entries) :
    e.1 ≠ e'.1 := by
  obtain ⟨d, hd, hname⟩ := exists_of_mem_entries he
  obtain ⟨d', hd', hname'⟩ := exists_of_mem_entries he'
  exact hname ▸ hname' ▸ h.name_ne d hd d' hd'

theorem ident_ne {x y : Ident} (hx : x ∈ b₁.classes.map ClassDecl.name ++ b₁.values.map Member.name)
    (hy : y ∈ b₂.classes.map ClassDecl.name ++ b₂.values.map Member.name) : x.name ≠ y.name := by
  obtain ⟨d, hd, rfl⟩ := List.mem_map.1 (b₁.map_name_declarations_perm.mem_iff.2 hx)
  obtain ⟨e, he, rfl⟩ := List.mem_map.1 (b₂.map_name_declarations_perm.mem_iff.2 hy)
  exact h.name_ne d hd e he

/-- A name of the second unit means nothing in the first one. -/
theorem named?_left_eq_none {x : Ident}
    (hx : x ∈ b₂.classes.map ClassDecl.name ++ b₂.values.map Member.name) :
    b₁.named? x.name = none := by
  by_contra hne
  obtain ⟨n, hn⟩ := Option.ne_none_iff_exists'.1 hne
  obtain ⟨d, hd, hname⟩ := exists_of_mem_entries (mem_of_lookup hn)
  obtain ⟨e, he, rfl⟩ := List.mem_map.1 (b₂.map_name_declarations_perm.mem_iff.2 hx)
  exact h.name_ne d hd e he hname

/-- A name means what it means in one of the units. -/
theorem named?_eq (name : String) : b.named? name = (b₁.named? name).or (b₂.named? name) := by
  have hsplit : b.named? name = ((b₁.classes.map ClassDecl.entry).lookup name).or
      (((b₂.classes.map ClassDecl.entry).lookup name).or
        (((b₁.values.map Member.entry).lookup name).or
          ((b₂.values.map Member.entry).lookup name))) := by
    rw [named?, entries, h.classes_eq, h.values_eq, List.map_append, List.map_append,
      List.lookup_append, List.lookup_append, List.lookup_append, Option.or_assoc]
  rw [hsplit, named?, named?, entries, entries, List.lookup_append, List.lookup_append]
  cases hclass : (b₂.classes.map ClassDecl.entry).lookup name with
  | none => rw [Option.none_or, Option.none_or, Option.or_assoc]
  | some n =>
    cases hvalue : (b₁.values.map Member.entry).lookup name with
    | none => rw [Option.none_or, Option.or_none]
    | some m =>
      have hvalue : (name, m) ∈ b₁.entries := List.mem_append_right _ (mem_of_lookup hvalue)
      have hclass : (name, n) ∈ b₂.entries := List.mem_append_left _ (mem_of_lookup hclass)
      exact (h.entry_ne hvalue hclass rfl).elim

theorem describes_left {W : World} (hW : W.Describes b) : W.Describes b₁ where
  classes d hd := hW.classes d (by rw [h.classes_eq]; exact List.mem_append_left _ hd)
  members d hd := hW.members d (by rw [h.declarations_eq]; exact List.mem_append_left _ hd)
  locals d hd := hW.locals d (by rw [h.allFunctions_eq]; exact List.mem_append_left _ hd)

theorem describes_right {W : World} (hW : W.Describes b) : W.Describes b₂ where
  classes d hd := hW.classes d (by rw [h.classes_eq]; exact List.mem_append_right _ hd)
  members d hd := hW.members d (by rw [h.declarations_eq]; exact List.mem_append_right _ hd)
  locals d hd := hW.locals d (by rw [h.allFunctions_eq]; exact List.mem_append_right _ hd)

/-- No node of a declaration of the first unit is one of the second unit. -/
theorem id_ne {d : Declaration} (hd : d ∈ b₁.declarations) {m n : Node}
    (hm : m ∈ d.tree.preorder) (hn : n ∈ b₂.tree.preorder) : m.id ≠ n.id := by
  have hnodup := h.regular.nodup_ids
  have hpreorder (b : Block) : b.tree.preorder =
      ⟨b.place, .block⟩ :: b.declarations.flatMap fun d => d.tree.preorder := by
    rw [tree, Tree.preorder, Tree.preorders_eq_flatMap, List.flatMap_map]
  rw [hpreorder, h.declarations_eq, List.flatMap_append, List.map_cons, List.map_append,
    List.nodup_cons, List.nodup_append', List.mem_append, not_or] at hnodup
  have hleft : m.id ∈ (b₁.declarations.flatMap fun d => d.tree.preorder).map Node.id :=
    List.mem_map_of_mem (List.mem_flatMap.2 ⟨d, hd, hm⟩)
  intro heq
  rw [hpreorder, List.mem_cons] at hn
  rcases hn with rfl | hn
  · rw [heq.trans h.id_eq] at hleft
    exact hnodup.1.1 hleft
  · exact hnodup.2.2.2 hleft (heq ▸ List.mem_map_of_mem hn)

/-- No node of the second unit has a symbol of the first one. -/
theorem notMem_left {n : Node} (hn : n ∈ b₂.tree.preorder) :
    ¬((∃ d ∈ b₁.classes, d.place.id = n.id) ∨ n.id ∈ b₁.tree.bindings) := by
  rintro (⟨d, hd, heq⟩ | hmem)
  · refine h.id_ne (mem_classes.1 hd) (m := ⟨d.place, .classDecl d.name⟩) ?_ hn heq
    simp [Declaration.tree, ClassDecl.tree, Tree.preorder]
  · rw [bindings_tree] at hmem
    obtain ⟨d, hd, hmem⟩ := List.mem_flatMap.1 hmem
    obtain ⟨m, hm, heq⟩ := List.mem_map.1 hmem
    exact h.id_ne hd (List.mem_filter.1 hm).1 hn heq

end Joins

end Block

/-! ## Worlds -/

theorem mapM_mono {α β : Type} {f g : α → Option β} {xs : List α} {ys : List β}
    (h : ∀ x y, f x = some y → g x = some y) (hxs : xs.mapM f = some ys) : xs.mapM g = some ys := by
  induction xs generalizing ys with
  | nil => exact hxs
  | cons x xs ih =>
    rw [List.mapM_cons, Option.bind_eq_bind, Option.bind_eq_some_iff] at hxs ⊢
    obtain ⟨y, hy, hxs⟩ := hxs
    rw [Option.bind_eq_bind, Option.bind_eq_some_iff] at hxs
    obtain ⟨zs, hzs, heq⟩ := hxs
    refine ⟨y, h x y hy, ?_⟩
    rw [ih hzs]
    exact heq

namespace World

variable {b₁ b₂ b : Block} (h : b₁.Joins b₂ b) {deps : List Library}

include h

theorem global?_around_left {name : String} {t : Entity}
    (ht : (around deps b₁).global? name = some t) : (around deps b).global? name = some t := by
  rw [global?_around_of_regular h.regular_left] at ht
  rw [global?_around_of_regular h.regular]
  cases hdeps : deps.findSome? (·.global? name) with
  | some x => simpa [hdeps] using ht
  | none =>
    rw [hdeps, Option.map_none, Option.none_or] at ht
    obtain ⟨n, hn, rfl⟩ := Option.map_eq_some_iff.1 ht
    rw [Option.map_none, Option.none_or, h.named?_eq, hn]
    rfl

/-- The types of the first unit are types. -/
theorem isSome_shape_around_left {t : Entity} (ht : ((around deps b₁).shape? t).isSome) :
    ((around deps b).shape? t).isSome := by
  rw [isSome_shape_around] at ht ⊢
  match t with
  | .given _ | .pointer _ | .function .. => exact ht
  | .declared n =>
    have hleft : (typesAround deps b₁).sketch? (.declared n) = b₁.classSketches.lookup n := rfl
    have hjoined : (typesAround deps b).sketch? (.declared n) =
        (b₁.classSketches.lookup n).or (b₂.classSketches.lookup n) := by
      change b.classSketches.lookup n = _
      rw [Block.classSketches, h.classes_eq, List.map_append, List.lookup_append]
      rfl
    rw [shape?, hleft] at ht
    rw [shape?, hjoined]
    cases hlookup : b₁.classSketches.lookup n with
    | none => simp [hlookup] at ht
    | some s => rwa [hlookup] at ht

theorem typeNamed?_around_left {name : String} {t : Entity}
    (ht : (around deps b₁).typeNamed? name = some t) :
    (around deps b).typeNamed? name = some t := by
  obtain ⟨hglobal, hshape⟩ := Option.filter_eq_some_iff.1 ht
  exact Option.filter_eq_some_iff.2
    ⟨global?_around_left h hglobal, isSome_shape_around_left h hshape⟩

omit h in
theorem pointers_around (b b' : Block) (deps : List Library) (t : Entity) (depth : Nat) :
    (around deps b').pointers t depth = (around deps b).pointers t depth := by
  have hpointerTo : ∀ t, (around deps b').pointerTo t = (around deps b).pointerTo t := by
    intro t
    cases t <;> rfl
  induction depth generalizing t with
  | zero => rfl
  | succ depth ih => rw [pointers, pointers, ih, hpointerTo]

/-- Written types of the first unit name the same types. -/
theorem written?_around_left {t : WrittenType} {x : Entity}
    (hx : (around deps b₁).written? t = some x) : (around deps b).written? t = some x := by
  obtain ⟨base, hbase, rfl⟩ := Option.map_eq_some_iff.1 hx
  rw [written?, typeNamed?_around_left h hbase, Option.map_some, pointers_around b₁ b]

theorem signature?_around_left {ps : List Parameter} {returns : Option WrittenType} {x : Entity}
    (hx : (around deps b₁).signature? ps returns = some x) :
    (around deps b).signature? ps returns = some x := by
  rw [signature?] at hx ⊢
  cases hps : ps.mapM fun p => (around deps b₁).written? p.type with
  | none => simp [hps, functionType?] at hx
  | some ts =>
    cases hresult : (around deps b₁).result? returns with
    | none => simp [hps, hresult, functionType?] at hx
    | some t =>
      have hps' : (ps.mapM fun p => (around deps b).written? p.type) = some ts :=
        mapM_mono (fun _ _ ht => written?_around_left h ht) hps
      have hresult' : (around deps b).result? returns = some t := by
        cases returns with
        | none => exact typeNamed?_around_left h hresult
        | some t => exact written?_around_left h hresult
      rw [hps, hresult] at hx
      rw [hps', hresult']
      exact hx

section Knows

variable (hknows : (around deps b₁).Knows b₁)

include hknows

theorem memberSketch_around_left {d : Declaration} (hd : d ∈ b₁.declarations) {m : Member}
    (hm : m ∈ d.members) : (around deps b).memberSketch m = (around deps b₁).memberSketch m := by
  match m with
  | .variable v =>
    have ht := Block.mem_writtenTypes_of_node (Block.preorder_subset_of_mem hd
      (Declaration.preorder_subset_of_mem hm v.type_mem_preorder))
    obtain ⟨x, hx, -⟩ := hknows.denotes_written? ht
    simp only [memberSketch, variableSketch, hx, written?_around_left h hx]
  | .function f =>
    obtain ⟨x, hx, -⟩ := hknows.denotes_signature? (Block.mem_allFunctions_of_mem_members hd hm)
    simp only [memberSketch, functionSketch, hx, signature?_around_left h hx]

theorem localSketch_around_left {d : FunctionDecl} (hd : d ∈ b₁.allFunctions) {l : LocalDecl}
    (hl : l ∈ d.locals) : (around deps b).localSketch l = (around deps b₁).localSketch l := by
  have htype : ∀ t ∈ l.type?, (around deps b).written? t = (around deps b₁).written? t := by
    intro t ht
    obtain ⟨x, hx, -⟩ := hknows.denotes_written? (Block.mem_writtenTypes_of_node
      (Block.preorder_subset_of_mem_allFunctions hd (d.type_mem_preorder l hl t ht)))
    rw [hx, written?_around_left h hx]
  match l with
  | .parameter p => simp only [localSketch, variableSketch, htype p.type rfl]
  | .variable v => simp only [localSketch, variableSketch, htype v.type rfl]
  | .label .. => rfl

/-- Nodes of the first unit declare what they declare there. -/
theorem declared?_around_left {n : NodeId}
    (hn : (∃ d ∈ b₁.classes, d.place.id = n) ∨ n ∈ b₁.tree.bindings) :
    (around deps b).declared? n = (around deps b₁).declared? n := by
  have hjoined : (around deps b).Describes b₁ :=
    h.describes_left (describes_around h.regular.toNumbered)
  have hleft : (around deps b₁).Describes b₁ := describes_around h.regular_left.toNumbered
  rcases hn with ⟨d, hd, rfl⟩ | hn
  · rw [hjoined.classes d hd, hleft.classes d hd]
  · rcases Block.exists_of_mem_bindings hn with ⟨d, hd, m, hm, rfl⟩ | ⟨d, hd, l, hl, rfl⟩
    · rw [hjoined.members d hd m hm, hleft.members d hd m hm,
        memberSketch_around_left h hknows hd hm]
    · rw [hjoined.locals d hd l hl, hleft.locals d hd l hl, localSketch_around_left h hknows hd hl]

end Knows

end World

namespace Block.Joins

variable {b₁ b₂ b : Block} (h : b₁.Joins b₂ b) {k : LibraryId}

include h

/-- What is known of the first unit alone is known where the second unit follows. -/
theorem knows_left (hknows : (World.around [core k] b₁).Knows b₁) :
    (World.around [core k] b).Knows b₁ where
  describes := h.describes_left (World.describes_around h.regular.toNumbered)
  isKnown := hknows.isKnown
  nodup_members := hknows.nodup_members
  builtin := World.builtin_around
  classes d hd := World.global?_around_left h (hknows.classes d hd)
  values m hm := World.global?_around_left h (hknows.values m hm)
  shape_pointerTo := World.shape_pointerTo_around
  shape_functionType := World.shape_functionType_around

end Block.Joins

end Sable
