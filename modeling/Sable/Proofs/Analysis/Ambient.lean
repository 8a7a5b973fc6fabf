import Sable.Proofs.Analysis.Deriving
import Sable.Proofs.Analysis.Reordering

/-!
# The world of a unit and of the built-in types

Where nothing is linked but the built-in types, the world of a unit knows the unit, if its names
are its own, its members have different names, and its written types are known. Which of these it
lacks is what the phases before the last one report.

## Main statements

* `World.knows_around`: the world of a unit knows the unit.
* `World.isWithin_around`: it knows nothing else.
* `Block.HasOwnNames.iff_takenNames`, `Block.unknown_requests_eq_nil`: what is reported if not.
-/
namespace Sable

/-! ## The built-in types -/

namespace Library

variable (k : LibraryId)

theorem core_global?_builtin (t : BuiltinType) : (core k).global? t.name = some (builtin k t) := by
  have hentries := (core_spec k).2.2.2.1
  refine lookup_of_mem ?_ ?_
  · have hnames : (core k).globals.entries.map Prod.fst =
        BuiltinType.all.map BuiltinType.name ++ ["Byte*", "Null*"] := by
      simp [hentries, Function.comp_def]
    rw [hnames]
    decide
  · rw [hentries]
    refine List.mem_append_left _ (List.mem_map.2 ⟨t, ?_, rfl⟩)
    cases t <;> decide

variable {k}

theorem core_global?_of_isPlainName {name : String} (hname : IsPlainName name) {x : SymbolId}
    (h : (core k).global? name = some x) : ∃ t : BuiltinType, name = t.name := by
  have hmem := mem_of_lookup h
  rw [(core_spec k).2.2.2.1] at hmem
  rcases List.mem_append.1 hmem with hmem | hmem
  · obtain ⟨t, -, heq⟩ := List.mem_map.1 hmem
    exact ⟨t, (congrArg Prod.fst heq).symm⟩
  · rcases List.mem_cons.1 hmem with heq | hmem
    · obtain ⟨rfl, -⟩ := Prod.mk.inj heq
      exact absurd hname (not_isPlainName_append_star "Byte")
    · obtain ⟨rfl, -⟩ := Prod.mk.inj (List.mem_singleton.1 hmem)
      exact absurd hname (not_isPlainName_append_star "Null")

theorem reachAll_linked_core : reachAll (linked [core k]) = [core k] := by
  have hlinked : linked [core k] = [core k] := rfl
  rw [hlinked, reachAll_core]

end Library

open Library (core)

namespace World

variable {b : Block} {k : LibraryId}

theorem global?_around_core (hb : b.Regular) (name : String) : (around [core k] b).global? name =
    (((core k).global? name).map .given).or ((b.named? name).map .declared) := by
  rw [global?_around_of_regular hb, List.findSome?_cons, List.findSome?_nil]
  cases (core k).global? name <;> rfl

theorem builtin_around (t : BuiltinType) : ∃ x s, (around [core k] b).global? t.name = some x ∧
    (around [core k] b).sketch? x = some s ∧ s.name = t.name ∧ s.isValue = false ∧
      s.shape = some .primitive := by
  have howned := (Library.core_owned? k (Library.builtin k t)).trans
    ((if_pos rfl).trans (Library.coreSymbols_index k t))
  let symbol : Symbol := { name := t.name, kind := .type ⟨.primitive, .empty⟩, span := .dummy }
  refine ⟨.given (Library.builtin k t), symbol.sketch, ?_, ?_, rfl, rfl, rfl⟩
  · rw [global?_around, List.findSome?_cons, Library.core_global?_builtin]
    rfl
  · change (((Library.reachAll (Library.linked [core k])).findSome? (·.owned? (Library.builtin k t))).map
      Symbol.sketch) = _
    rw [Library.reachAll_linked_core, List.findSome?_cons, howned]
    rfl

/-- The built-in types have interned the pointer types of two of them. -/
theorem shape_pointerTo_around (x : Entity) :
    (around [core k] b).shape? ((around [core k] b).pointerTo x) = some (.pointer x) := by
  cases x with
  | given x =>
    have hpointer : (around [core k] b).pointer? x = (core k).pointerTypes.get? x := by
      change (Library.reachAll (Library.linked [core k])).findSome? (·.pointerTypes.get? x) = _
      rw [Library.reachAll_linked_core, List.findSome?_cons, List.findSome?_nil]
      cases (core k).pointerTypes.get? x <;> rfl
    rw [pointerTo, hpointer]
    cases hx : (core k).pointerTypes.get? x with
    | none => rfl
    | some y =>
      change (((Library.reachAll (Library.linked [core k])).findSome? (·.owned? y)).map
        Symbol.sketch).bind Sketch.shape = _
      rw [Library.reachAll_linked_core, List.findSome?_cons, Library.core_owned?]
      rcases (Library.core_pointerType? k x y).1 hx with ⟨rfl, rfl⟩ | ⟨rfl, rfl⟩
      · rw [if_pos rfl]
        rfl
      · rw [if_pos rfl]
        rfl
  | declared n => rfl
  | pointer x => rfl
  | function xs x => rfl

theorem shape_functionType_around (xs : List Entity) (x : Entity) :
    (around [core k] b).shape? ((around [core k] b).functionType xs x) =
      some (.function xs x) := by
  have hfunction : ∀ ps r, (around [core k] b).function? ps r = none := by
    intro ps r
    change (Library.reachAll (Library.linked [core k])).findSome? (·.functionTypes.get? (ps, r)) = _
    rw [Library.reachAll_linked_core, List.findSome?_cons, (Library.core_spec k).2.2.2.2.2]
    rfl
  rw [functionType]
  split
  · rw [hfunction]
    rfl
  · rfl

end World

/-! ## Names of a unit -/

namespace Block.HasOwnNames

variable {b : Block} {deps : List Library}

/-- Names are a unit's own if none of them is reported as taken. -/
theorem iff_takenNames : b.HasOwnNames deps ↔
    Sable.takenNames (fun n => (deps.findSome? (·.global? n)).isSome)
      (b.classes.map ClassDecl.name) = [] ∧
    Sable.takenNames (fun n => (deps.findSome? (·.global? n)).isSome ||
      decide (n ∈ (b.classes.map ClassDecl.name).map Ident.name)) (b.values.map Member.name) = [] := by
  refine ⟨fun h => ⟨h.takenNames_classes, h.takenNames_values⟩, fun ⟨hclasses, hvalues⟩ => ?_⟩
  obtain ⟨hnew, hnodup⟩ := takenNames_eq_nil.1 hclasses
  obtain ⟨hnew', hnodup'⟩ := takenNames_eq_nil.1 hvalues
  simp only [Bool.or_eq_false_iff, decide_eq_false_iff_not] at hnew'
  have hperm := b.map_name_declarations_perm
  constructor
  · have hnames := (hperm.map Ident.name).nodup_iff
    rw [List.map_map] at hnames
    refine hnames.2 ?_
    rw [List.map_append, List.nodup_append']
    refine ⟨hnodup, hnodup', fun n hn hn' => ?_⟩
    obtain ⟨name, hname, rfl⟩ := List.mem_map.1 hn'
    exact (hnew' name hname).2 hn
  · intro d hd dep hdep
    have hpublished : deps.findSome? (·.global? d.name.name) = none := by
      rw [← Option.isNone_iff_eq_none, ← Option.isSome_eq_false_iff]
      rcases List.mem_append.1 (hperm.mem_iff.1 (List.mem_map_of_mem hd)) with hname | hname
      · exact hnew _ hname
      · exact (hnew' _ hname).1
    exact List.findSome?_eq_none_iff.1 hpublished dep hdep

end Block.HasOwnNames

namespace World

variable {b : Block} {k : LibraryId}

/-- What is not published means what the unit declares. -/
theorem global?_around_of_mem_entries (hb : b.Regular) (hnames : b.HasOwnNames [core k])
    {name : String} {n : NodeId} (h : (name, n) ∈ b.entries) :
    (around [core k] b).global? name = some (.declared n) := by
  have hpublished : ([core k].findSome? (·.global? name)).isSome = false := by
    rcases List.mem_append.1 h with hmem | hmem
    · obtain ⟨d, hd, heq⟩ := List.mem_map.1 hmem
      obtain ⟨rfl, -⟩ := Prod.mk.inj heq
      exact hnames.isSome_published (List.mem_append_left _ (List.mem_map_of_mem hd))
    · obtain ⟨m, hm, heq⟩ := List.mem_map.1 hmem
      obtain ⟨rfl, -⟩ := Prod.mk.inj heq
      exact hnames.isSome_published (List.mem_append_right _ (List.mem_map_of_mem hm))
  have hnamed : b.named? name = some n := lookup_of_mem hnames.nodup_entries h
  rw [Option.isSome_eq_false_iff, Option.isNone_iff_eq_none] at hpublished
  rw [global?_around_of_regular hb, hpublished, hnamed]
  rfl

/-- The world of a unit knows the unit. -/
theorem knows_around (hb : b.Regular) (hnames : b.HasOwnNames [core k])
    (hmembers : ∀ d ∈ b.classes, (d.members.map fun m => m.name.name).Nodup)
    (hknown : ∀ t ∈ b.writtenTypes, t.IsKnown b) : (around [core k] b).Knows b where
  describes := describes_around hb.toNumbered
  isKnown := hknown
  nodup_members := hmembers
  builtin := builtin_around
  classes _ hd := global?_around_of_mem_entries hb hnames
    (List.mem_append_left _ (List.mem_map_of_mem (f := ClassDecl.entry) hd))
  values _ hm := global?_around_of_mem_entries hb hnames
    (List.mem_append_right _ (List.mem_map_of_mem (f := Member.entry) hm))
  shape_pointerTo := shape_pointerTo_around
  shape_functionType := shape_functionType_around

/-- It knows nothing else. -/
theorem isWithin_around (hb : b.Regular) : (around [core k] b).IsWithin b := by
  intro name x hname hx
  rw [global?_around_core hb] at hx
  cases hcore : (core k).global? name with
  | some y => exact .inl (Library.core_global?_of_isPlainName hname hcore)
  | none =>
    rw [hcore, Option.map_none, Option.none_or] at hx
    obtain ⟨n, hn, -⟩ := Option.map_eq_some_iff.1 hx
    rcases List.mem_append.1 (mem_of_lookup hn) with hmem | hmem
    · obtain ⟨d, hd, heq⟩ := List.mem_map.1 hmem
      exact .inr (.inl ⟨d, hd, (congrArg Prod.fst heq).symm⟩)
    · obtain ⟨m, hm, heq⟩ := List.mem_map.1 hmem
      exact .inr (.inr ⟨m, hm, (congrArg Prod.fst heq).symm⟩)

/-- The built-in types and the classes of the unit are the types that can be named. -/
theorem isSome_typeNamed?_around (hb : b.Regular) {name : String} (hname : IsPlainName name) :
    ((around [core k] b).typeNamed? name).isSome = true ↔
      name ∈ BuiltinType.all.map BuiltinType.name ∨
        name ∈ b.classes.map fun d => d.name.name := by
  have hdescribes : (around [core k] b).Describes b := describes_around hb.toNumbered
  rw [typeNamed?]
  cases hcore : (core k).global? name with
  | some x =>
    obtain ⟨t, rfl⟩ := Library.core_global?_of_isPlainName hname hcore
    obtain ⟨y, s, hy, hs, -, -, hshape⟩ := builtin_around (b := b) (k := k) t
    refine iff_of_true ?_ (.inl (List.mem_map_of_mem (by cases t <;> decide)))
    rw [hy, Option.filter_some, World.shape?, hs, Option.bind_some, hshape]
    rfl
  | none =>
    have hbuiltin : name ∉ BuiltinType.all.map BuiltinType.name := fun hmem => by
      obtain ⟨t, -, rfl⟩ := List.mem_map.1 hmem
      rw [Library.core_global?_builtin] at hcore
      exact Option.some_ne_none _ hcore
    rw [or_iff_right hbuiltin, global?_around_core hb, hcore, Option.map_none, Option.none_or,
      Block.named?, Block.entries, List.lookup_append]
    cases hclass : (b.classes.map ClassDecl.entry).lookup name with
    | some n =>
      obtain ⟨d, hd, heq⟩ := List.mem_map.1 (mem_of_lookup hclass)
      obtain ⟨rfl, rfl⟩ := Prod.mk.inj heq
      refine iff_of_true ?_ (List.mem_map_of_mem (f := fun d => d.name.name) hd)
      have hsketch : (around [core k] b).sketch? (.declared d.place.id) = some d.sketch :=
        hdescribes.classes d hd
      rw [Option.some_or, Option.map_some, Option.filter_some, World.shape?, hsketch]
      rfl
    | none =>
      have hnone : name ∉ b.classes.map fun d => d.name.name := fun hmem => by
        obtain ⟨d, hd, rfl⟩ := List.mem_map.1 hmem
        have hne := List.lookup_eq_none_iff.1 hclass _ (List.mem_map_of_mem hd)
        simp [ClassDecl.entry] at hne
      refine iff_of_false ?_ hnone
      rw [Option.none_or]
      cases hvalue : (b.values.map Member.entry).lookup name with
      | none => simp
      | some n =>
        obtain ⟨m, hm, heq⟩ := List.mem_map.1 (mem_of_lookup hvalue)
        obtain ⟨d, hd, hm⟩ := List.mem_flatMap.1 hm
        obtain rfl : m.place.id = n := congrArg Prod.snd heq
        have hsketch : (around [core k] b).sketch? (.declared m.place.id) = some _ :=
          hdescribes.members d hd m (d.values_subset hm)
        simp [World.shape?, hsketch]

end World

/-! ## Written types -/

namespace Block

variable {b : Block}

/-- What is asked for is a written type, or else the type of functions that return nothing. -/
theorem mem_requests {r : Request} (hr : r ∈ b.requests) :
    (∃ t ∈ b.writtenTypes, r = t.request) ∨ (r.node = none ∧ r.name.name = Library.voidName) := by
  obtain ⟨n, hn, hr⟩ := List.mem_flatMap.1 hr
  unfold Node.requests at hr
  split at hr
  · next t hhead =>
    exact .inl ⟨t, mem_writtenTypes.2 ⟨n, hn, hhead⟩, List.mem_singleton.1 hr⟩
  · next name ps returns hhead =>
    have hkind : n.kind = .function := by rw [Node.kind, hhead, Head.kind]
    obtain ⟨d, hd, rfl⟩ := (type_and_function_of_mem_preorder hn).2 hkind
    obtain ⟨rfl, rfl, rfl⟩ := Head.function.inj hhead
    rcases List.mem_append.1 hr with hr | hr
    · obtain ⟨p, hp, rfl⟩ := List.mem_map.1 hr
      exact .inl ⟨_, parameter_mem_writtenTypes hd p hp, rfl⟩
    · obtain rfl := List.mem_singleton.1 hr
      cases hreturns : d.returns with
      | none => exact .inr ⟨rfl, rfl⟩
      | some t => exact .inl ⟨t, returns_mem_writtenTypes hd t hreturns, rfl⟩
  · exact absurd hr List.not_mem_nil

end Block

namespace Request

theorem firsts_subset (attempted : List NodeId) (rs : List Request) : firsts attempted rs ⊆ rs := by
  induction rs generalizing attempted with
  | nil => exact List.Subset.refl _
  | cons q rs ih =>
    rw [firsts]
    cases q.node with
    | none => exact List.cons_subset_cons q (ih attempted)
    | some n =>
      dsimp only
      split
      · exact List.Subset.trans (ih attempted) (List.subset_cons_self q rs)
      · exact List.cons_subset_cons q (ih (n :: attempted))

/-- A written type that is asked for is asked for a first time. -/
theorem exists_mem_firsts {attempted : List NodeId} {rs : List Request} {r : Request} (hr : r ∈ rs)
    {n : NodeId} (hn : r.node = some n) (hfresh : n ∉ attempted) :
    ∃ q ∈ firsts attempted rs, q.node = some n := by
  induction rs generalizing attempted with
  | nil => exact absurd hr List.not_mem_nil
  | cons q rs ih =>
    rw [firsts]
    rcases List.mem_cons.1 hr with rfl | hr
    · rw [hn]
      dsimp only
      rw [if_neg hfresh]
      exact ⟨r, List.mem_cons_self, hn⟩
    · cases hq : q.node with
      | none =>
        obtain ⟨q', hq', heq⟩ := ih hr hfresh
        exact ⟨q', List.mem_cons_of_mem q hq', heq⟩
      | some m =>
        dsimp only
        split
        · exact ih hr hfresh
        · by_cases hnm : n = m
          · exact ⟨q, List.mem_cons_self, hnm ▸ hq⟩
          · obtain ⟨q', hq', heq⟩ := ih hr (List.not_mem_cons_of_ne_of_not_mem hnm hfresh)
            exact ⟨q', List.mem_cons_of_mem q hq', heq⟩

end Request

namespace Block

variable {b : Block}

theorem request_mem_requests {t : WrittenType} (ht : t ∈ b.writtenTypes) :
    t.request ∈ b.requests := by
  obtain ⟨n, hn, hhead⟩ := mem_writtenTypes.1 ht
  refine List.mem_flatMap.2 ⟨n, hn, ?_⟩
  rw [Node.requests, hhead]
  exact List.mem_singleton_self _

/-- No name of a type is reported as unknown exactly if all of them are known. -/
theorem Regular.unknown_requests_eq_nil (hb : b.Regular) {k : LibraryId} :
    (b.declarations.flatMap Declaration.requests).flatMap (World.around [core k] b).unknown = [] ↔
      ∀ t ∈ b.writtenTypes, t.IsKnown b := by
  have hunknown : ∀ r : Request, (World.around [core k] b).unknown r = [] ↔
      ((World.around [core k] b).typeNamed? r.name.name).isSome = true := by
    intro r
    rw [World.unknown]
    split <;> simp_all
  simp only [← hb.firsts_requests, List.flatMap_eq_nil_iff, hunknown]
  constructor
  · intro h t ht
    obtain ⟨r, hr, hnode⟩ := Request.exists_mem_firsts (request_mem_requests ht) rfl
      List.not_mem_nil
    have htype := h r hr
    rcases mem_requests (Request.firsts_subset _ _ hr) with ⟨t', ht', rfl⟩ | ⟨hnone, -⟩
    · obtain rfl := hb.writtenTypes_inj ht' ht (Option.some.inj hnode)
      exact (World.isSome_typeNamed?_around hb (hb.isPlainName_type ht)).1 htype
    · rw [hnone] at hnode
      exact absurd hnode.symm (Option.some_ne_none _)
  · intro h r hr
    rcases mem_requests (Request.firsts_subset _ _ hr) with ⟨t, ht, rfl⟩ | ⟨-, hname⟩
    · exact (World.isSome_typeNamed?_around hb (hb.isPlainName_type ht)).2 (h t ht)
    · rw [hname]
      exact (World.isSome_typeNamed?_around hb (isPlainName_builtin .void)).2 (.inl (by decide))

end Block

end Sable
