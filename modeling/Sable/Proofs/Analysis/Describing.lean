import Sable.Proofs.Analysis.Phases
import Sable.Proofs.Symbol.Meaning

/-!
# Worlds of units

A world describes a unit if it knows its declarations as they are written. Then the first phase of
an analysis gives the classes symbols that stand for what the world says of them.

## Main definitions

* `World.Describes`: what the declarations of a unit are.
* `Block.named?`: the declaration that a name means in the whole unit.
* `World.Models`: a world for the analysis of a unit.

## Main statements

* `World.Models.represents_withClasses`: the classes, after the first phase.
* `World.Models.globalType?`: the types that the whole unit can name.
-/
namespace Sable

open Library (Means Represents)

/-! ## Sketches of declarations -/

/-- What nodes declare. Members are known by the first of their name. -/
def ClassDecl.sketch (d : ClassDecl) : Sketch where
  name := d.name.name
  shape := some .classType
  members name := ((d.members.map Member.entry).lookup name).map .declared

namespace World

variable (W : World)

def variableSketch (name : Ident) (t : WrittenType) : Sketch where
  name := name.name
  isValue := true
  type := W.written? t

def functionSketch (d : FunctionDecl) : Sketch where
  name := d.name.name
  isValue := true
  type := W.signature? d.parameters d.returns

def memberSketch : Member → Sketch
  | .variable d => W.variableSketch d.name d.type
  | .function d => W.functionSketch d

def localSketch : LocalDecl → Sketch
  | .parameter d => W.variableSketch d.name d.type
  | .variable d => W.variableSketch d.name d.type
  | .label _ name => { name := name.name }

/-- The declarations of the unit are known. -/
structure Describes (b : Block) : Prop where
  classes : ∀ d ∈ b.classes, W.declared? d.place.id = some d.sketch
  members : ∀ d ∈ b.declarations, ∀ m ∈ d.members, W.declared? m.place.id = some (W.memberSketch m)
  locals : ∀ d ∈ b.allFunctions, ∀ l ∈ d.locals, W.declared? l.place.id = some (W.localSketch l)

@[simp] theorem shape_memberSketch (m : Member) : (W.memberSketch m).shape = none := by
  cases m <;> rfl

@[simp] theorem shape_localSketch (l : LocalDecl) : (W.localSketch l).shape = none := by
  cases l <;> rfl

end World

namespace Block

variable (b : Block)

/-- The classes, and behind them the variables and functions of the whole unit. -/
def entries : List (String × NodeId) := b.classes.map ClassDecl.entry ++ b.values.map Member.entry

/-- The declaration that a name means in the whole unit, if no dependency publishes it. -/
def named? (name : String) : Option NodeId := b.entries.lookup name

/-- The node of a class that is named by a star, which has no symbol of its own. -/
def IsShared (n : NodeId) : Prop := ∃ d ∈ b.classes, d.name.name = "*" ∧ d.place.id = n

instance (n : NodeId) : Decidable (b.IsShared n) :=
  inferInstanceAs (Decidable (∃ d ∈ b.classes, d.name.name = "*" ∧ d.place.id = n))

/-- The symbols that nodes have of their own. -/
def row (c : Context) (n : NodeId) : Option SymbolId :=
  if b.IsShared n then none else c.annotations.symbols.get? n

end Block

/-- What a class stands for, if this is what a star does. -/
def ClassDecl.entity? (star? : Option Entity) (d : ClassDecl) : Option Entity :=
  if d.name.name = "*" then star? else some (.declared d.place.id)

/-- What the classes of the unit stand for by name. -/
def Block.namedClass? (b : Block) (star? : Option Entity) (name : String) : Option Entity :=
  b.classes.findSome? fun d => if d.name.name = name then d.entity? star? else none

/-- What a name means in the whole unit, if no dependency publishes it. -/
def Block.denoted? (b : Block) (star? : Option Entity) (name : String) : Option Entity :=
  (b.namedClass? star? name).or (((b.values.map Member.entry).lookup name).map .declared)

/-- A star may be a name of the unit. What is named by it is right, and the types that the unit can
name are no types without names. -/
structure World.KnowsStar (W : World) (G : Entity → SymbolId → Prop) (b : Block)
    (deps : List Library) (target : Library) : Prop where
  allowsStar : (b.atStart deps target).AllowsStar
  nameless : Option.Rel G W.nameless? (b.atStart deps target).library.nameless?
  name_ne : ∀ {name t}, b.CanSay name → name ≠ "" → W.typeNamed? name = some t → W.name t ≠ ""
  name_pointerTo_ne : ∀ t, W.name (W.pointerTo t) ≠ ""

/-- The world describes the unit, and it is right about the dependencies and about what they
publish. The target has a number of its own and holds nothing. -/
structure World.Models (W : World) (G : Entity → SymbolId → Prop) (b : Block)
    (deps : List Library) (target : Library) : Prop where
  named : b.Named
  isFresh : Block.IsFresh deps target
  globals_eq : (b.atStart deps target).library.globals = .empty
  grounds : W.Grounds G (b.atStart deps target).library
  describes : W.Describes b
  apart : ∀ n ∈ b.tree.preorder, ∀ x, ¬G (.declared n.id) x
  published : ∀ {name x}, b.CanSay name → deps.findSome? (·.global? name) = some x →
    ∃ t, W.global? name = some t ∧ G t x
  global?_eq : ∀ {name}, b.CanSay name → deps.findSome? (·.global? name) = none →
    W.global? name = b.denoted? W.star? name
  star : b.HasStar → W.KnowsStar G b deps target

theorem mem_of_lookup {α β : Type} [BEq α] [LawfulBEq α] {k : α} {v : β} {es : List (α × β)}
    (h : es.lookup k = some v) : (k, v) ∈ es := by
  obtain ⟨es₁, es₂, rfl, -⟩ := List.lookup_eq_some_iff.1 h
  simp

/-! ## Nodes with symbols -/

namespace Block

variable {b : Block} {c c' : Context} {n : NodeId} {x : SymbolId}

theorem row_of_not_isShared (h : ¬b.IsShared n) : b.row c n = c.annotations.symbols.get? n :=
  if_neg h

theorem row_eq_some : b.row c n = some x ↔
    ¬b.IsShared n ∧ c.annotations.symbols.get? n = some x := by
  rw [row]
  split <;> simp_all

theorem not_isShared_class (hb : b.Numbered) {d : ClassDecl} (hd : d ∈ b.classes)
    (hname : d.name.name ≠ "*") : ¬b.IsShared d.place.id := by
  rintro ⟨e, he, hstar, hid⟩
  rw [List.inj_on_of_nodup_map hb.nodup_classes he hd hid] at hstar
  exact hname hstar

theorem not_isShared_binding (hb : b.Numbered) (hn : n ∈ b.tree.bindings) : ¬b.IsShared n := by
  rintro ⟨d, hd, -, rfl⟩
  exact hb.class_notMem_bindings hd hn

namespace Regular

variable (hb : b.Regular)

include hb

/-- Without a star, a name means the first class of the name. -/
theorem namedClass?_eq (star? : Option Entity) (name : String) : b.namedClass? star? name =
    ((b.classes.map ClassDecl.entry).lookup name).map .declared := by
  have hclasses : ∀ ds ⊆ b.classes,
      (ds.findSome? fun d => if d.name.name = name then d.entity? star? else none) =
        ((ds.map ClassDecl.entry).lookup name).map .declared := by
    intro ds hds
    induction ds with
    | nil => rfl
    | cons d ds ih =>
      rw [List.cons_subset] at hds
      rw [List.findSome?_cons, ih hds.2, List.map_cons, ClassDecl.entry, OrderedMap.lookup_cons,
        ClassDecl.entity?, if_neg (hb.class_ne_star hds.1)]
      by_cases hname : d.name.name = name
      · rw [if_pos hname, if_pos hname.symm]
        rfl
      · rw [if_neg hname, if_neg (Ne.symm hname)]
  exact hclasses _ (List.Subset.refl _)

theorem isSome_namedClass? (star? : Option Entity) (name : String) :
    (b.namedClass? star? name).isSome =
      decide (name ∈ (b.classes.map ClassDecl.name).map Ident.name) := by
  rw [hb.namedClass?_eq, Option.isSome_map]
  cases hlookup : (b.classes.map ClassDecl.entry).lookup name with
  | none =>
    rw [List.lookup_eq_none_iff] at hlookup
    refine (decide_eq_false fun hmem => ?_).symm
    obtain ⟨_, hname, rfl⟩ := List.mem_map.1 hmem
    obtain ⟨d, hd, rfl⟩ := List.mem_map.1 hname
    simpa [ClassDecl.entry] using hlookup _ (List.mem_map_of_mem hd)
  | some n =>
    obtain ⟨d, hd, heq⟩ := List.mem_map.1 (mem_of_lookup hlookup)
    rw [Option.isSome_some, eq_comm, decide_eq_true_iff]
    exact List.mem_map.2 ⟨d.name, List.mem_map_of_mem hd, congrArg Prod.fst heq⟩

theorem denoted?_eq (star? : Option Entity) (name : String) :
    b.denoted? star? name = (b.named? name).map .declared := by
  rw [denoted?, hb.namedClass?_eq, named?, entries, List.lookup_append, Option.map_or]

end Regular

end Block

theorem Block.exists_of_namedClass? {b : Block} {star? : Option Entity} {name : String} {t : Entity}
    (h : b.namedClass? star? name = some t) :
    ∃ d ∈ b.classes, d.name.name = name ∧ d.entity? star? = some t := by
  obtain ⟨d, hd, ht⟩ := List.exists_of_findSome?_eq_some h
  obtain ⟨hname, ht⟩ := Option.ite_none_right_eq_some.1 ht
  exact ⟨d, hd, hname, ht⟩

/-- What a name of the unit means has a name, if it is a type. -/
theorem World.Describes.name_ne {W : World} {b : Block} (h : W.Describes b) {name : String}
    (hne : name ≠ "") (hpointer : ∀ t, W.name (W.pointerTo t) ≠ "") {t : Entity}
    (ht : b.denoted? W.star? name = some t) (hshape : (W.shape? t).isSome) : W.name t ≠ "" := by
  rcases Option.or_eq_some_iff.1 ht with hclass | ⟨-, hvalue⟩
  · obtain ⟨d, hd, hname, hclass⟩ := Block.exists_of_namedClass? hclass
    unfold ClassDecl.entity? at hclass
    split at hclass
    · obtain ⟨p, -, rfl⟩ := Option.map_eq_some_iff.1 hclass
      exact hpointer p
    · obtain rfl := Option.some.inj hclass
      rw [World.name, h.classes d hd]
      change d.name.name ≠ ""
      rwa [hname]
  · obtain ⟨n, hlookup, rfl⟩ := Option.map_eq_some_iff.1 hvalue
    obtain ⟨m, hm, heq⟩ := List.mem_map.1 (mem_of_lookup hlookup)
    obtain ⟨d, hd, hm⟩ := List.mem_flatMap.1 hm
    obtain rfl : m.place.id = n := congrArg Prod.snd heq
    rw [World.shape?, World.sketch?, h.members d hd m (d.values_subset hm), Option.bind_some,
      World.shape_memberSketch] at hshape
    cases hshape

/-! ## Classes -/

theorem Context.denoted?_eq_bind {c : Context} {ds : List (String × NodeId)}
    (h : ∀ d ∈ ds, (c.annotations.symbols.get? d.2).isSome) (name : String) :
    c.denoted? ds name = (ds.lookup name).bind c.annotations.symbols.get? := by
  induction ds with
  | nil => rfl
  | cons d ds ih =>
    rw [List.forall_mem_cons] at h
    rw [denoted?_cons, ih h.2, OrderedMap.lookup_cons]
    obtain ⟨x, hx⟩ := Option.isSome_iff_exists.1 h.1
    by_cases hname : d.1 = name
    · rw [if_pos hname, if_pos hname.symm, hx, Option.bind_some, hx]
      rfl
    · rw [if_neg hname, if_neg (Ne.symm hname), Option.none_or]

theorem rel_or {α β : Type} {R : α → β → Prop} {x x' : Option α} {y y' : Option β}
    (h : Option.Rel R x y) (h' : Option.Rel R x' y') : Option.Rel R (x.or x') (y.or y') := by
  cases h with
  | none => exact h'
  | some h => exact .some h

/-- What the classes stand for by name is what their symbols stand for. -/
theorem Context.rel_denoted?_classes {c : Context} {M : Entity → SymbolId → Prop}
    {star? : Option Entity} {ds : List ClassDecl}
    (h : ∀ d ∈ ds, Option.Rel M (d.entity? star?) (c.annotations.symbols.get? d.place.id))
    (name : String) : Option.Rel M
      (ds.findSome? fun d => if d.name.name = name then d.entity? star? else none)
      (c.denoted? (ds.map ClassDecl.entry) name) := by
  induction ds with
  | nil => exact .none
  | cons d ds ih =>
    rw [List.forall_mem_cons] at h
    have hcons : ((d :: ds).findSome? fun d => if d.name.name = name then d.entity? star? else none) =
        (if d.name.name = name then d.entity? star? else none).or
          (ds.findSome? fun d => if d.name.name = name then d.entity? star? else none) := by
      rw [List.findSome?_cons]
      cases (if d.name.name = name then d.entity? star? else none) <;> rfl
    rw [hcons, List.map_cons, Context.denoted?_cons]
    refine rel_or ?_ (ih h.2)
    change Option.Rel M _ (if d.name.name = name then _ else none)
    split
    · exact h.1
    · exact .none

namespace World.Models

variable {W : World} {G : Entity → SymbolId → Prop} {b : Block} {deps : List Library}
  {target : Library} (h : W.Models G b deps target)

include h

theorem declaresClasses :
    (b.atStart deps target).DeclaresClasses b.classes (b.withClasses deps target) :=
  h.named.declaresClasses h.isFresh h.globals_eq fun hstar => (h.star hstar).allowsStar

theorem represents_withClasses : (b.withClasses deps target).library.Represents W G
    (b.row (b.withClasses deps target)) (b.atStart deps target).library := by
  have hclasses := h.declaresClasses
  obtain ⟨-, hapart, hothers, -⟩ := h.named.withClasses_spec h.isFresh
  have hrow : ∀ {n x}, b.row (b.withClasses deps target) n = some x →
      ∃ d ∈ b.classes, d.name.name ≠ "*" ∧ d.place.id = n ∧
        (b.withClasses deps target).annotations.symbols.get? n = some x := fun {n x} hx => by
    obtain ⟨hshared, hx⟩ := Block.row_eq_some.1 hx
    by_contra hn
    have hnone := hothers n fun hmem => by
      obtain ⟨d, hd, hid⟩ := List.mem_map.1 hmem
      exact hn ⟨d, hd, fun hname => hshared ⟨d, hd, hname, hid⟩, hid, hx⟩
    rw [hnone] at hx
    cases hx
  refine
    { isApart := hapart
      id_eq := hclasses.id_eq
      dependencies_eq := hclasses.dependencies_eq
      row_inj := fun hx hy => ?_
      declared := fun {n x} hx => ?_
      pointer := fun {p x} hx => ?_
      function := fun hx => ?_ }
  · obtain ⟨d, hd, hname, rfl, hx⟩ := hrow hx
    obtain ⟨e, he, hname', rfl, hy⟩ := hrow hy
    exact hclasses.inj d hd hname e he hname' (hx.trans hy.symm)
  · obtain ⟨d, hd, hname, rfl, hx⟩ := hrow hx
    obtain ⟨-, hlibrary, s, hs, hname', hform, -⟩ := hclasses.form d hd hname x hx
    exact ⟨h.apart ⟨d.place, .classDecl d.name⟩ (Block.classNode_mem_preorder hd), d.sketch,
      h.describes.classes d hd, hlibrary, s, hs, hname', .inr ⟨rfl, hform⟩⟩
  · rcases hclasses.pointerTypes hx with hx | ⟨⟨d, hd, hname⟩, hp, hnone, hform⟩
    · rw [h.grounds.pointerTypes_eq] at hx
      simp at hx
    · have hnameless := (h.star (Block.hasStar_of_class hd hname)).nameless
      rw [hp] at hnameless
      generalize W.nameless? = t at hnameless
      cases hnameless with
      | @some t _ ht =>
        rw [h.grounds.name_eq ht] at hform
        exact ⟨hnone, t, .ground ht, hform⟩
  · rw [hclasses.functionTypes_eq, h.grounds.functionTypes_eq] at hx
    simp at hx

/-- A class that is named by a star has what it stands for. -/
theorem rel_star? {d : ClassDecl} (hd : d ∈ b.classes) (hname : d.name.name = "*") :
    Option.Rel ((b.withClasses deps target).library.Means G (b.row (b.withClasses deps target)))
      W.star? ((b.withClasses deps target).annotations.symbols.get? d.place.id) := by
  obtain ⟨hrow, hsome⟩ := h.declaresClasses.star d hd hname
  have hstar := h.star (Block.hasStar_of_class hd hname)
  have hnameless := hstar.nameless
  have hkeeps := h.named.keepsStar_withClasses h.isFresh h.globals_eq (fun _ => hstar.allowsStar)
    (Block.hasStar_of_class hd hname)
  rw [hrow, World.star?, Library.star?]
  rw [Library.star?] at hsome
  rw [← hkeeps.nameless?_eq] at hnameless
  generalize W.nameless? = t, (b.withClasses deps target).library.nameless? = p at hnameless hsome ⊢
  cases hnameless with
  | none => exact .none
  | @some t p ht =>
    obtain ⟨x, hx⟩ := Option.isSome_iff_exists.1 (hsome rfl)
    rw [Option.map_some, hx]
    exact .some (h.represents_withClasses.means_pointerTo h.grounds (.ground ht) hx)

/-- What a class stands for is what its symbol stands for. -/
theorem rel_entity? {d : ClassDecl} (hd : d ∈ b.classes) :
    Option.Rel ((b.withClasses deps target).library.Means G (b.row (b.withClasses deps target)))
      (d.entity? W.star?) ((b.withClasses deps target).annotations.symbols.get? d.place.id) := by
  rw [ClassDecl.entity?]
  split
  · next hname => exact h.rel_star? hd hname
  · next hname =>
    obtain ⟨x, hx, -⟩ := h.declaresClasses.hasMembers d hd hname
    rw [hx]
    exact .some (.declared (Block.row_eq_some.2
      ⟨Block.not_isShared_class h.named.toNumbered hd hname, hx⟩))

/-- The types that the whole unit can name while types are looked up. Variables and functions have
no names yet, but they are no types either. -/
theorem globalType? {c : Context} (hc : c.globals = (b.withClasses deps target).globals)
    (hlib : c.library.Represents W G (b.row (b.withClasses deps target))
      (b.atStart deps target).library)
    (hremembers : (b.withClasses deps target).library.Remembers c.library) {name : String}
    (hname : b.CanSay name) :
    Option.Rel (c.library.Means G (b.row (b.withClasses deps target)))
      (W.typeNamed? name) (c.globalType? name) := by
  rw [World.typeNamed?, Context.globalType?, hc, (h.named.withClasses_spec h.isFresh).2.2.2]
  cases hpublished : deps.findSome? (·.global? name) with
  | some x =>
    obtain ⟨t, ht, hx⟩ := h.published hname hpublished
    rw [ht, Option.some_or]
    exact hlib.rel_filter_isSome h.grounds (.some (.ground hx))
  | none =>
    have hclasses := Context.rel_denoted?_classes (fun d hd =>
      rel_mono (fun hx => hx.mono hremembers fun h => h) (h.rel_entity? hd)) name
    rw [h.global?_eq hname hpublished, Option.none_or, Block.denoted?, Block.namedClass?]
    generalize (b.classes.findSome? fun d => if d.name.name = name then d.entity? W.star? else none) =
      t, (b.withClasses deps target).denoted? (b.classes.map ClassDecl.entry) name = x at hclasses ⊢
    cases hclasses with
    | some hx => exact hlib.rel_filter_isSome h.grounds (.some hx)
    | none =>
      rw [Option.none_or, Option.filter_none]
      cases hvalue : (b.values.map Member.entry).lookup name with
      | none => exact .none
      | some n =>
        obtain ⟨m, hm, heq⟩ := List.mem_map.1 (mem_of_lookup hvalue)
        obtain ⟨d, hd, hm⟩ := List.mem_flatMap.1 hm
        have hdeclared := h.describes.members d hd m (d.values_subset hm)
        obtain rfl : m.place.id = n := congrArg Prod.snd heq
        rw [Option.map_some, Option.filter_some, World.shape?, World.sketch?, hdeclared,
          Option.bind_some, World.shape_memberSketch]
        exact .none

end World.Models

end Sable
