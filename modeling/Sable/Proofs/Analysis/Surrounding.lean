import Sable.Proofs.Analysis.Checking
import Sable.Proofs.Workspace.PointerTypes

/-!
# The world around a unit

The world of a unit that is analyzed into a new library: symbols of linked libraries stand for
themselves. The number of the new library must not occur in the linked libraries.

## Main definitions

* `Library.linked`: what is linked to a new library.
* `Library.Avoids`: a number does not occur in a library.
* `Library.LinkedNames`: names of linked libraries lead to symbols of these names.
* `Library.StandTogether`: libraries of one workspace.
* `World.around`: the world of a unit and of its dependencies.

## Main statements

* `Library.StandTogether.linkedNames`: names are right in a workspace.
* `World.models_around`: the world of a unit models its analysis.
-/
namespace Sable

open Library (reachAll)

/-! ## Symbols of libraries -/

def TypeForm.shape : TypeForm → Shape
  | .primitive => .primitive
  | .classType => .classType
  | .pointer p => .pointer (.given p)
  | .function ps r => .function (ps.map .given) (.given r)

def TypeForm.mentions : TypeForm → List SymbolId
  | .primitive | .classType => []
  | .pointer p => [p]
  | .function ps r => r :: ps

namespace Symbol

/-- The sketch of a symbol where all symbols stand for themselves. -/
def sketch (s : Symbol) : Sketch where
  name := s.name
  isValue := s.isValue
  shape := s.type?.map fun t => t.form.shape
  members n := (s.type?.bind (·.members.get? n)).map .given
  type := s.type.map .given

/-- The number does not occur in what is said of a symbol. -/
structure Avoids (k : LibraryId) (s : Symbol) : Prop where
  type : ∀ x, s.type = some x → x.library ≠ k
  form : ∀ t, s.type? = some t → ∀ x ∈ t.form.mentions, x.library ≠ k
  members : ∀ t, s.type? = some t → ∀ n x, t.members.get? n = some x → x.library ≠ k

end Symbol

namespace Library

/-- The libraries that are linked to a new library. -/
def linked (deps : List Library) : List Library := (deps.foldl link (new 0 "")).dependencies

/-- The number is not that of the library, and it does not occur in its tables. -/
structure Avoids (k : LibraryId) (lib : Library) : Prop where
  id_ne : lib.id ≠ k
  symbols : ∀ s ∈ lib.symbols, s.Avoids k
  globals : ∀ name x, lib.globals.get? name = some x → x.library ≠ k
  pointerTypes : ∀ p x, lib.pointerTypes.get? p = some x → p.library ≠ k ∧ x.library ≠ k
  functionTypes : ∀ ps r x, lib.functionTypes.get? (ps, r) = some x →
    (∀ p ∈ r :: ps, p.library ≠ k) ∧ x.library ≠ k

/-- A number that occurs nowhere in these libraries. -/
def IsUnused (k : LibraryId) (deps : List Library) : Prop := ∀ dep ∈ reachAll deps, dep.Avoids k

/-- The symbol of a linked library. -/
def linkedSymbol? (deps : List Library) (x : SymbolId) : Option Symbol :=
  (reachAll (linked deps)).findSome? (·.owned? x)

/-- Names are right in what is linked: what is published has the name that it is published under,
and pointer types have names that are marked as such. -/
structure LinkedNames (deps : List Library) : Prop where
  published : ∀ {name x}, deps.findSome? (·.global? name) = some x →
    ∃ s, linkedSymbol? deps x = some s ∧ s.name = name
  pointer : ∀ {p x}, (reachAll (linked deps)).findSome? (·.pointerTypes.get? p) = some x →
    ∃ s, linkedSymbol? deps x = some s ∧ ¬IsPlainName s.name

theorem dependencies_foldl_link {lib lib' : Library} (deps : List Library)
    (h : lib.dependencies = lib'.dependencies) :
    (deps.foldl link lib).dependencies = (deps.foldl link lib').dependencies := by
  induction deps generalizing lib lib' with
  | nil => exact h
  | cons dep deps ih =>
    refine ih ?_
    rw [link, link, h]
    split
    · exact h
    · rfl

theorem linked_subset (deps : List Library) : linked deps ⊆ deps := by
  obtain ⟨dependencies, hsubset, heq⟩ := (new 0 "").foldl_link_eq deps
  rw [linked, heq]
  exact fun dep hdep => by simpa [new] using hsubset hdep

/-- Of libraries with the same number the first one is linked. -/
theorem exists_mem_linked {deps : List Library} {dep : Library} (hdep : dep ∈ deps) :
    ∃ dep' ∈ linked deps, dep'.id = dep.id := by
  have hlinked (lib : Library) :
      (∀ d ∈ lib.dependencies, d ∈ (deps.foldl link lib).dependencies) ∧
        ∀ d ∈ deps, ∃ d' ∈ (deps.foldl link lib).dependencies, d'.id = d.id := by
    clear hdep
    induction deps generalizing lib with
    | nil => exact ⟨fun _ hd => hd, nofun⟩
    | cons dep deps ih =>
      obtain ⟨hkeeps, hlinks⟩ := ih (lib.link dep)
      have hlink : (∀ d ∈ lib.dependencies, d ∈ (lib.link dep).dependencies) ∧
          ∃ d ∈ (lib.link dep).dependencies, d.id = dep.id := by
        unfold link
        split
        · next hany => exact ⟨fun _ hd => hd, by simpa using hany⟩
        · exact ⟨fun _ hd => List.mem_append_left _ hd, dep, by simp, rfl⟩
      obtain ⟨hold, d, hd, hid⟩ := hlink
      exact ⟨fun d hd => hkeeps d (hold d hd),
        List.forall_mem_cons.2 ⟨⟨d, hkeeps d hd, hid⟩, hlinks⟩⟩
  exact (hlinked (new 0 "")).2 dep hdep

/-- The libraries stand in one workspace, whatever was done there, as those do that an analysis is
run against. -/
def StandTogether (deps : List Library) : Prop :=
  ∃ steps, ∀ dep ∈ deps, ∃ k, (({} : Workspace).run steps).library? k = some dep

theorem standTogether_core : StandTogether [core 0] :=
  ⟨[.core], fun _ hdep => ⟨0, congrArg some (List.mem_singleton.1 hdep).symm⟩⟩

end Library

namespace Workspace.IsOrderly

variable {P : Library → Prop} {w : Workspace} (hw : w.IsOrderly P) {deps : List Library}
  (hdeps : ∀ dep ∈ deps, ∃ k, w.library? k = some dep)

include hw hdeps

theorem fits_of_mem {dep : Library} (hdep : dep ∈ deps) : Fits P w dep.id dep := by
  obtain ⟨k, hk⟩ := hdeps dep hdep
  exact (hw k dep hk).id_eq.symm ▸ hw k dep hk

/-- Whatever is reached stands at its place. -/
theorem library?_of_mem_reachAll {lib : Library} (hlib : lib ∈ reachAll deps) :
    w.library? lib.id = some lib := by
  obtain ⟨dep, hdep, hlib⟩ := Library.mem_reachAll.1 hlib
  rw [Library.reach_eq, List.mem_cons] at hlib
  rcases hlib with rfl | hlib
  · obtain ⟨k, hk⟩ := hdeps lib hdep
    rwa [(hw k lib hk).id_eq]
  · exact library?_of_slots ((hw.fits_of_mem hdeps hdep).holds lib hlib)

theorem coherent_reachAll : Library.Coherent (reachAll deps) := by
  intro lib hlib lib' hlib' heq
  have hplace := hw.library?_of_mem_reachAll hdeps hlib
  rw [heq, hw.library?_of_mem_reachAll hdeps hlib'] at hplace
  exact (Option.some.inj hplace).symm

end Workspace.IsOrderly

namespace Library

/-- Names are right in a workspace. -/
theorem StandTogether.linkedNames {deps : List Library} (h : StandTogether deps) :
    LinkedNames deps := by
  obtain ⟨steps, hdeps⟩ := h
  have hw := Workspace.isOrderly_run isInvariant_pointsByName steps
  have hcoherent := hw.coherent_reachAll hdeps
  have hsubset : reachAll (linked deps) ⊆ reachAll deps := reachAll_subset (linked_subset deps)
  have howned {lib : Library} (hlib : lib ∈ reachAll (linked deps)) {x : SymbolId} {s : Symbol}
      (hs : lib.owned? x = some s) : linkedSymbol? deps x = some s :=
    (hcoherent.mono hsubset).findSome?_owned? hlib hs
  constructor
  · intro name x hx
    obtain ⟨dep, hdep, hglobal⟩ := List.exists_of_findSome?_eq_some hx
    have hlinked : dep ∈ linked deps := by
      have hself {lib : Library} (hlib : lib ∈ deps) : lib ∈ reachAll deps :=
        mem_reachAll.2 ⟨lib, hlib, mem_reach_self lib⟩
      obtain ⟨dep', hdep', hid⟩ := exists_mem_linked hdep
      exact hcoherent dep' (hself (linked_subset deps hdep')) dep (hself hdep) hid ▸ hdep'
    have hfits := hw.fits_of_mem hdeps hdep
    obtain ⟨s, hs, hname⟩ := (hfits.property.1.1 hfits.isApart).globals _ _ hglobal
    obtain ⟨owner, howner, hs⟩ := exists_owned?_of_symbol? hs
    exact ⟨s, howned (mem_reachAll.2 ⟨dep, hlinked, howner⟩) hs, hname⟩
  · intro p x hx
    obtain ⟨lib, hlib, hpointer⟩ := List.exists_of_findSome?_eq_some hx
    have hproperty := (hw _ lib (hw.library?_of_mem_reachAll hdeps (hsubset hlib))).property
    obtain ⟨s, hs, hsort⟩ := hproperty.1.2 (.pointer p) x hpointer
    refine ⟨s, howned hlib hs, fun hplain => hplain.1 ?_⟩
    exact hproperty.2 s (Array.mem_of_getElem? (owned?_eq_some.1 hs).2) p hsort

/-- An analysis into a new library begins with the linked libraries. -/
theorem library_start_new (deps : List Library) (k : LibraryId) (name : String) :
    (Context.start deps (new k name)).library =
      { new k name with dependencies := linked deps } := by
  obtain ⟨dependencies, -, heq⟩ := (new k name).foldl_link_eq deps
  have hlinked : linked deps = dependencies := by
    have hdependencies : (new 0 "").dependencies = (new k name).dependencies := rfl
    rw [linked, dependencies_foldl_link deps hdependencies, heq]
  rw [hlinked]
  exact heq

section New

variable {deps : List Library} {k : LibraryId} {name : String}

/-- A new library answers what the libraries answer that it is linked to. -/
theorem firstSome?_new {α : Type} {f : Library → Option α}
    (hnew : f { new k name with dependencies := deps } = none) :
    { new k name with dependencies := deps }.firstSome? f = (reachAll deps).findSome? f := by
  rw [firstSome?_eq, reach_eq, List.findSome?_cons, hnew]

theorem symbol?_new (x : SymbolId) : { new k name with dependencies := deps }.symbol? x =
    (reachAll deps).findSome? (·.owned? x) :=
  firstSome?_new (by simp [owned?, new])

theorem pointerType?_new (p : SymbolId) : { new k name with dependencies := deps }.pointerType? p =
    (reachAll deps).findSome? (·.pointerTypes.get? p) :=
  firstSome?_new (by simp [new])

theorem lookupGlobal?_new (name' : String) :
    { new k name with dependencies := deps }.lookupGlobal? name' =
      (reachAll deps).findSome? (·.global? name') :=
  firstSome?_new (by simp [global?, new])

theorem functionType?_new (ps : List SymbolId) (r : SymbolId) :
    { new k name with dependencies := deps }.functionType? ps r =
      (reachAll deps).findSome? (·.functionTypes.get? (ps, r)) :=
  firstSome?_new (by simp [new])

/-- What a star stands for does not depend on the new library. -/
theorem starClass_new_eq {k' : LibraryId} {name' : String}
    (hk : ∀ dep ∈ reachAll deps, ∀ p x, dep.pointerTypes.get? p = some x → x.library ≠ k)
    (hk' : ∀ dep ∈ reachAll deps, ∀ p x, dep.pointerTypes.get? p = some x → x.library ≠ k') :
    { new k name with dependencies := deps }.starClass =
      { new k' name' with dependencies := deps }.starClass := by
  have hname (x : SymbolId) : { new k name with dependencies := deps }.nameOf x =
      { new k' name' with dependencies := deps }.nameOf x := by
    rw [nameOf, nameOf, symbol?_new, symbol?_new]
  have hnameless : { new k name with dependencies := deps }.nameless? =
      { new k' name' with dependencies := deps }.nameless? := by
    simp only [nameless?, lookupGlobal?_new, type?, symbol?_new]
  rw [starClass, starClass, hnameless]
  cases { new k' name' with dependencies := deps }.nameless? with
  | none => rfl
  | some p =>
    rw [Option.elim_some, Option.elim_some, pointerType?_new, pointerType?_new]
    cases hx : (reachAll deps).findSome? (·.pointerTypes.get? p) with
    | none => rw [Option.elim_none, Option.elim_none, hname]
    | some x =>
      obtain ⟨dep, hdep, hx⟩ := List.exists_of_findSome?_eq_some hx
      have hne : x.library ≠ k := hk dep hdep p x hx
      have hne' : x.library ≠ k' := hk' dep hdep p x hx
      rw [Option.elim_some, Option.elim_some, hname]
      exact (if_neg hne).trans (if_neg hne').symm

end New

theorem avoids_core {id k : LibraryId} (h : id ≠ k) : (core id).Avoids k := by
  obtain ⟨hid, -, hsymbols, hglobals, hpointers, hfunctions⟩ := core_spec id
  refine
    { id_ne := by rw [hid]; exact h
      symbols := fun s hs => ?_
      globals := fun name x hx => ?_
      pointerTypes := fun p x hx => ?_
      functionTypes := fun ps r x hx => by simp [hfunctions] at hx }
  · rw [hsymbols, List.mem_toArray, coreSymbols, List.mem_append] at hs
    rcases hs with hs | hs
    · obtain ⟨t, -, rfl⟩ := List.mem_map.1 hs
      constructor <;> simp [Symbol.type?, TypeForm.mentions]
    · obtain ⟨t, -, rfl⟩ := List.mem_map.1 hs
      constructor <;> simp [Symbol.type?, TypeForm.mentions, builtin, h]
  · have hmem := mem_of_lookup hx
    rw [hglobals, List.mem_append] at hmem
    rcases hmem with hmem | hmem
    · obtain ⟨t, -, heq⟩ := List.mem_map.1 hmem
      obtain ⟨-, rfl⟩ := Prod.mk.inj heq
      exact h
    · rcases List.mem_cons.1 hmem with heq | hmem
      · obtain ⟨-, rfl⟩ := Prod.mk.inj heq
        exact h
      · obtain ⟨-, rfl⟩ := Prod.mk.inj (List.mem_singleton.1 hmem)
        exact h
  · rcases (core_pointerType? id p x).1 hx with ⟨rfl, rfl⟩ | ⟨rfl, rfl⟩ <;> exact ⟨h, h⟩

/-- Every other number is new where there is nothing but the built-in types. -/
theorem isUnused_core {id k : LibraryId} (h : id ≠ k) : IsUnused k [core id] := by
  intro dep hdep
  rw [reachAll_core, List.mem_singleton] at hdep
  exact hdep ▸ avoids_core h

end Library

/-! ## Declarations of a unit -/

theorem lookup_of_mem {α β : Type} [BEq α] [LawfulBEq α] {es : List (α × β)} {k : α} {v : β}
    (hnodup : (es.map Prod.fst).Nodup) (h : (k, v) ∈ es) : es.lookup k = some v := by
  induction es with
  | nil => simp at h
  | cons e es ih =>
    rw [List.map_cons, List.nodup_cons] at hnodup
    rcases List.mem_cons.1 h with rfl | h
    · rw [List.lookup_cons, beq_self_eq_true]
    · have hne : (k == e.1) = false := by
        rw [beq_eq_false_iff_ne]
        rintro rfl
        exact hnodup.1 (List.mem_map.2 ⟨_, h, rfl⟩)
      rw [List.lookup_cons, hne]
      exact ih hnodup.2 h

namespace Block

variable (b : Block)

def classSketches : List (NodeId × Sketch) := b.classes.map fun d => (d.place.id, d.sketch)

/-- The declarations that are no classes. -/
def valueSketches (W : World) : List (NodeId × Sketch) :=
  (b.allMembers.map fun m => (m.place.id, W.memberSketch m)) ++
    b.allLocals.map fun l => (l.place.id, W.localSketch l)

variable {b}

theorem Numbered.nodup_sketches (hb : b.Numbered) (W : World) :
    ((b.classSketches ++ b.valueSketches W).map Prod.fst).Nodup := by
  have hvalues : (b.valueSketches W).map Prod.fst =
      b.allMembers.map (fun m => m.place.id) ++ b.allLocals.map fun l => l.place.id := by
    simp [valueSketches, Function.comp_def]
  have hclasses : b.classSketches.map Prod.fst = b.classes.map fun d => d.place.id := by
    simp [classSketches, Function.comp_def]
  rw [List.map_append, hvalues, hclasses, List.nodup_append']
  refine ⟨hb.nodup_classes, b.bindings_perm.nodup_iff.1 hb.nodup_bindings, fun n hn hmem => ?_⟩
  obtain ⟨d, hd, rfl⟩ := List.mem_map.1 hn
  exact hb.class_notMem_bindings hd (b.bindings_perm.mem_iff.2 hmem)

theorem shape_of_lookup_valueSketches {W : World} {n : NodeId} {k : Sketch}
    (h : (b.valueSketches W).lookup n = some k) : k.shape = none := by
  rcases List.mem_append.1 (mem_of_lookup h) with hmem | hmem
  · obtain ⟨m, -, heq⟩ := List.mem_map.1 hmem
    obtain ⟨-, rfl⟩ := Prod.mk.inj heq
    exact W.shape_memberSketch m
  · obtain ⟨l, -, heq⟩ := List.mem_map.1 hmem
    obtain ⟨-, rfl⟩ := Prod.mk.inj heq
    exact W.shape_localSketch l

end Block

/-! ## The world -/

namespace World

/-- The world of the dependencies of a unit, and of its classes. -/
def linkedAround (deps : List Library) (b : Block) : World where
  given? x := (Library.linkedSymbol? deps x).map Symbol.sketch
  declared? n := b.classSketches.lookup n
  pointer? p := (reachAll (Library.linked deps)).findSome? (·.pointerTypes.get? p)
  function? ps r := (reachAll (Library.linked deps)).findSome? (·.functionTypes.get? (ps, r))
  nameless? := (((reachAll (Library.linked deps)).findSome? (·.global? "")).filter fun x =>
    ((Library.linkedSymbol? deps x).bind Symbol.type?).isSome).map .given
  global? name := (deps.findSome? (·.global? name)).map .given

/-- The world of a unit that knows of the declarations of the unit only the classes. Types are the
same in it as in the whole world. -/
def typesAround (deps : List Library) (b : Block) : World :=
  { linkedAround deps b with
    global? := fun name => ((linkedAround deps b).global? name).or
      (b.denoted? (linkedAround deps b).star? name) }

/-- The world of a unit and of its dependencies. -/
def around (deps : List Library) (b : Block) : World :=
  { typesAround deps b with
    declared? := fun n => (b.classSketches ++ b.valueSketches (typesAround deps b)).lookup n }

/-- The symbols of linked libraries stand for themselves. -/
def Stands (k : LibraryId) (t : Entity) (x : SymbolId) : Prop := t = .given x ∧ x.library ≠ k

variable {W W' : World}

/-- Written types are the same where the names of types are the same. -/
theorem written?_congr (hglobal : W.global? = W'.global?) (hpointer : W.pointer? = W'.pointer?)
    (hshape : ∀ t, (W.shape? t).isSome = (W'.shape? t).isSome) (t : WrittenType) :
    W.written? t = W'.written? t := by
  have hpointers : ∀ t depth, W.pointers t depth = W'.pointers t depth := by
    intro t depth
    induction depth generalizing t with
    | zero => rfl
    | succ depth ih =>
      have hpointerTo : W.pointerTo t = W'.pointerTo t := by
        cases t <;> simp only [World.pointerTo, hpointer]
      rw [World.pointers, World.pointers, ih, hpointerTo]
  simp only [World.written?, World.typeNamed?, hglobal, hshape, hpointers]

/-- So are the types of functions. -/
theorem signature?_congr (hwritten : ∀ t, W.written? t = W'.written? t)
    (htype : ∀ name, W.typeNamed? name = W'.typeNamed? name)
    (hfunction : W.function? = W'.function?) (ps : List Parameter) (returns : Option WrittenType) :
    W.signature? ps returns = W'.signature? ps returns := by
  have hresult : W.result? returns = W'.result? returns := by
    cases returns with
    | none => exact htype _
    | some t => exact hwritten t
  have htypes : ∀ ts t, W.functionType ts t = W'.functionType ts t := by
    intro ts t
    rw [World.functionType, World.functionType, hfunction]
  have hparts : ∀ ts t, W.functionType? ts t = W'.functionType? ts t := by
    intro ts t
    rcases ts with _ | ts <;> rcases t with _ | t <;> simp [World.functionType?, htypes]
  simp only [World.signature?, hwritten, hresult, hparts]

section Around

variable {deps : List Library} {b : Block}

/-- What dependencies publish is in front of what the unit declares. -/
theorem global?_around (name : String) : (around deps b).global? name =
    ((deps.findSome? (·.global? name)).map .given).or
      (b.denoted? (around deps b).star? name) := rfl

theorem global?_around_of_regular (hb : b.Regular) (name : String) :
    (around deps b).global? name =
      ((deps.findSome? (·.global? name)).map .given).or ((b.named? name).map .declared) := by
  rw [global?_around, hb.denoted?_eq]

/-- Variables, functions and labels are no types. -/
theorem isSome_shape_around (t : Entity) :
    ((around deps b).shape? t).isSome = ((typesAround deps b).shape? t).isSome := by
  cases t with
  | given x => rfl
  | declared n =>
    have haround : (around deps b).sketch? (.declared n) =
        (b.classSketches.lookup n).or ((b.valueSketches (typesAround deps b)).lookup n) :=
      List.lookup_append
    have htypes : (typesAround deps b).sketch? (.declared n) = b.classSketches.lookup n := rfl
    rw [World.shape?, World.shape?, haround, htypes]
    cases b.classSketches.lookup n with
    | some k => rw [Option.some_or]
    | none =>
      rw [Option.none_or]
      cases hvalue : (b.valueSketches (typesAround deps b)).lookup n with
      | none => rfl
      | some k => rw [Option.bind_some, Block.shape_of_lookup_valueSketches hvalue, Option.bind_none]
  | pointer t => rfl
  | function ts t => rfl

theorem typeNamed?_around (name : String) :
    (around deps b).typeNamed? name = (typesAround deps b).typeNamed? name := by
  simp only [World.typeNamed?, isSome_shape_around]
  rfl

theorem written?_around (t : WrittenType) :
    (around deps b).written? t = (typesAround deps b).written? t :=
  have hglobal : (around deps b).global? = (typesAround deps b).global? := rfl
  have hpointer : (around deps b).pointer? = (typesAround deps b).pointer? := rfl
  written?_congr hglobal hpointer isSome_shape_around t

theorem signature?_around (ps : List Parameter) (returns : Option WrittenType) :
    (around deps b).signature? ps returns = (typesAround deps b).signature? ps returns :=
  signature?_congr written?_around typeNamed?_around rfl ps returns

theorem memberSketch_around (m : Member) :
    (around deps b).memberSketch m = (typesAround deps b).memberSketch m := by
  cases m <;> simp [memberSketch, variableSketch, functionSketch, written?_around,
    signature?_around]

theorem localSketch_around (l : LocalDecl) :
    (around deps b).localSketch l = (typesAround deps b).localSketch l := by
  cases l <;> simp [localSketch, variableSketch, written?_around]

theorem describes_around (hb : b.Numbered) : (around deps b).Describes b := by
  have hnodup := hb.nodup_sketches (typesAround deps b)
  refine ⟨fun d hd => lookup_of_mem hnodup ?_, fun d hd m hm => lookup_of_mem hnodup ?_,
    fun d hd l hl => lookup_of_mem hnodup ?_⟩
  · exact List.mem_append_left _ (List.mem_map_of_mem hd)
  · rw [memberSketch_around]
    refine List.mem_append_right _ (List.mem_append_left _ ?_)
    exact List.mem_map.2 ⟨m, List.mem_flatMap.2 ⟨d, hd, hm⟩, rfl⟩
  · rw [localSketch_around]
    refine List.mem_append_right _ (List.mem_append_right _ ?_)
    exact List.mem_map.2 ⟨l, List.mem_flatMap.2 ⟨d, hd, hl⟩, rfl⟩

end Around

/-! ## The beginning of an analysis -/

theorem stands_list {k : LibraryId} {ps : List SymbolId} (h : ∀ p ∈ ps, p.library ≠ k) :
    List.Forall₂ (Stands k) (ps.map .given) ps := by
  induction ps with
  | nil => exact .nil
  | cons p ps ih =>
    rw [List.forall_mem_cons] at h
    exact .cons ⟨rfl, h.1⟩ (ih h.2)

theorem eq_of_stands_list {k : LibraryId} {ts : List Entity} {ps : List SymbolId}
    (h : List.Forall₂ (Stands k) ts ps) :
    ts = ps.map .given ∧ ts.mapM Entity.given? = some ps := by
  induction h with
  | nil => exact ⟨rfl, rfl⟩
  | cons h _ ih =>
    obtain ⟨rfl, -⟩ := h
    obtain ⟨rfl, hgiven⟩ := ih
    refine ⟨rfl, ?_⟩
    rw [List.mapM_cons, hgiven]
    rfl

/-- A symbol is as its own sketch says. -/
theorem fits_sketch {k : LibraryId} {s : Symbol} (hs : s.Avoids k) :
    s.Fits (Stands k) s.sketch where
  name_eq := rfl
  isValue_eq := rfl
  shape := by
    have hform := hs.form
    rw [Symbol.sketch]
    generalize s.type? = t at hform ⊢
    cases t with
    | none => exact .none
    | some t =>
      have hform := hform t rfl
      rw [Option.map_some, Option.map_some]
      cases hf : t.form with
      | primitive => exact .some .primitive
      | classType => exact .some .classType
      | pointer p => exact .some (.pointer ⟨rfl, hform p (by simp [hf, TypeForm.mentions])⟩)
      | function ps r =>
        refine .some (.function (stands_list fun p hp => ?_) ⟨rfl, ?_⟩)
        · exact hform p (by simp [hf, TypeForm.mentions, hp])
        · exact hform r (by simp [hf, TypeForm.mentions])
  members t ht _ n := by
    have hmembers : s.sketch.members n = (t.members.get? n).map .given := by
      simp [Symbol.sketch, ht]
    rw [hmembers]
    cases hx : t.members.get? n with
    | none => exact .none
    | some x => exact .some ⟨rfl, hs.members t ht n x hx⟩
  type := by
    rw [Symbol.sketch]
    cases hx : s.type with
    | none => exact .none
    | some x => exact .some ⟨rfl, hs.type x hx⟩

section Start

variable {deps : List Library} {b : Block} {k : LibraryId}

theorem library_atStart_new (b : Block) (deps : List Library) (k : LibraryId) (name : String) :
    (b.atStart deps (.new k name)).library =
      { Library.new k name with dependencies := Library.linked deps } :=
  Library.library_start_new deps k name

variable (hk : Library.IsUnused k deps)
include hk

theorem avoids_linked {dep : Library} (hdep : dep ∈ reachAll (Library.linked deps)) :
    dep.Avoids k :=
  hk dep (Library.reachAll_subset (Library.linked_subset deps) hdep)

theorem grounds_around (name : String) :
    (around deps b).Grounds (Stands k) (b.atStart deps (.new k name)).library := by
  rw [library_atStart_new]
  have havoids {dep : Library} (hdep : dep ∈ reachAll (Library.linked deps)) : dep.Avoids k :=
    avoids_linked hk hdep
  have hpointed : ∀ {p x}, (reachAll (Library.linked deps)).findSome? (·.pointerTypes.get? p) =
      some x → p.library ≠ k ∧ x.library ≠ k := fun h => by
    obtain ⟨dep, hdep, hx⟩ := List.exists_of_findSome?_eq_some h
    exact (havoids hdep).pointerTypes _ _ hx
  have hmade : ∀ {ps r x}, (reachAll (Library.linked deps)).findSome?
      (·.functionTypes.get? (ps, r)) = some x →
      (∀ p ∈ r :: ps, p.library ≠ k) ∧ x.library ≠ k := fun h => by
    obtain ⟨dep, hdep, hx⟩ := List.exists_of_findSome?_eq_some h
    exact (havoids hdep).functionTypes _ _ _ hx
  refine
    { pointerTypes_eq := rfl
      functionTypes_eq := rfl
      library_ne := fun h => h.2
      biUnique := ⟨fun _ _ _ h h' => h.1.trans h'.1.symm, fun _ _ _ h h' =>
        Entity.given.inj (h.1.symm.trans h'.1)⟩
      name_eq := fun {t x} h => ?_
      fits := fun {t x} h => ?_
      pointerTo := fun {t x y} h hy => ?_
      pointerTo_eq := fun {t x} h hnone => ?_
      pointer := fun h => Entity.noConfusion h.1
      functionType := fun {ts t xs x y} hxs h hy => ?_
      functionType_eq := fun {ts t xs x} hxs h hnone => ?_
      function := fun h => Entity.noConfusion h.1
      pointerType? := fun {p} hp => ?_
      functionType? := fun {ps r p} hmem hp => ?_ }
  · obtain ⟨rfl, -⟩ := h
    rw [Library.nameOf, Library.symbol?_new, World.name]
    have hgiven : (around deps b).given? x =
        ((reachAll (Library.linked deps)).findSome? (·.owned? x)).map Symbol.sketch := rfl
    rw [hgiven]
    cases (reachAll (Library.linked deps)).findSome? (·.owned? x) <;> rfl
  · obtain ⟨rfl, -⟩ := h
    rw [Library.symbol?_new]
    change Option.Rel _ (((reachAll (Library.linked deps)).findSome? (·.owned? x)).map
      Symbol.sketch) _
    cases hs : (reachAll (Library.linked deps)).findSome? (·.owned? x) with
    | none => exact .none
    | some s =>
      obtain ⟨dep, hdep, howned⟩ := List.exists_of_findSome?_eq_some hs
      refine .some (fits_sketch ((havoids hdep).symbols s ?_))
      exact Array.mem_of_getElem? (Library.owned?_eq_some.1 howned).2
  · obtain ⟨rfl, -⟩ := h
    rw [Library.pointerType?_new] at hy
    refine ⟨?_, (hpointed hy).2⟩
    simp [World.pointerTo, around, typesAround, linkedAround, hy]
  · obtain ⟨rfl, -⟩ := h
    rw [Library.pointerType?_new] at hnone
    simp [World.pointerTo, around, typesAround, linkedAround, hnone]
  · obtain ⟨rfl, hgiven⟩ := eq_of_stands_list hxs
    obtain ⟨rfl, -⟩ := h
    rw [Library.functionType?_new] at hy
    refine ⟨?_, (hmade hy).2⟩
    simp [World.functionType, hgiven, Entity.given?, around, typesAround, linkedAround, hy]
  · obtain ⟨rfl, hgiven⟩ := eq_of_stands_list hxs
    obtain ⟨rfl, -⟩ := h
    rw [Library.functionType?_new] at hnone
    simp [World.functionType, hgiven, Entity.given?, around, typesAround, linkedAround, hnone]
  · rw [Library.pointerType?_new]
    by_contra hne
    obtain ⟨x, hx⟩ := Option.ne_none_iff_exists'.1 hne
    exact (hpointed hx).1 hp
  · rw [Library.functionType?_new]
    by_contra hne
    obtain ⟨x, hx⟩ := Option.ne_none_iff_exists'.1 hne
    exact (hmade hx).1 p hmem hp

/-- A linked type without a name stands for itself. -/
theorem nameless_around (name : String) : Option.Rel (Stands k) (around deps b).nameless?
    (b.atStart deps (.new k name)).library.nameless? := by
  rw [library_atStart_new, Library.nameless?, Library.lookupGlobal?_new]
  simp only [Library.type?, Library.symbol?_new]
  change Option.Rel _ (Option.map Entity.given (Option.filter (fun x =>
    (((reachAll (Library.linked deps)).findSome? (·.owned? x)).bind Symbol.type?).isSome) _)) _
  cases hx : ((reachAll (Library.linked deps)).findSome? (·.global? "")).filter fun x =>
      (((reachAll (Library.linked deps)).findSome? (·.owned? x)).bind Symbol.type?).isSome with
  | none => exact .none
  | some x =>
    obtain ⟨dep, hdep, hglobal⟩ :=
      List.exists_of_findSome?_eq_some (Option.filter_eq_some_iff.1 hx).1
    exact .some ⟨rfl, (avoids_linked hk hdep).globals _ _ hglobal⟩

omit hk in
theorem starClass_atStart_eq (b b' : Block) {k' : LibraryId} (hk : Library.IsUnused k deps)
    (hk' : Library.IsUnused k' deps) (name name' : String) :
    (b.atStart deps (.new k name)).library.starClass =
      (b'.atStart deps (.new k' name')).library.starClass := by
  rw [library_atStart_new, library_atStart_new]
  exact Library.starClass_new_eq
    (fun dep hdep p x hx => ((avoids_linked hk hdep).pointerTypes p x hx).2)
    fun dep hdep p x hx => ((avoids_linked hk' hdep).pointerTypes p x hx).2

omit hk in
theorem name_given_around {x : SymbolId} {s : Symbol} (hs : Library.linkedSymbol? deps x = some s) :
    (around deps b).name (.given x) = s.name := by
  have hgiven : (around deps b).given? x = (Library.linkedSymbol? deps x).map Symbol.sketch := rfl
  rw [World.name, hgiven, hs]
  rfl

omit hk in
/-- Pointer types have names. -/
theorem name_pointerTo_around (hnames : Library.LinkedNames deps) (t : Entity) :
    (around deps b).name ((around deps b).pointerTo t) ≠ "" := by
  have hmade (t : Entity) : (around deps b).name (.pointer t) ≠ "" := by
    simp [World.name]
  cases t with
  | given x =>
    have hpointer : (around deps b).pointer? x =
        (reachAll (Library.linked deps)).findSome? (·.pointerTypes.get? x) := rfl
    rw [World.pointerTo, hpointer]
    cases hx : (reachAll (Library.linked deps)).findSome? (·.pointerTypes.get? x) with
    | none => exact hmade _
    | some y =>
      obtain ⟨s, hs, hplain⟩ := hnames.pointer hx
      dsimp only
      rw [name_given_around hs]
      rintro hempty
      exact hplain (hempty ▸ by decide)
  | declared | pointer | function => exact hmade _

/-- Where the names of linked libraries are right, a star may be a name of the unit. -/
theorem knowsStar_around (hb : b.Named) (hnames : Library.LinkedNames deps) (name : String) :
    (around deps b).KnowsStar (Stands k) b deps (.new k name) := by
  have hlibrary := library_atStart_new b deps k name
  refine
    { allowsStar := ⟨?_, fun {p} hp => ?_, fun {p x} _ hx => ?_, fun _ hsome => ?_⟩
      nameless := nameless_around hk name
      name_ne := fun {name t} _ hne ht => ?_
      name_pointerTo_ne := name_pointerTo_around hnames }
  · rw [hlibrary]
    exact OrderedMap.get?_empty _
  · rw [hlibrary, Library.lookupGlobal?_new] at hp
    obtain ⟨dep, hdep, hglobal⟩ := List.exists_of_findSome?_eq_some hp
    rw [hlibrary]
    exact (avoids_linked hk hdep).globals _ _ hglobal
  · rw [hlibrary, Library.pointerType?_new] at hx
    obtain ⟨s, hs, hplain⟩ := hnames.pointer hx
    obtain ⟨dep, hdep, hpointer⟩ := List.exists_of_findSome?_eq_some hx
    rw [hlibrary]
    refine ⟨s, (Library.symbol?_new x).trans hs, hplain, fun heq => absurd heq ?_⟩
    exact ((avoids_linked hk hdep).pointerTypes _ _ hpointer).2
  · rw [hlibrary] at hsome
    simp [Library.new] at hsome
  · rw [World.typeNamed?, Option.filter_eq_some_iff, global?_around] at ht
    obtain ⟨hglobal, hshape⟩ := ht
    cases hpublished : deps.findSome? (·.global? name) with
    | some x =>
      obtain ⟨s, hs, rfl⟩ := hnames.published hpublished
      rw [hpublished, Option.map_some, Option.some_or] at hglobal
      rwa [← Option.some.inj hglobal, name_given_around hs]
    | none =>
      rw [hpublished, Option.map_none, Option.none_or] at hglobal
      exact (describes_around hb.toNumbered).name_ne hne (name_pointerTo_around hnames) hglobal
        hshape

/-- The world of a unit is right about an analysis into a new library. -/
theorem models_around (hb : b.Named) (hnames : b.HasStar → Library.LinkedNames deps)
    (name : String) : (around deps b).Models (Stands k) b deps (.new k name) where
  named := hb
  isFresh dep hdep := (hk dep (by simpa [Library.new] using hdep)).id_ne
  globals_eq := Block.globals_start (Library.isBlank_new k name)
  grounds := grounds_around hk name
  describes := describes_around hb.toNumbered
  apart _ _ _ h := Entity.noConfusion h.1
  published {name x} _ hx := by
    obtain ⟨dep, hdep, hglobal⟩ := List.exists_of_findSome?_eq_some hx
    refine ⟨.given x, ?_, rfl, ?_⟩
    · rw [global?_around, hx]
      rfl
    · refine (hk dep (Library.mem_reachAll.2 ⟨dep, hdep, ?_⟩)).globals name x hglobal
      exact Library.mem_reach_self dep
  global?_eq {name} _ hnone := by
    rw [global?_around, hnone]
    rfl
  star hstar := knowsStar_around hk hb (hnames hstar) name

theorem models_around_of_regular (hb : b.Regular) (name : String) :
    (around deps b).Models (Stands k) b deps (.new k name) :=
  models_around hk hb.named (fun hstar => absurd hstar hb.not_hasStar) name

end Start

end World

end Sable
