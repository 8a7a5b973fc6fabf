import Sable.Proofs.Analysis.Relocating
import Sable.Proofs.Analysis.Surrounding

/-!
# Units that declare the same

The worlds around two units are alike if the units declare the same in the same order, whatever the
numbers of nodes are. What is declared in functions matters only as far as it is asked for.

## Main definitions

* `Entity.Like`: entities that differ in the numbers of nodes only.
* `Block.Paired`: units that declare the same.

## Main statements

* `World.alike_around`: the worlds around such units are alike.
-/
namespace Sable

open Library (reachAll)

variable {P : NodeId → NodeId → Prop}

/-! ## Entities -/

namespace Entity

/-- The same entity, up to the numbers of nodes. -/
inductive Like (P : NodeId → NodeId → Prop) : Entity → Entity → Prop
  | given (x : SymbolId) : Like P (.given x) (.given x)
  | declared {n n' : NodeId} (h : P n n') : Like P (.declared n) (.declared n')
  | pointer {t t' : Entity} (h : Like P t t') : Like P (.pointer t) (.pointer t')
  | function {ts ts' : List Entity} {t t' : Entity} (hs : List.Forall₂ (Like P) ts ts')
      (h : Like P t t') : Like P (.function ts t) (.function ts' t')

namespace Like

theorem given?_eq {t t' : Entity} (h : Like P t t') : t'.given? = t.given? := by
  cases h <;> rfl

theorem mapM_given?_eq {ts ts' : List Entity} (h : List.Forall₂ (Like P) ts ts') :
    ts'.mapM given? = ts.mapM given? := by
  induction h with
  | nil => rfl
  | cons h _ ih => rw [List.mapM_cons, List.mapM_cons, h.given?_eq, ih]

theorem list_given (xs : List SymbolId) : List.Forall₂ (Like P) (xs.map .given) (xs.map .given) :=
  List.forall₂_same.2 fun _ ht => by
    obtain ⟨x, -, rfl⟩ := List.mem_map.1 ht
    exact .given x

mutual

/-- Different entities stay different. -/
theorem eq_iff (hP : ∀ {n n' m m'}, P n n' → P m m' → (n = m ↔ n' = m')) : (t u : Entity) →
    {t' u' : Entity} → Like P t t' → Like P u u' → (t = u ↔ t' = u')
  | .given x, u, _, _, h, h' => by
    cases h
    cases h' <;> simp
  | .declared n, u, _, _, h, h' => by
    cases h with
    | declared h =>
      cases h' with
      | declared h' => simpa using hP h h'
      | given | pointer | function => simp
  | .pointer t, u, _, _, h, h' => by
    cases h with
    | pointer h =>
      cases h' with
      | pointer h' => simpa using eq_iff hP t _ h h'
      | given | declared | function => simp
  | .function ts t, u, _, _, h, h' => by
    cases h with
    | function hs h =>
      cases h' with
      | function hs' h' => simpa using and_congr (list_eq_iff hP ts _ hs hs') (eq_iff hP t _ h h')
      | given | declared | pointer => simp

theorem list_eq_iff (hP : ∀ {n n' m m'}, P n n' → P m m' → (n = m ↔ n' = m')) :
    (ts us : List Entity) → {ts' us' : List Entity} → List.Forall₂ (Like P) ts ts' →
    List.Forall₂ (Like P) us us' → (ts = us ↔ ts' = us')
  | [], us, _, _, h, h' => by
    cases h
    cases h' <;> simp
  | t :: ts, us, _, _, h, h' => by
    cases h with
    | cons h hs =>
      cases h' with
      | cons h' hs' => simpa using and_congr (eq_iff hP t _ h h') (list_eq_iff hP ts _ hs hs')
      | nil => simp

end

theorem biUnique (hP : ∀ {n n' m m'}, P n n' → P m m' → (n = m ↔ n' = m')) :
    Relator.BiUnique (Like P) :=
  ⟨fun _ _ _ h h' => (eq_iff hP _ _ h h').2 rfl, fun _ _ _ h h' => (eq_iff hP _ _ h h').1 rfl⟩

end Like

end Entity

open Entity (Like)

/-! ## Worlds -/

namespace World

variable {W W' : World}

/-- Worlds with the same dependencies are alike if nodes declare the same. -/
structure Matches (P : NodeId → NodeId → Prop) (W W' : World) : Prop where
  eq_iff : ∀ {n n' m m'}, P n n' → P m m' → (n = m ↔ n' = m')
  given?_eq : W'.given? = W.given?
  given? : ∀ {x k}, W.given? x = some k → ∃ s : Symbol, k = s.sketch
  pointer?_eq : W'.pointer? = W.pointer?
  function?_eq : W'.function? = W.function?
  declared? : ∀ {n n'}, P n n' → Option.Rel (fun k k' => k'.name = k.name ∧ Sketch.Alike (Like P) k k')
    (W.declared? n) (W'.declared? n')
  global? : ∀ name, Option.Rel (Like P) (W.global? name) (W'.global? name)

namespace Matches

mutual

theorem name_eq (h : W.Matches P W') : (t : Entity) → {t' : Entity} → Like P t t' → W'.name t' = W.name t
  | .given x, _, ht => by
    cases ht
    rw [name, name, h.given?_eq]
  | .declared n, _, ht => by
    cases ht with
    | declared hn =>
      have hdeclared := h.declared? hn
      rw [name, name]
      generalize W.declared? n = k, W'.declared? _ = k' at hdeclared ⊢
      cases hdeclared with
      | none => rfl
      | some hk => rw [Option.map_some, Option.map_some, hk.1]
  | .pointer t, _, ht => by
    cases ht with
    | pointer ht => rw [name, name, name_eq h t ht]
  | .function ts t, _, ht => by
    cases ht with
    | function hts ht => rw [name, name, names_eq h ts hts, name_eq h t ht]

theorem names_eq (h : W.Matches P W') : (ts : List Entity) → {ts' : List Entity} →
    List.Forall₂ (Like P) ts ts' → W'.names ts' = W.names ts
  | [], _, hts => by
    cases hts
    rw [names, names]
  | t :: ts, _, hts => by
    cases hts with
    | cons ht hts => rw [names, names, name_eq h t ht, names_eq h ts hts]

end

theorem rel_given (x : Option SymbolId) :
    Option.Rel (Like P) (x.map .given) (x.map .given) := by
  cases x with
  | none => exact .none
  | some x => exact .some (.given x)

theorem alike_shape (f : TypeForm) : f.shape.Alike (Like P) f.shape := by
  cases f with
  | primitive => exact .primitive
  | classType => exact .classType
  | pointer p => exact .pointer (.given p)
  | function ps r => exact .function (Like.list_given ps) (.given r)

theorem alike_sketch (s : Symbol) : s.sketch.Alike (Like P) s.sketch where
  isValue_eq := rfl
  shape := by
    rw [Symbol.sketch]
    cases s.type? with
    | none => exact .none
    | some t => exact .some (alike_shape t.form)
  members _ := rel_given _
  type := rel_given _

variable (h : W.Matches P W')

include h

theorem alike : W.Alike (Like P) W' where
  biUnique := Like.biUnique h.eq_iff
  name_eq := name_eq h _
  sketch? := by
    intro t t' ht
    cases ht with
    | given x =>
      rw [sketch?, sketch?, h.given?_eq]
      cases hk : W.given? x with
      | none => exact .none
      | some k =>
        obtain ⟨s, rfl⟩ := h.given? hk
        exact .some (alike_sketch s)
    | @declared n n' hn =>
      have hdeclared := h.declared? hn
      rw [sketch?, sketch?]
      generalize W.declared? n = k, W'.declared? n' = k' at hdeclared ⊢
      cases hdeclared with
      | none => exact .none
      | some hk => exact .some hk.2
    | pointer ht => exact .some ⟨rfl, .some (.pointer ht), fun _ => .none, .none⟩
    | function hs ht => exact .some ⟨rfl, .some (.function hs ht), fun _ => .none, .none⟩
  pointerTo := by
    intro t t' ht
    cases ht with
    | given x =>
      rw [pointerTo, pointerTo, h.pointer?_eq]
      cases W.pointer? x with
      | none => exact .pointer (.given x)
      | some y => exact .given y
    | declared hn => exact .pointer (.declared hn)
    | pointer ht => exact .pointer (.pointer ht)
    | function hs ht => exact .pointer (.function hs ht)
  global? := h.global?

theorem functionType {ts ts' : List Entity} {t t' : Entity} (hts : List.Forall₂ (Like P) ts ts')
    (ht : Like P t t') : Like P (W.functionType ts t) (W'.functionType ts' t') := by
  rw [World.functionType, World.functionType, Like.mapM_given?_eq hts, ht.given?_eq, h.function?_eq]
  split
  · split
    · exact .given _
    · exact .function hts ht
  · exact .function hts ht

theorem functionType? {x x' : Option (List Entity)} {y y' : Option Entity}
    (hx : Option.Rel (List.Forall₂ (Like P)) x x') (hy : Option.Rel (Like P) y y') :
    Option.Rel (Like P) (W.functionType? x y) (W'.functionType? x' y') := by
  cases hx with
  | none => exact .none
  | some hts =>
    cases hy with
    | none => exact .none
    | some ht => exact .some (h.functionType hts ht)

/-- What is written means the same. -/
theorem written? {t t' : WrittenType} (htext : t'.text = t.text) :
    Option.Rel (Like P) (W.written? t) (W'.written? t') :=
  h.alike.written?_of_text htext

/-- So do the types of functions. -/
theorem signature? {ps ps' : List Parameter} {returns returns' : Option WrittenType}
    (hps : List.Forall₂ (fun p p' => p'.type.text = p.type.text) ps ps')
    (hreturns : Option.Rel (fun t t' => t'.text = t.text) returns returns') :
    Option.Rel (Like P) (W.signature? ps returns) (W'.signature? ps' returns') := by
  have hparameters : Option.Rel (List.Forall₂ (Like P)) (ps.mapM fun p => W.written? p.type)
      (ps'.mapM fun p => W'.written? p.type) := by
    have htypes : List.Forall₂ (Option.Rel (Like P)) (ps.map fun p => W.written? p.type)
        (ps'.map fun p => W'.written? p.type) := by
      rw [List.forall₂_map_left_iff, List.forall₂_map_right_iff]
      exact hps.imp fun _ _ htext => h.written? htext
    have hmapM := rel_mapM htypes
    rwa [List.mapM_map, List.mapM_map] at hmapM
  refine h.functionType? hparameters ?_
  cases hreturns with
  | none => exact h.alike.typeNamed? _
  | some htext => exact h.written? htext

end Matches

end World

/-! ## Declarations -/

/-- The same variable or the same function, but perhaps another body. -/
inductive Member.Twin (P : NodeId → NodeId → Prop) : Member → Member → Prop
  | variable {d d' : VariableDecl} (id : P d.place.id d'.place.id) (name_eq : d'.name.name = d.name.name)
      (type : d'.type.text = d.type.text) : Twin P (.variable d) (.variable d')
  | function {d d' : FunctionDecl} (id : P d.place.id d'.place.id) (name_eq : d'.name.name = d.name.name)
      (parameters : List.Forall₂ (fun p p' => p'.type.text = p.type.text) d.parameters d'.parameters)
      (returns : Option.Rel (fun t t' => t'.text = t.text) d.returns d'.returns) :
      Twin P (.function d) (.function d')

/-- The same class. -/
structure ClassDecl.Twin (P : NodeId → NodeId → Prop) (d d' : ClassDecl) : Prop where
  id : P d.place.id d'.place.id
  name_eq : d'.name.name = d.name.name
  members : List.Forall₂ (Member.Twin P) d.members d'.members

theorem Member.Twin.entry {m m' : Member} (h : m.Twin P m') :
    m'.entry.1 = m.entry.1 ∧ P m.entry.2 m'.entry.2 := by
  cases h with
  | «variable» id name_eq | function id name_eq => exact ⟨name_eq, id⟩

theorem rel_lookup {es es' : List (String × NodeId)}
    (h : List.Forall₂ (fun e e' => e'.1 = e.1 ∧ P e.2 e'.2) es es') (name : String) :
    Option.Rel P (es.lookup name) (es'.lookup name) := by
  induction h with
  | nil => exact .none
  | @cons e e' es es' he _ ih =>
    rw [List.lookup_cons, List.lookup_cons, he.1]
    split
    · exact .some he.2
    · exact ih

theorem rel_map {α β γ δ : Type} {R : α → β → Prop} {Q : γ → δ → Prop} {f : α → γ} {g : β → δ}
    (h : ∀ {a b}, R a b → Q (f a) (g b)) {x : Option α} {y : Option β} (hxy : Option.Rel R x y) :
    Option.Rel Q (x.map f) (y.map g) := by
  cases hxy with
  | none => exact .none
  | some hab => exact .some (h hab)

theorem rel_findSome? {α β γ δ : Type} {R : α → β → Prop} {Q : γ → δ → Prop} {f : α → Option γ}
    {g : β → Option δ} {xs : List α} {ys : List β} (hxs : List.Forall₂ R xs ys)
    (h : ∀ {a b}, R a b → Option.Rel Q (f a) (g b)) :
    Option.Rel Q (xs.findSome? f) (ys.findSome? g) := by
  induction hxs with
  | nil => exact .none
  | @cons x y xs ys hx _ ih =>
    have hfirst := h hx
    rw [List.findSome?_cons, List.findSome?_cons]
    generalize f x = fx, g y = gy at hfirst ⊢
    cases hfirst with
    | none => exact ih
    | some hfirst => exact .some hfirst

/-- The same class stands for the same, if a star does. -/
theorem ClassDecl.Twin.entity? {d d' : ClassDecl} (h : d.Twin P d') {star? star?' : Option Entity}
    (hstar : Option.Rel (Like P) star? star?') :
    Option.Rel (Like P) (d.entity? star?) (d'.entity? star?') := by
  rw [ClassDecl.entity?, ClassDecl.entity?, h.name_eq]
  split
  · exact hstar
  · exact .some (.declared h.id)

/-- A moved member is the same member. -/
theorem Member.twin_move {φ : Relocation} {m : Member} (h : P m.place.id (m.place.id + φ.shift)) :
    m.Twin P (m.move φ) := by
  match m with
  | .variable d => exact .variable h rfl rfl
  | .function d =>
    refine .function h rfl ?_ ?_
    · rw [FunctionDecl.move, List.forall₂_map_right_iff, List.forall₂_same]
      exact fun _ _ => rfl
    · rw [FunctionDecl.move]
      cases d.returns with
      | none => exact .none
      | some t => exact .some rfl

theorem Member.twin_moveAll {φ : Relocation} {ms : List Member}
    (h : ∀ m ∈ ms, ∀ n ∈ m.tree.bindings, P n (n + φ.shift)) :
    List.Forall₂ (Member.Twin P) ms (ms.map (Member.move φ)) := by
  rw [List.forall₂_map_right_iff, List.forall₂_same]
  exact fun m hm => Member.twin_move (h m hm _ m.place_mem_bindings)

/-- The sketches of a class do not depend on a world. -/
theorem ClassDecl.Twin.sketch_alike {d d' : ClassDecl} (h : d.Twin P d') :
    d.sketch.Alike (Like P) d'.sketch where
  isValue_eq := rfl
  shape := .some .classType
  members name := by
    refine rel_map (f := Entity.declared) (g := Entity.declared) (fun hn => .declared hn)
      (rel_lookup (P := P) ?_ name)
    rw [List.forall₂_map_left_iff, List.forall₂_map_right_iff]
    exact h.members.imp fun _ _ hm => hm.entry
  type := .none

namespace World

variable {W W' : World}

theorem name_memberSketch (W : World) (m : Member) : (W.memberSketch m).name = m.name.name := by
  cases m <;> rfl

theorem name_localSketch (W : World) (l : LocalDecl) : (W.localSketch l).name = l.name.name := by
  cases l <;> rfl

theorem Matches.memberSketch (h : W.Matches P W') {m m' : Member} (hm : m.Twin P m') :
    (W.memberSketch m).Alike (Like P) (W'.memberSketch m') := by
  cases hm with
  | «variable» id name_eq type =>
    exact ⟨rfl, .none, fun _ => .none, h.written? type⟩
  | function id name_eq parameters returns =>
    exact ⟨rfl, .none, fun _ => .none, h.signature? parameters returns⟩

theorem Matches.localSketch (h : W.Matches P W') (φ : Relocation) (l : LocalDecl) :
    (W.localSketch l).Alike (Like P) (W'.localSketch (l.move φ)) := by
  match l with
  | .parameter d | .variable d => exact ⟨rfl, .none, fun _ => .none, h.written? rfl⟩
  | .label .. => exact ⟨rfl, .none, fun _ => .none, .none⟩

end World

/-! ## Units -/

namespace Declaration

/-- The nodes of a declaration that declare something. -/
def keys (d : Declaration) : List NodeId :=
  (d.class?.toList.map fun d => d.place.id) ++ d.tree.bindings

theorem keys_move (φ : Relocation) (d : Declaration) :
    (d.move φ).keys = d.keys.map (· + φ.shift) := by
  rw [keys, keys, class?_move, tree_move, Tree.bindings_move, List.map_append]
  cases d <;> rfl

end Declaration

/-- A moved class is the same class. -/
theorem ClassDecl.twin_move {φ : Relocation} {d : ClassDecl}
    (h : ∀ n ∈ (Declaration.classDecl d).keys, P n (n + φ.shift)) : d.Twin P (d.move φ) := by
  rw [Declaration.keys, List.forall_mem_append, Declaration.bindings_tree] at h
  refine ⟨h.1 _ (List.mem_singleton_self _), rfl, Member.twin_moveAll fun m hm n hn => ?_⟩
  exact h.2 n (List.mem_flatMap.2 ⟨m, hm, hn⟩)

namespace Declaration

variable {φ : Relocation} {ds : List Declaration} (h : ∀ d ∈ ds, ∀ n ∈ d.keys, P n (n + φ.shift))

include h

theorem classes_twin : List.Forall₂ (ClassDecl.Twin P) (ds.filterMap class?)
    ((ds.map (Declaration.move φ)).filterMap class?) := by
  induction ds with
  | nil => exact .nil
  | cons d ds ih =>
    rw [List.forall_mem_cons] at h
    match d with
    | .classDecl d => exact .cons (ClassDecl.twin_move h.1) (ih h.2)
    | .function d | .variable d => exact ih h.2

theorem values_twin : List.Forall₂ (Member.Twin P) (ds.flatMap values)
    ((ds.map (Declaration.move φ)).flatMap values) := by
  induction ds with
  | nil => exact .nil
  | cons d ds ih =>
    rw [List.forall_mem_cons] at h
    have hfirst : ∀ m ∈ d.values, P m.place.id (m.place.id + φ.shift) := by
      intro m hm
      refine h.1 _ (List.mem_append_right _ ?_)
      rw [d.bindings_tree]
      exact List.mem_flatMap.2 ⟨m, d.values_subset hm, m.place_mem_bindings⟩
    rw [List.map_cons, List.flatMap_cons, List.flatMap_cons, values_move]
    refine List.rel_append ?_ (ih h.2)
    rw [List.forall₂_map_right_iff, List.forall₂_same]
    exact fun m hm => Member.twin_move (hfirst m hm)

end Declaration

theorem Block.Numbered.nodup_keys {b : Block} (hb : b.Numbered) :
    (b.declarations.flatMap Declaration.keys).Nodup := by
  have hclasses : (b.declarations.flatMap fun d => d.class?.toList.map fun d => d.place.id) =
      b.classes.map fun d => d.place.id := by
    rw [Block.classes_eq, List.filterMap_eq_flatMap_toList, List.map_flatMap]
  have hperm : (b.declarations.flatMap Declaration.keys).Perm
      ((b.classes.map fun d => d.place.id) ++ b.tree.bindings) := by
    rw [← hclasses, b.bindings_tree]
    exact (List.flatMap_append_perm _ _ _).symm
  rw [hperm.nodup_iff, List.nodup_append']
  refine ⟨hb.nodup_classes, hb.nodup_bindings, fun n hn hmem => ?_⟩
  obtain ⟨d, hd, rfl⟩ := List.mem_map.1 hn
  exact hb.class_notMem_bindings hd hmem

namespace Block

/-- Nodes of two units that declare the same. -/
inductive Twins (P : NodeId → NodeId → Prop) (b b' : Block) : NodeId → NodeId → Prop
  | ofClass {d d' : ClassDecl} (hd : d ∈ b.classes) (hd' : d' ∈ b'.classes) (h : d.Twin P d') :
      Twins P b b' d.place.id d'.place.id
  | ofMember {m m' : Member} (hm : m ∈ b.allMembers) (hm' : m' ∈ b'.allMembers) (h : m.Twin P m') :
      Twins P b b' m.place.id m'.place.id
  | ofLocal {φ : Relocation} {l : LocalDecl} (hl : l ∈ b.allLocals) (hl' : l.move φ ∈ b'.allLocals) :
      Twins P b b' l.place.id (l.place.id + φ.shift)

/-- Two units that declare the same, in the same order. Nodes that go together declare the same. -/
structure Paired (P : NodeId → NodeId → Prop) (b b' : Block) : Prop where
  eq_iff : ∀ {n n' m m'}, P n n' → P m m' → (n = m ↔ n' = m')
  classes : List.Forall₂ (ClassDecl.Twin P) b.classes b'.classes
  values : List.Forall₂ (Member.Twin P) b.values b'.values
  twins : ∀ {n n'}, P n n' → b.Twins P b' n n'

variable {b b' : Block}

/-- What is declared in a member is declared in the moved member. -/
theorem Twins.of_member {φ : Relocation} {m : Member} (hm : m ∈ b.allMembers)
    (hm' : m.move φ ∈ b'.allMembers) (hP : ∀ n ∈ m.tree.bindings, P n (n + φ.shift)) :
    ∀ n ∈ m.tree.bindings, b.Twins P b' n (n + φ.shift) := by
  have hfunctions : ∀ {b : Block} {m : Member} {d : FunctionDecl} {l : LocalDecl}, m ∈ b.allMembers →
      d ∈ m.functions → l ∈ d.locals → l ∈ b.allLocals := by
    intro b m d l hm hd hl
    rw [allLocals, ← flatMap_functions_allMembers]
    exact List.mem_flatMap.2 ⟨d, List.mem_flatMap.2 ⟨m, hm, hd⟩, hl⟩
  have hmember := hP _ m.place_mem_bindings
  intro n hn
  rw [m.bindings_tree, List.mem_cons] at hn
  rcases hn with rfl | hn
  · have htwins := Twins.ofMember hm hm' (Member.twin_move hmember)
    rwa [Member.place_move, Place.move_id] at htwins
  · obtain ⟨l, hl, rfl⟩ := List.mem_map.1 hn
    obtain ⟨d, hd, hl⟩ := List.mem_flatMap.1 hl
    refine .ofLocal (hfunctions hm hd hl) (hfunctions hm' (d := d.move φ) ?_ ?_)
    · rw [Member.functions_move]
      exact List.mem_map_of_mem hd
    · rw [FunctionDecl.locals_move]
      exact List.mem_map_of_mem hl

/-- What is declared in a declaration is declared in the moved declaration. -/
theorem Twins.of_declaration {φ : Relocation} {d : Declaration} (hd : d ∈ b.declarations)
    (hd' : d.move φ ∈ b'.declarations) (hP : ∀ n ∈ d.keys, P n (n + φ.shift)) :
    ∀ n ∈ d.keys, b.Twins P b' n (n + φ.shift) := by
  have hmembers : ∀ n ∈ d.tree.bindings, b.Twins P b' n (n + φ.shift) := by
    intro n hn
    rw [d.bindings_tree] at hn
    obtain ⟨m, hm, hn⟩ := List.mem_flatMap.1 hn
    refine Twins.of_member (List.mem_flatMap.2 ⟨d, hd, hm⟩) (List.mem_flatMap.2 ⟨_, hd', ?_⟩) ?_ n hn
    · rw [Declaration.members_move]
      exact List.mem_map_of_mem hm
    · refine fun n hn => hP n (List.mem_append_right _ ?_)
      rw [d.bindings_tree]
      exact List.mem_flatMap.2 ⟨m, hm, hn⟩
  rw [Declaration.keys, List.forall_mem_append]
  refine ⟨?_, hmembers⟩
  match d with
  | .function _ | .variable _ => simp [Declaration.class?]
  | .classDecl d =>
    rw [Declaration.class?, Option.toList_some, List.map_singleton, List.forall_mem_singleton]
    have htwin := ClassDecl.twin_move hP
    refine .ofClass ?_ ?_ htwin
    · rw [classes_eq]
      exact List.mem_filterMap.2 ⟨_, hd, rfl⟩
    · rw [classes_eq]
      exact List.mem_filterMap.2 ⟨_, hd', rfl⟩

section Names

variable {star? star?' : Option Entity}

theorem Paired.namedClass? (h : b.Paired P b') (hstar : Option.Rel (Like P) star? star?')
    (name : String) :
    Option.Rel (Like P) (b.namedClass? star? name) (b'.namedClass? star?' name) := by
  refine rel_findSome? h.classes fun hd => ?_
  rw [hd.name_eq]
  split
  · exact hd.entity? hstar
  · exact .none

theorem Paired.denoted? (h : b.Paired P b') (hstar : Option.Rel (Like P) star? star?')
    (name : String) : Option.Rel (Like P) (b.denoted? star? name) (b'.denoted? star?' name) := by
  refine rel_or (h.namedClass? hstar name)
    (rel_map (f := Entity.declared) (g := Entity.declared) .declared (rel_lookup (P := P) ?_ name))
  rw [List.forall₂_map_left_iff, List.forall₂_map_right_iff]
  exact h.values.imp fun _ _ hm => hm.entry

end Names

/-- Only classes have a sketch without the rest of the world. -/
theorem Numbered.lookup_classSketches_eq_none (hb : b.Numbered) {n : NodeId}
    (hn : n ∈ b.tree.bindings) : b.classSketches.lookup n = none := by
  rw [List.lookup_eq_none_iff, classSketches, List.forall_mem_map]
  intro d hd
  rw [bne_iff_ne]
  rintro rfl
  exact hb.class_notMem_bindings hd hn

theorem Numbered.lookup_classSketches (hb : b.Numbered) {d : ClassDecl} (hd : d ∈ b.classes) :
    b.classSketches.lookup d.place.id = some d.sketch := by
  refine lookup_of_mem ?_ (List.mem_map_of_mem hd)
  rw [classSketches, List.map_map]
  exact hb.nodup_classes

end Block

namespace World

open Block

variable {b b' : Block} (h : b.Paired P b') (hb : b.Numbered) (hb' : b'.Numbered)
  (deps : List Library)

include h

omit h in
/-- A star stands for the same around all units. -/
theorem rel_star?_around : Option.Rel (Like P) (around deps b).star? (around deps b').star? := by
  have hgiven (x : SymbolId) : Like P ((around deps b).pointerTo (.given x))
      ((around deps b').pointerTo (.given x)) := by
    have hpointer : (around deps b').pointer? x = (around deps b).pointer? x := rfl
    rw [pointerTo, pointerTo, hpointer]
    cases (around deps b).pointer? x with
    | none => exact .pointer (.given x)
    | some y => exact .given y
  change Option.Rel _ ((linkedAround deps b).nameless?.map _) ((linkedAround deps b).nameless?.map _)
  rw [linkedAround, Option.map_map, Option.map_map]
  generalize Option.filter _ _ = x
  cases x with
  | none => exact .none
  | some x => exact .some (hgiven x)

theorem rel_global? (name : String) : Option.Rel (Like P) ((around deps b).global? name)
    ((around deps b').global? name) := by
  rw [global?_around, global?_around]
  exact rel_or (Matches.rel_given _) (h.denoted? (rel_star?_around deps) name)

include hb hb'

theorem matches_typesAround : (typesAround deps b).Matches P (typesAround deps b') where
  eq_iff := h.eq_iff
  given?_eq := rfl
  given? hx := by
    obtain ⟨s, -, rfl⟩ := Option.map_eq_some_iff.1 hx
    exact ⟨s, rfl⟩
  pointer?_eq := rfl
  function?_eq := rfl
  declared? hn := by
    change Option.Rel _ (b.classSketches.lookup _) (b'.classSketches.lookup _)
    cases h.twins hn with
    | ofClass hd hd' hdd =>
      rw [hb.lookup_classSketches hd, hb'.lookup_classSketches hd']
      exact .some ⟨hdd.name_eq, hdd.sketch_alike⟩
    | ofMember hm hm' =>
      rw [hb.lookup_classSketches_eq_none (member_mem_bindings hm),
        hb'.lookup_classSketches_eq_none (member_mem_bindings hm')]
      exact .none
    | @ofLocal φ l hl hl' =>
      have hnone := hb'.lookup_classSketches_eq_none (local_mem_bindings hl')
      rw [LocalDecl.move_place, Place.move_id] at hnone
      rw [hb.lookup_classSketches_eq_none (local_mem_bindings hl), hnone]
      exact .none
  global? := rel_global? h deps

/-- The worlds around units that declare the same. -/
theorem matches_around : (around deps b).Matches P (around deps b') where
  eq_iff := h.eq_iff
  given?_eq := rfl
  given? hx := (matches_typesAround h hb hb' deps).given? hx
  pointer?_eq := rfl
  function?_eq := rfl
  declared? hn := by
    have htypes := matches_typesAround h hb hb' deps
    have hdescribes : (around deps b).Describes b := describes_around hb
    have hdescribes' : (around deps b').Describes b' := describes_around hb'
    cases h.twins hn with
    | ofClass hd hd' hdd =>
      rw [hdescribes.classes _ hd, hdescribes'.classes _ hd']
      exact .some ⟨hdd.name_eq, hdd.sketch_alike⟩
    | ofMember hm hm' hmm =>
      obtain ⟨d, hd, hm⟩ := List.mem_flatMap.1 hm
      obtain ⟨d', hd', hm'⟩ := List.mem_flatMap.1 hm'
      rw [hdescribes.members d hd _ hm, hdescribes'.members d' hd' _ hm', memberSketch_around,
        memberSketch_around]
      refine .some ⟨?_, htypes.memberSketch hmm⟩
      rw [name_memberSketch, name_memberSketch]
      exact hmm.entry.1
    | @ofLocal φ l hl hl' =>
      obtain ⟨d, hd, hl⟩ := List.mem_flatMap.1 hl
      obtain ⟨d', hd', hl'⟩ := List.mem_flatMap.1 hl'
      have hlocal := hdescribes'.locals d' hd' _ hl'
      rw [LocalDecl.move_place, Place.move_id] at hlocal
      rw [hdescribes.locals d hd l hl, hlocal, localSketch_around, localSketch_around]
      refine .some ⟨?_, htypes.localSketch φ l⟩
      rw [name_localSketch, name_localSketch, LocalDecl.move_name, Ident.move_name]
  global? := rel_global? h deps

/-- The worlds around units that declare the same are alike. -/
theorem alike_around : (around deps b).Alike (Like P) (around deps b') :=
  (matches_around h hb hb' deps).alike

end World

end Sable
