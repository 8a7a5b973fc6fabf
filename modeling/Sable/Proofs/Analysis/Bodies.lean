import Sable.Proofs.Analysis.Pairing
import Sable.Proofs.Typing.Spans

/-!
# Bodies of functions

The body of a function is its own affair. If another body stands there, the same errors are reported
about all that stands elsewhere, in the same order.

## Main definitions

* `Block.Gap`: a unit without one of its functions.
* `Block.Gap.fill`, `Block.Gap.refill`: the unit with the function, and with another body of it.
* `SemanticError.outside`: the errors that are not about something in an interval.
* `Declaration.Redone`: the same declaration, perhaps with another body.

## Main statements

* `Block.Gap.paired_refill`: both units declare the same.
* `Declaration.Redone.listChecks`: elsewhere the same is found.
* `Block.Gap.analyze_refill`: the errors elsewhere are the same.
-/
namespace Sable

open Entity (Like)

/-! ## Gaps -/

/-- The place of a function, in a unit or among the members of a class. -/
inductive Declaration.Gap
  | function
  | method (place : Place) (name : Ident) (before after : List Member)

namespace Declaration.Gap

variable (g : Gap) (shift : Nat) (d : FunctionDecl)

def before : Gap → List Member
  | .function => []
  | .method _ _ before _ => before

def after : Gap → List Member
  | .function => []
  | .method _ _ _ after => after

def fill : Gap → Declaration
  | .function => .function d
  | .method place name before after => .classDecl ⟨place, name, before ++ .function d :: after⟩

/-- What ends behind the function has higher numbers. -/
def renumber : Gap → Gap
  | .function => .function
  | .method place name before after =>
    .method (place.move (.renumber shift)) name before (after.map (Member.move (.renumber shift)))

theorem members_fill : (g.fill d).members = g.before ++ .function d :: g.after := by
  cases g <;> rfl

@[simp] theorem before_renumber : (g.renumber shift).before = g.before := by
  cases g <;> rfl

@[simp] theorem after_renumber :
    (g.renumber shift).after = g.after.map (Member.move (.renumber shift)) := by
  cases g <;> rfl

end Declaration.Gap

/-- A unit without one of its functions. -/
structure Block.Gap where
  place : Place
  before : List Declaration
  inner : Declaration.Gap
  after : List Declaration

/-- The function with another body. Nodes are numbered in the order in which they end. -/
def FunctionDecl.withBody (d : FunctionDecl) (shift : Nat) (body : Scope) : FunctionDecl :=
  { d with place := d.place.move (.renumber shift), body }

namespace Block.Gap

variable (g : Gap) (shift : Nat) (d : FunctionDecl)

def fill : Block := ⟨g.place, g.before ++ g.inner.fill d :: g.after⟩

/-- What ends behind the function has higher numbers. -/
def renumber : Gap where
  place := g.place.move (.renumber shift)
  before := g.before
  inner := g.inner.renumber shift
  after := g.after.map (Declaration.move (.renumber shift))

/-- The unit with another body of the function, which may have more nodes. -/
def refill (body : Scope) : Block := (g.renumber shift).fill (d.withBody shift body)

/-! ## Numbers -/

/-- The nodes that declare something in front of the function. -/
def stay : List NodeId :=
  g.before.flatMap Declaration.keys ++ g.inner.before.flatMap fun m => m.tree.bindings

/-- The other nodes outside of the function, and the function itself. -/
def rise : List NodeId :=
  ((g.inner.fill d).class?.toList.map fun d => d.place.id) ++
    d.place.id :: (g.inner.after.flatMap fun m => m.tree.bindings) ++
    g.after.flatMap Declaration.keys

/-- Numbers that go together in the two units. -/
def Numbers (n n' : NodeId) : Prop := n ∈ g.stay ∧ n' = n ∨ n ∈ g.rise d ∧ n' = n + shift

theorem flatMap_keys_fill : (g.fill d).declarations.flatMap Declaration.keys =
    g.before.flatMap Declaration.keys ++
      (((g.inner.fill d).class?.toList.map fun d => d.place.id) ++
        ((g.inner.before.flatMap fun m => m.tree.bindings) ++
          ((d.place.id :: d.locals.map fun l => l.place.id) ++
            g.inner.after.flatMap fun m => m.tree.bindings)) ++
        g.after.flatMap Declaration.keys) := by
  rw [fill, List.flatMap_append, List.flatMap_cons, Declaration.keys, Declaration.bindings_tree,
    Declaration.Gap.members_fill, List.flatMap_append, List.flatMap_cons, Member.tree,
    FunctionDecl.bindings_tree]

/-- What declares something is in front of the function, behind it, or inside. -/
theorem flatMap_keys_fill_perm : ((g.fill d).declarations.flatMap Declaration.keys).Perm
    (g.stay ++ g.rise d ++ d.locals.map fun l => l.place.id) := by
  rw [flatMap_keys_fill, List.perm_iff_count]
  intro n
  simp only [stay, rise, List.count_append, List.count_cons]
  omega

theorem disjoint_stay_rise (hb : (g.fill d).Numbered) : g.stay.Disjoint (g.rise d) := by
  have hnodup := (g.flatMap_keys_fill_perm d).nodup_iff.1 hb.nodup_keys
  exact List.disjoint_of_nodup_append hnodup.of_append_left

theorem rise_renumber (body : Scope) : (g.renumber shift).rise (d.withBody shift body) =
    (g.rise d).map (· + shift) := by
  have hclass : (((g.inner.renumber shift).fill (d.withBody shift body)).class?.toList.map
      fun d => d.place.id) =
      ((g.inner.fill d).class?.toList.map fun d => d.place.id).map (· + shift) := by
    cases g.inner <;> rfl
  have hmembers : ((g.inner.after.map (Member.move (.renumber shift))).flatMap
      fun m => m.tree.bindings) = (g.inner.after.flatMap fun m => m.tree.bindings).map (· + shift) := by
    rw [List.flatMap_map, List.map_flatMap]
    refine List.flatMap_congr fun m _ => ?_
    rw [Member.tree_move, Tree.bindings_move]
    rfl
  have hafter : (g.after.map (Declaration.move (.renumber shift))).flatMap Declaration.keys =
      (g.after.flatMap Declaration.keys).map (· + shift) := by
    rw [List.flatMap_map, List.map_flatMap]
    exact List.flatMap_congr fun d _ => Declaration.keys_move (.renumber shift) d
  rw [rise, rise, renumber, hclass, Declaration.Gap.after_renumber, hmembers, hafter]
  simp [FunctionDecl.withBody]

variable {g shift d}

theorem numbers_eq_iff {body : Scope} (hb : (g.fill d).Numbered)
    (hb' : (g.refill shift d body).Numbered) {n n' m m' : NodeId} (hn : g.Numbers shift d n n')
    (hm : g.Numbers shift d m m') : n = m ↔ n' = m' := by
  have hdisjoint := g.disjoint_stay_rise d hb
  have hdisjoint' := (g.renumber shift).disjoint_stay_rise (d.withBody shift body) hb'
  rw [rise_renumber] at hdisjoint'
  have hapart : ∀ {n m : NodeId}, n ∈ g.stay → m ∈ g.rise d → n ≠ m ∧ n ≠ m + shift := by
    intro n m hn hm
    refine ⟨?_, ?_⟩
    · rintro rfl
      exact hdisjoint hn hm
    · rintro rfl
      refine hdisjoint' (a := m + shift) ?_ (List.mem_map_of_mem hm)
      rwa [stay, renumber, Declaration.Gap.before_renumber]
  rcases hn with ⟨hn, rfl⟩ | ⟨hn, rfl⟩ <;> rcases hm with ⟨hm, rfl⟩ | ⟨hm, rfl⟩
  · rfl
  · exact iff_of_false (hapart hn hm).1 (hapart hn hm).2
  · exact iff_of_false (hapart hm hn).1.symm (hapart hm hn).2.symm
  · exact (Nat.add_right_cancel_iff).symm

/-! ## Declarations -/

section Declarations

variable (g shift d)

theorem numbers_before {e : Declaration} (he : e ∈ g.before) :
    ∀ n ∈ e.keys, g.Numbers shift d n (n + (Relocation.renumber 0).shift) :=
  fun _ hn => .inl ⟨List.mem_append_left _ (List.mem_flatMap.2 ⟨e, he, hn⟩), rfl⟩

theorem numbers_inner_before {m : Member} (hm : m ∈ g.inner.before) :
    ∀ n ∈ m.tree.bindings, g.Numbers shift d n (n + (Relocation.renumber 0).shift) :=
  fun _ hn => .inl ⟨List.mem_append_right _ (List.mem_flatMap.2 ⟨m, hm, hn⟩), rfl⟩

theorem numbers_after {e : Declaration} (he : e ∈ g.after) :
    ∀ n ∈ e.keys, g.Numbers shift d n (n + (Relocation.renumber shift).shift) :=
  fun _ hn => .inr ⟨List.mem_append_right _ (List.mem_flatMap.2 ⟨e, he, hn⟩), rfl⟩

theorem numbers_inner_after {m : Member} (hm : m ∈ g.inner.after) :
    ∀ n ∈ m.tree.bindings, g.Numbers shift d n (n + (Relocation.renumber shift).shift) := by
  refine fun n hn => .inr ⟨List.mem_append_left _ (List.mem_append_right _ ?_), rfl⟩
  exact List.mem_cons_of_mem _ (List.mem_flatMap.2 ⟨m, hm, hn⟩)

theorem numbers_function : g.Numbers shift d d.place.id (d.place.id + shift) :=
  .inr ⟨List.mem_append_left _ (List.mem_append_right _ List.mem_cons_self), rfl⟩

theorem numbers_class {n : NodeId}
    (hn : n ∈ (g.inner.fill d).class?.toList.map fun d => d.place.id) :
    g.Numbers shift d n (n + shift) :=
  .inr ⟨List.mem_append_left _ (List.mem_append_left _ hn), rfl⟩

variable (body : Scope)

/-- The function is a member with another body. -/
theorem twin_withBody :
    Member.Twin (g.Numbers shift d) (.function d) (.function (d.withBody shift body)) :=
  .function (g.numbers_function shift d) rfl (List.forall₂_same.2 fun _ _ => rfl) (by
    rw [FunctionDecl.withBody]
    cases d.returns with
    | none => exact .none
    | some t => exact .some rfl)

theorem twin_members : List.Forall₂ (Member.Twin (g.Numbers shift d))
    (g.inner.before ++ .function d :: g.inner.after)
    (g.inner.before ++ .function (d.withBody shift body) ::
      g.inner.after.map (Member.move (.renumber shift))) := by
  have hbefore := Member.twin_moveAll fun m hm => g.numbers_inner_before shift d (m := m) hm
  have hafter := Member.twin_moveAll fun m hm => g.numbers_inner_after shift d (m := m) hm
  rw [Member.map_move_stay] at hbefore
  exact List.rel_append hbefore (.cons (g.twin_withBody shift d body) hafter)

/-- The class in which the function stands, with another body of the function. -/
theorem twin_class {c : ClassDecl} (hc : (g.inner.fill d).class? = some c) :
    ∃ c', ((g.inner.renumber shift).fill (d.withBody shift body)).class? = some c' ∧
      c'.place.id = c.place.id + shift ∧ c.Twin (g.Numbers shift d) c' := by
  have hid := g.numbers_class shift d (n := c.place.id) (by rw [hc]; exact List.mem_singleton_self _)
  have hmembers := g.twin_members shift d body
  generalize g.inner = inner at hc hmembers ⊢
  cases inner with
  | function => simp [Declaration.Gap.fill, Declaration.class?] at hc
  | method place name before after =>
    obtain rfl := Option.some.inj hc
    exact ⟨_, rfl, rfl, ⟨hid, rfl, hmembers⟩⟩

theorem twin_classes : List.Forall₂ (ClassDecl.Twin (g.Numbers shift d))
    (g.fill d).classes (g.refill shift d body).classes := by
  have hbefore := Declaration.classes_twin fun e he => g.numbers_before shift d (e := e) he
  have hafter := Declaration.classes_twin fun e he => g.numbers_after shift d (e := e) he
  rw [Declaration.map_move_stay] at hbefore
  rw [classes_eq, classes_eq, refill, fill, fill, renumber, List.filterMap_append,
    List.filterMap_append, List.filterMap_cons, List.filterMap_cons]
  refine List.rel_append hbefore ?_
  cases hc : (g.inner.fill d).class? with
  | some c =>
    obtain ⟨c', hc', -, htwin⟩ := g.twin_class shift d body hc
    rw [hc']
    exact .cons htwin hafter
  | none =>
    have hnone : ((g.inner.renumber shift).fill (d.withBody shift body)).class? = none := by
      generalize g.inner = inner at hc ⊢
      cases inner with
      | function => rfl
      | method => simp [Declaration.Gap.fill, Declaration.class?] at hc
    rw [hnone]
    exact hafter

theorem twin_values : List.Forall₂ (Member.Twin (g.Numbers shift d))
    (g.fill d).values (g.refill shift d body).values := by
  have hbefore := Declaration.values_twin fun e he => g.numbers_before shift d (e := e) he
  have hafter := Declaration.values_twin fun e he => g.numbers_after shift d (e := e) he
  rw [Declaration.map_move_stay] at hbefore
  rw [values, values, refill, fill, fill, renumber, List.flatMap_append, List.flatMap_append,
    List.flatMap_cons, List.flatMap_cons]
  refine List.rel_append hbefore (List.rel_append ?_ hafter)
  cases g.inner with
  | function => exact .cons (g.twin_withBody shift d body) .nil
  | method => exact .nil

theorem mem_allMembers_fill {m : Member}
    (hm : m ∈ g.inner.before ++ .function d :: g.inner.after) : m ∈ (g.fill d).allMembers :=
  List.mem_flatMap.2 ⟨g.inner.fill d, by simp [fill], (g.inner.members_fill d).symm ▸ hm⟩

theorem mem_allMembers_refill {m : Member}
    (hm : m ∈ g.inner.before ++ .function (d.withBody shift body) ::
      g.inner.after.map (Member.move (.renumber shift))) :
    m ∈ (g.refill shift d body).allMembers := by
  refine mem_allMembers_fill _ _ ?_
  rwa [renumber, Declaration.Gap.before_renumber, Declaration.Gap.after_renumber]

theorem twins_refill {n n' : NodeId} (hn : g.Numbers shift d n n') :
    (g.fill d).Twins (g.Numbers shift d) (g.refill shift d body) n n' := by
  rcases hn with ⟨hn, rfl⟩ | ⟨hn, rfl⟩
  · rw [stay, List.mem_append, List.mem_flatMap, List.mem_flatMap] at hn
    rcases hn with ⟨e, he, hn⟩ | ⟨m, hm, hn⟩
    · refine Twins.of_declaration (d := e) (List.mem_append_left _ he) ?_
        (g.numbers_before shift d he) _ hn
      rw [e.move_stay]
      exact List.mem_append_left _ he
    · refine Twins.of_member (g.mem_allMembers_fill d (List.mem_append_left _ hm)) ?_
        (g.numbers_inner_before shift d hm) _ hn
      rw [m.move_stay]
      exact g.mem_allMembers_refill shift d body (List.mem_append_left _ hm)
  · rw [rise, List.mem_append, List.mem_append, List.mem_cons, List.mem_flatMap,
      List.mem_flatMap] at hn
    rcases hn with (hn | rfl | ⟨m, hm, hn⟩) | ⟨e, he, hn⟩
    · obtain ⟨c, hc, rfl⟩ := List.mem_map.1 hn
      obtain ⟨c', hc', hid, htwin⟩ := g.twin_class shift d body (Option.mem_toList.1 hc)
      rw [← hid]
      refine .ofClass ?_ ?_ htwin
      · rw [classes_eq]
        exact List.mem_filterMap.2 ⟨g.inner.fill d, by simp [fill], Option.mem_toList.1 hc⟩
      · rw [classes_eq]
        exact List.mem_filterMap.2 ⟨_, by simp [refill, fill, renumber], hc'⟩
    · exact Twins.ofMember (g.mem_allMembers_fill d (by simp))
        (g.mem_allMembers_refill shift d body (by simp)) (g.twin_withBody shift d body)
    · refine Twins.of_member (g.mem_allMembers_fill d (by simp [hm]))
        (g.mem_allMembers_refill shift d body ?_) (g.numbers_inner_after shift d hm) n hn
      exact List.mem_append_right _ (List.mem_cons_of_mem _ (List.mem_map_of_mem hm))
    · refine Twins.of_declaration (d := e) ?_ ?_ (g.numbers_after shift d he) n hn
      · exact List.mem_append_right _ (List.mem_cons_of_mem _ he)
      · exact List.mem_append_right _ (List.mem_cons_of_mem _ (List.mem_map_of_mem he))

end Declarations

/-- The unit declares the same with another body. -/
theorem paired_refill {body : Scope} (hb : (g.fill d).Numbered)
    (hb' : (g.refill shift d body).Numbered) :
    (g.fill d).Paired (g.Numbers shift d) (g.refill shift d body) where
  eq_iff := numbers_eq_iff hb hb'
  classes := g.twin_classes shift d body
  values := g.twin_values shift d body
  twins := g.twins_refill shift d body

end Block.Gap

/-! ## Errors elsewhere -/

/-- The span stands in the interval. -/
abbrev Span.IsIn (interval s : Span) : Prop :=
  interval.start ≤ s.start ∧ s.stop ≤ interval.stop

/-- The errors that are not about something in the interval. -/
def SemanticError.outside (interval : Span) (es : List SemanticError) : List SemanticError :=
  es.filter fun e => ¬interval.IsIn e.span

open SemanticError (outside)

section Outside

variable (interval : Span) (es es' : List SemanticError)

theorem outside_append : outside interval (es ++ es') = outside interval es ++ outside interval es' :=
  List.filter_append ..

variable {interval es}

theorem outside_eq_nil (h : ∀ e ∈ es, interval.IsIn e.span) : outside interval es = [] := by
  rw [outside, List.filter_eq_nil_iff]
  exact fun e he => by simpa using h e he

end Outside

variable {P : NodeId → NodeId → Prop} {interval : Span} {W W' : World}

theorem World.unknown_congr (h : W.Matches P W') {r r' : Request} (hname : r'.name = r.name) :
    W'.unknown r' = W.unknown r := by
  have htype := h.alike.typeNamed? r.name.name
  rw [World.unknown, World.unknown, hname]
  generalize W.typeNamed? r.name.name = x, W'.typeNamed? r.name.name = x' at htype ⊢
  cases htype <;> rfl

theorem Ident.map_move_renumber (shift : Nat) (names : List Ident) :
    names.map (Ident.move (.renumber shift)) = names := by
  rw [funext fun name => Ident.move_renumber name shift, List.map_id']

/-- The same requests, made by nodes with other numbers. -/
theorem World.unknown_renumber (h : W.Matches P W') (shift : Nat) (rs : List Request) :
    (rs.map (Request.move (.renumber shift))).flatMap W'.unknown = rs.flatMap W.unknown := by
  rw [List.flatMap_map]
  exact List.flatMap_congr fun r _ => World.unknown_congr h rfl

/-- Alike checks find the same if nodes have other numbers only. -/
theorem World.Alike.errors_renumber {R : Entity → Entity → Prop} (h : W.Alike R W') {shift : Nat}
    {ks ks' : List Check} (hks : List.Forall₂ (Check.Alike R (.renumber shift)) ks ks') :
    (ks'.flatMap fun k => (W'.check k).errors) = ks.flatMap fun k => (W.check k).errors := by
  induction hks with
  | nil => rfl
  | cons hk _ ih =>
    have hmove : SemanticError.move (.renumber shift) = id :=
      funext fun e => e.move_renumber shift
    rw [List.flatMap_cons, List.flatMap_cons, ih, (h.check hk).errors_eq, hmove, List.map_id]

/-- What is asked for below a function is asked by name. -/
theorem Tree.liesIn_requests {Q : Span → Prop} {t : Tree} (hinner : ∀ n ∈ t.preorder, n.IsInner)
    (h : t.LiesIn Q) : ∀ r ∈ t.requests, Q r.name.span := by
  intro r hr
  obtain ⟨n, hn, hr⟩ := List.mem_flatMap.1 hr
  have hnames := (h n hn).names
  have hfunction := hinner n hn
  unfold Node.requests at hr
  split at hr
  · next t ht =>
    obtain rfl := List.mem_singleton.1 hr
    exact hnames t.name (by simp [ht, Head.names])
  · next ht => simp [Node.IsInner, Node.kind, Head.kind, ht] at hfunction
  · simp at hr

/-! ## Redone declarations -/

/-- The same function, with nodes of other numbers or with another body in the same interval. -/
inductive Member.Redone (P : NodeId → NodeId → Prop) (interval : Span) : Member → Member → Prop
  | moved {m : Member} {shift : Nat} (h : ∀ n ∈ m.tree.bindings, P n (n + shift)) :
      Redone P interval m (m.move (.renumber shift))
  | body {d : FunctionDecl} {shift : Nat} {body : Scope} (old : d.body.tree.LiesIn interval.IsIn)
      (new : body.tree.LiesIn interval.IsIn) :
      Redone P interval (.function d) (.function (d.withBody shift body))

theorem takenNames_sublist (taken : String → Bool) (names : List Ident) :
    (takenNames taken names).Sublist names := by
  induction names generalizing taken with
  | nil => exact .slnil
  | cons name names ih =>
    rw [takenNames]
    split
    · exact (ih _).cons_cons name
    · exact (ih _).cons name

namespace FunctionDecl

variable {d : FunctionDecl} (h : d.body.tree.LiesIn interval.IsIn)

include h

/-- Elsewhere only the parameters and the result are asked for. -/
theorem outside_requests (W : World) : outside interval (d.requests.flatMap W.unknown) =
    outside interval ((d.parameters.map (fun p => p.type.request) ++
      [resultRequest d.name d.returns]).flatMap W.unknown) := by
  have hbody : outside interval (d.body.tree.requests.flatMap W.unknown) = [] := by
    refine outside_eq_nil fun e he => ?_
    obtain ⟨r, hr, he⟩ := List.mem_flatMap.1 he
    have hname := Tree.liesIn_requests d.body.isInner h r hr
    unfold World.unknown at he
    split at he
    · simp at he
    · obtain rfl := List.mem_singleton.1 he
      exact hname
  rw [requests, List.flatMap_append, outside_append, hbody, List.append_nil]

/-- Elsewhere only parameters have names that are taken. -/
theorem outside_takenLocals : outside interval (sameNames d.takenLocals) =
    outside interval (sameNames (takenNames (fun _ => false)
      ((d.parameters.map LocalDecl.parameter).map LocalDecl.name))) := by
  have hbody (taken : String → Bool) :
      outside interval (sameNames (takenNames taken (d.body.locals.map LocalDecl.name))) = [] := by
    refine outside_eq_nil fun e he => ?_
    obtain ⟨name, hname, rfl⟩ := List.mem_map.1 he
    obtain ⟨l, hl, rfl⟩ := List.mem_map.1 ((takenNames_sublist taken _).subset hname)
    exact Scope.liesIn_locals d.body h l hl
  rw [takenLocals, locals, List.map_append, takenNames_append, sameNames_append, outside_append,
    hbody, List.append_nil]

/-- Elsewhere nothing is found. -/
theorem outside_checks (W : World) :
    outside interval (d.checks.flatMap fun k => (W.check k).errors) = [] := by
  refine outside_eq_nil fun e he => ?_
  obtain ⟨k, hk, he⟩ := List.mem_flatMap.1 he
  exact W.isAbout_check (Scope.liesIn_checks d.body h k hk) e he

end FunctionDecl

namespace Member.Redone

variable {m m' : Member}

theorem name_eq (h : m.Redone P interval m') : m'.name = m.name := by
  cases h with
  | moved => rw [name_move, Ident.move_renumber]
  | body => rfl

theorem requests (h : m.Redone P interval m') (hW : W.Matches P W') :
    outside interval (m'.requests.flatMap W'.unknown) =
      outside interval (m.requests.flatMap W.unknown) := by
  cases h with
  | moved => rw [requests_move, World.unknown_renumber hW]
  | body old new =>
    have hsame (r : Request) : W'.unknown r = W.unknown r := World.unknown_congr hW rfl
    rw [Member.requests, Member.requests, FunctionDecl.outside_requests old,
      FunctionDecl.outside_requests new, funext hsame]
    rfl

theorem takenLocals (h : m.Redone P interval m') :
    outside interval (sameNames m'.takenLocals) = outside interval (sameNames m.takenLocals) := by
  cases h with
  | moved =>
    rw [takenLocals_move, Ident.map_move_renumber]
  | body old new =>
    rw [Member.takenLocals, Member.takenLocals, Member.functions, Member.functions,
      List.flatMap_singleton, List.flatMap_singleton, FunctionDecl.outside_takenLocals old,
      FunctionDecl.outside_takenLocals new]
    rfl

variable {ms ms' : List Member}

theorem listRequests (h : List.Forall₂ (Redone P interval) ms ms') (hW : W.Matches P W') :
    outside interval ((ms'.flatMap Member.requests).flatMap W'.unknown) =
      outside interval ((ms.flatMap Member.requests).flatMap W.unknown) := by
  induction h with
  | nil => rfl
  | cons hm _ ih =>
    simp only [List.flatMap_cons, List.flatMap_append, outside_append, hm.requests hW, ih]

theorem listTaken (h : List.Forall₂ (Redone P interval) ms ms') (taken : String → Bool) :
    outside interval (sameNames (Member.listTaken taken ms')) =
      outside interval (sameNames (Member.listTaken taken ms)) := by
  induction h generalizing taken with
  | nil => rfl
  | cons hm _ ih =>
    simp only [Member.listTaken, sameNames_append, outside_append, hm.takenLocals, hm.name_eq, ih]

theorem map_name_eq (h : List.Forall₂ (Redone P interval) ms ms') :
    ms'.map Member.name = ms.map Member.name := by
  induction h with
  | nil => rfl
  | cons hm _ ih => rw [List.map_cons, List.map_cons, hm.name_eq, ih]

/-- Elsewhere the same goes wrong with the members of a class that is named by a star. -/
theorem starErrors (h : List.Forall₂ (Redone P interval) ms ms') (star : StarClass)
    (taken : String → Bool) : outside interval (Member.starErrors star taken ms') =
      outside interval (Member.starErrors star taken ms) := by
  cases star with
  | own => exact listTaken h taken
  | missing =>
    rw [Member.starErrors, Member.starErrors]
    induction h with
    | nil => rfl
    | cons hm _ ih => simp only [List.flatMap_cons, outside_append, hm.takenLocals, ih]
  | foreign name =>
    rw [Member.starErrors, Member.starErrors]
    induction h with
    | nil => rfl
    | cons hm _ ih => simp only [List.flatMap_cons, outside_append, hm.takenLocals, hm.name_eq, ih]

/-- Elsewhere the same is found in the members of a class. -/
theorem listChecks (h : List.Forall₂ (Redone P interval) ms ms') (hW : W.Matches P W')
    {Γ Γ' : Locals} (hΓ : Γ.Alike (Like P) Γ') :
    outside interval ((Member.listChecks Γ' ms').flatMap fun k => (W'.check k).errors) =
      outside interval ((Member.listChecks Γ ms).flatMap fun k => (W.check k).errors) := by
  induction h generalizing Γ Γ' with
  | nil => rfl
  | @cons m m' ms ms' hm _ ih =>
    cases hm with
    | @moved m shift hnumbers =>
      have hR : ∀ n ∈ m.tree.bindings,
          Like P (.declared n) (.declared (n + (Relocation.renumber shift).shift)) :=
        fun n hn => .declared (hnumbers n hn)
      match m, hR with
      | .variable d, hR =>
        have hchecks := hW.alike.errors_renumber
          (VariableDecl.checks_alike (φ := .renumber shift) hΓ d)
        rw [Member.tree, d.bindings_tree, List.forall_mem_singleton] at hR
        rw [Member.move, Member.listChecks, Member.listChecks, List.flatMap_append,
          List.flatMap_append, outside_append, outside_append, hchecks,
          ih (hΓ.declare (VariableDecl.local_alike hR))]
      | .function d, hR =>
        have hchecks := hW.alike.errors_renumber (FunctionDecl.checks_alike hR)
        rw [Member.move, Member.listChecks, Member.listChecks, List.flatMap_append,
          List.flatMap_append, outside_append, outside_append, hchecks, ih hΓ]
    | body old new =>
      rw [Member.listChecks, Member.listChecks, List.flatMap_append, List.flatMap_append,
        outside_append, outside_append, FunctionDecl.outside_checks old,
        FunctionDecl.outside_checks new, ih hΓ]

end Member.Redone

/-- The same declaration, with nodes of other numbers or with another body of one of its functions in
the same interval. -/
inductive Declaration.Redone (P : NodeId → NodeId → Prop) (interval : Span) :
    Declaration → Declaration → Prop
  | moved {d : Declaration} {shift : Nat} (h : ∀ n ∈ d.tree.bindings, P n (n + shift)) :
      Redone P interval d (d.move (.renumber shift))
  | function {d d' : FunctionDecl} (h : Member.Redone P interval (.function d) (.function d')) :
      Redone P interval (.function d) (.function d')
  | classDecl {d d' : ClassDecl} (name_eq : d'.name = d.name)
      (h : List.Forall₂ (Member.Redone P interval) d.members d'.members) :
      Redone P interval (.classDecl d) (.classDecl d')

namespace Declaration.Redone

variable {d d' : Declaration}

theorem names_eq (h : d.Redone P interval d') :
    d'.values.map Member.name = d.values.map Member.name := by
  cases h with
  | @moved d shift h =>
    have hname : Member.name ∘ Member.move (.renumber shift) = Member.name :=
      funext fun m => by simp [Member.name_move]
    rw [values_move, List.map_map, hname]
  | function h => exact congrArg (fun name => [name]) h.name_eq
  | classDecl => rfl

theorem requests (h : d.Redone P interval d') (hW : W.Matches P W') :
    outside interval (d'.requests.flatMap W'.unknown) =
      outside interval (d.requests.flatMap W.unknown) := by
  cases h with
  | moved => rw [requests_move, World.unknown_renumber hW]
  | function h => exact Member.Redone.listRequests (.cons h .nil) hW
  | classDecl _ h => exact Member.Redone.listRequests h hW

/-- A class is redone member by member. -/
theorem exists_class {e : ClassDecl} (h : Redone P interval (.classDecl e) d') :
    ∃ e', d' = .classDecl e' ∧ e'.name = e.name ∧
      List.Forall₂ (Member.Redone P interval) e.members e'.members := by
  cases h with
  | classDecl name_eq h => exact ⟨_, rfl, name_eq, h⟩
  | @moved _ shift h =>
    refine ⟨e.move (.renumber shift), rfl, Ident.move_renumber .., ?_⟩
    rw [tree, e.bindings_tree, List.forall_mem_flatMap] at h
    rw [ClassDecl.move, List.forall₂_map_right_iff, List.forall₂_same]
    exact fun m hm => .moved (h m hm)

theorem taken (h : d.Redone P interval d') (taken : String → Bool) :
    outside interval (sameNames (d'.taken taken)) = outside interval (sameNames (d.taken taken)) := by
  cases h with
  | moved =>
    rw [taken_move, Ident.map_move_renumber]
  | function h => exact Member.Redone.listTaken (.cons h .nil) taken
  | classDecl _ h => exact Member.Redone.listTaken h _

theorem starNames_eq (h : d.Redone P interval d') :
    d'.starMembers.map Member.name = d.starMembers.map Member.name := by
  match d with
  | .classDecl e =>
    obtain ⟨e', rfl, hname, hmembers⟩ := h.exists_class
    rw [starMembers, starMembers, hname]
    split
    · exact Member.Redone.map_name_eq hmembers
    · rfl
  | .function _ | .variable _ => cases h <;> rfl

/-- Elsewhere the same goes wrong in the third phase. -/
theorem errors (h : d.Redone P interval d') (star : StarClass) (taken members : String → Bool) :
    outside interval (d'.errors star taken members) =
      outside interval (d.errors star taken members) := by
  have htaken := h.taken taken
  match d with
  | .classDecl e =>
    obtain ⟨e', rfl, hname, hmembers⟩ := h.exists_class
    rw [Declaration.errors, Declaration.errors, hname]
    split
    · exact Member.Redone.starErrors hmembers star members
    · exact htaken
  | .function _ | .variable _ =>
    have hclass : d'.class? = none := by cases h <;> rfl
    rw [errors_of_class?_eq_none hclass, errors_of_class?_eq_none rfl, htaken]

theorem checks (h : d.Redone P interval d') (hW : W.Matches P W') :
    outside interval (d'.checks.flatMap fun k => (W'.check k).errors) =
      outside interval (d.checks.flatMap fun k => (W.check k).errors) := by
  cases h with
  | moved h =>
    rw [hW.alike.errors_renumber (Declaration.checks_alike fun n hn => .declared (h n hn))]
  | @function d d' h =>
    have hchecks := Member.Redone.listChecks (.cons h .nil) hW (Γ := []) .nil
    simpa only [Member.listChecks, List.append_nil, Declaration.checks] using hchecks
  | @classDecl d d' _ h =>
    exact Member.Redone.listChecks h hW (.cons .nil .nil)

variable {ds ds' : List Declaration}

theorem classNames_eq (h : List.Forall₂ (Redone P interval) ds ds') :
    (ds'.filterMap class?).map ClassDecl.name = (ds.filterMap class?).map ClassDecl.name := by
  induction h with
  | nil => rfl
  | @cons d d' ds ds' hd _ ih =>
    cases hd with
    | moved =>
      match d with
      | .classDecl d => exact congrArg (d.name :: ·) ih
      | .function _ | .variable _ => exact ih
    | function => exact ih
    | classDecl name_eq => exact congrArg₂ (· :: ·) name_eq ih

theorem listRequests (h : List.Forall₂ (Redone P interval) ds ds') (hW : W.Matches P W') :
    outside interval ((ds'.flatMap Declaration.requests).flatMap W'.unknown) =
      outside interval ((ds.flatMap Declaration.requests).flatMap W.unknown) := by
  induction h with
  | nil => rfl
  | cons hd _ ih =>
    simp only [List.flatMap_cons, List.flatMap_append, outside_append, hd.requests hW, ih]

theorem listErrors (h : List.Forall₂ (Redone P interval) ds ds') (star : StarClass)
    (taken members : String → Bool) :
    outside interval (Declaration.listErrors star taken members ds') =
      outside interval (Declaration.listErrors star taken members ds) := by
  induction h generalizing taken members with
  | nil => rfl
  | cons hd _ ih =>
    simp only [Declaration.listErrors, outside_append, hd.errors, hd.names_eq, hd.starNames_eq, ih]

theorem listChecks (h : List.Forall₂ (Redone P interval) ds ds') (hW : W.Matches P W') :
    outside interval ((ds'.flatMap Declaration.checks).flatMap fun k => (W'.check k).errors) =
      outside interval ((ds.flatMap Declaration.checks).flatMap fun k => (W.check k).errors) := by
  induction h with
  | nil => rfl
  | cons hd _ ih =>
    simp only [List.flatMap_cons, List.flatMap_append, outside_append, hd.checks hW, ih]

end Declaration.Redone

/-! ## Analyses -/

namespace Block.Gap

variable (g : Gap) (shift : Nat) (d : FunctionDecl) (body : Scope)

theorem redone_members (old : d.body.tree.LiesIn interval.IsIn)
    (new : body.tree.LiesIn interval.IsIn) :
    List.Forall₂ (Member.Redone (g.Numbers shift d) interval)
      (g.inner.before ++ .function d :: g.inner.after)
      (g.inner.before ++ .function (d.withBody shift body) ::
        g.inner.after.map (Member.move (.renumber shift))) := by
  refine List.rel_append (List.forall₂_same.2 fun m hm => ?_) (.cons (.body old new) ?_)
  · have hmoved : Member.Redone _ interval _ _ := .moved (g.numbers_inner_before shift d hm)
    rwa [Relocation.shift_renumber, m.move_stay] at hmoved
  · rw [List.forall₂_map_right_iff, List.forall₂_same]
    exact fun m hm => .moved (g.numbers_inner_after shift d hm)

theorem redone_declarations (old : d.body.tree.LiesIn interval.IsIn)
    (new : body.tree.LiesIn interval.IsIn) :
    List.Forall₂ (Declaration.Redone (g.Numbers shift d) interval) (g.fill d).declarations
      (g.refill shift d body).declarations := by
  have hmembers := g.redone_members shift d body old new
  refine List.rel_append (List.forall₂_same.2 fun e he => ?_) (.cons ?_ ?_)
  · have hmoved : Declaration.Redone _ interval _ _ := .moved fun n hn =>
      g.numbers_before shift d he n (List.mem_append_right _ hn)
    rwa [Relocation.shift_renumber, e.move_stay] at hmoved
  · change Declaration.Redone _ _ (g.inner.fill d)
      ((g.inner.renumber shift).fill (d.withBody shift body))
    generalize g.inner = inner at hmembers ⊢
    cases inner with
    | function => exact .function (.body old new)
    | method => exact .classDecl rfl hmembers
  · change List.Forall₂ _ g.after (g.after.map (Declaration.move (.renumber shift)))
    rw [List.forall₂_map_right_iff, List.forall₂_same]
    exact fun e he => .moved fun n hn => g.numbers_after shift d he n (List.mem_append_right _ hn)

variable {g shift d body} {deps : List Library} {k k' : LibraryId}

/-- The body of a function or of a method is replaced by another one, with nodes of any number, so that
what ends behind it may have other numbers. If both bodies stand in an interval, analyses into new
libraries report the same errors, in the same order, about all that stands elsewhere. All parsed
units are `Named`, whatever the vocabulary is (`named_of_parse`). A star that is one of the names is
the name of a pointer type, too, so that the names in the dependencies matter; they are right in
libraries of one workspace. -/
theorem analyze_refill (hb : (g.fill d).Named) (hb' : (g.refill shift d body).Named)
    (old : d.body.tree.LiesIn interval.IsIn) (new : body.tree.LiesIn interval.IsIn)
    (hdeps : (g.fill d).HasStar ∨ (g.refill shift d body).HasStar → Library.StandTogether deps)
    (hk : Library.IsUnused k deps) (hk' : Library.IsUnused k' deps) (name name' : String) :
    outside interval ((g.refill shift d body).analyze deps (.new k' name')).errors =
      outside interval ((g.fill d).analyze deps (.new k name)).errors := by
  have hredone := g.redone_declarations shift d body old new
  have hpaired : (g.fill d).Paired (g.Numbers shift d) (g.refill shift d body) :=
    paired_refill hb.toNumbered hb'.toNumbered
  have hW := World.matches_around hpaired hb.toNumbered hb'.toNumbered deps
  have hclasses := Declaration.Redone.classNames_eq hredone
  rw [← classes_eq, ← classes_eq] at hclasses
  have hstar : Option.Rel (Like (g.Numbers shift d)) (World.around deps (g.fill d)).star?
      (World.around deps (g.refill shift d body)).star? := World.rel_star?_around deps
  have htaken (n : String) := isSome_eq_of_rel (hpaired.namedClass? hstar n)
  have hmodels := World.models_around hk hb (fun h => (hdeps (.inl h)).linkedNames) name
  have hmodels' := World.models_around hk' hb' (fun h => (hdeps (.inr h)).linkedNames) name'
  rw [hmodels'.errors_analyze, hmodels.errors_analyze,
    World.starClass_atStart_eq _ (g.fill d) hk' hk name' name,
    ClassDecl.listErrors_congr hclasses]
  simp only [outside_append, checks, Declaration.Redone.listRequests hredone hW, ← htaken,
    Declaration.Redone.listErrors hredone, Declaration.Redone.listChecks hredone hW]

/-- An unknown name in one body, a misplaced jump and two unknown names in the other one. In front of
the function a type is unknown; its name is a star. -/
theorem analyze_refill_jump :
    let written : WrittenType := ⟨⟨0, 7, 8, 0⟩, ⟨"*", 7, 8, 0⟩, 0⟩
    let g : Gap := ⟨⟨6, 0, 27, 0⟩, [.variable ⟨⟨2, 0, 12, 0⟩, ⟨"v", 4, 5, 0⟩, written,
      some (.value ⟨1, 11, 12, 0⟩ (.integer 1))⟩], .function, []⟩
    let old := Scope.mk ⟨4, 21, 27, 0⟩
      [.expr (.value ⟨3, 23, 24, 0⟩ (.identifier ⟨"x", 23, 24, 0⟩))]
    let new := Scope.mk ⟨5, 21, 27, 0⟩
      [.breakLoop ⟨3, 22, 25, 0⟩, .expr (.value ⟨4, 25, 26, 0⟩ (.identifier ⟨"v", 25, 26, 0⟩))]
    let d : FunctionDecl := ⟨⟨5, 14, 27, 0⟩, ⟨"f", 17, 18, 0⟩, [], none, old⟩
    outside ⟨21, 27, 0⟩ ((g.fill d).analyze [.core 0] (.new 1 "unit")).errors ≠ [] ∧
      outside ⟨21, 27, 0⟩ ((g.refill 1 d new).analyze [.core 0] (.new 2 "unit")).errors =
        outside ⟨21, 27, 0⟩ ((g.fill d).analyze [.core 0] (.new 1 "unit")).errors := by
  intro written g old new d
  have hb : (g.fill d).Named := ⟨⟨by decide⟩, by decide, fun _ => by decide⟩
  have hb' : (g.refill 1 d new).Named := ⟨⟨by decide⟩, by decide, fun _ => by decide⟩
  have hdeps : (g.fill d).HasStar ∨ (g.refill 1 d new).HasStar → Library.StandTogether [.core 0] :=
    fun _ => Library.standTogether_core
  have hone : Library.IsUnused 1 [.core 0] := Library.isUnused_core (by decide)
  have htwo : Library.IsUnused 2 [.core 0] := Library.isUnused_core (by decide)
  have hold : old.tree.LiesIn (Span.IsIn ⟨21, 27, 0⟩) := fun n hn =>
    have hspans : ∀ n ∈ old.tree.preorder, Span.IsIn ⟨21, 27, 0⟩ n.span ∧
      ∀ name ∈ n.head.names, Span.IsIn ⟨21, 27, 0⟩ name.span := by decide
    ⟨(hspans n hn).1, (hspans n hn).2⟩
  have hnew : new.tree.LiesIn (Span.IsIn ⟨21, 27, 0⟩) := fun n hn =>
    have hspans : ∀ n ∈ new.tree.preorder, Span.IsIn ⟨21, 27, 0⟩ n.span ∧
      ∀ name ∈ n.head.names, Span.IsIn ⟨21, 27, 0⟩ name.span := by decide
    ⟨(hspans n hn).1, (hspans n hn).2⟩
  exact ⟨by decide +kernel,
    analyze_refill hb hb' hold hnew hdeps hone htwo "unit" "unit"⟩

end Block.Gap

end Sable
