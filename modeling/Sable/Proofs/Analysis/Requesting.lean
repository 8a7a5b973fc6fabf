import Sable.Proofs.Analysis.Settling

/-!
# What the second phase asks for

A written type is asked for once, and those of a function all at once. So what is asked for in a unit
is what is asked for in its declarations, one after another, whatever their numbers are.

## Main definitions

* `Request.Reduces`: what is left of requests if none is made twice.
* `Declaration.requests`: what is asked for in a declaration.

## Main statements

* `Block.Numbered.firsts_requests`: what is asked for in a unit.
-/
namespace Sable

/-! ## Requests that are made once -/

namespace Request

/-- The written types that are asked for. -/
def nodes (rs : List Request) : List NodeId := rs.filterMap Request.node

@[simp] theorem nodes_nil : nodes [] = [] := rfl

@[simp] theorem nodes_append (rs rs' : List Request) : nodes (rs ++ rs') = nodes rs ++ nodes rs' :=
  List.filterMap_append

theorem mem_attempt_iff {attempted : List NodeId} {rs : List Request} {n : NodeId} :
    n ∈ attempt attempted rs ↔ n ∈ attempted ∨ n ∈ nodes rs := by
  induction rs generalizing attempted with
  | nil => simp [attempt]
  | cons r rs ih =>
    rw [attempt, nodes, List.filterMap_cons]
    cases r.node with
    | none => exact ih
    | some m =>
      dsimp only
      by_cases hm : m ∈ attempted
      · rw [if_pos hm, ih, List.mem_cons]
        refine or_congr_right' fun hn => ⟨.inr, fun h => h.resolve_left ?_⟩
        rintro rfl
        exact hn hm
      · rw [if_neg hm, ih, List.mem_cons, List.mem_cons, or_assoc, or_left_comm, nodes]

/-- What was asked for before is not asked for again. -/
theorem firsts_eq_nil {attempted : List NodeId} {rs : List Request}
    (h : ∀ r ∈ rs, ∃ n ∈ attempted, r.node = some n) : firsts attempted rs = [] := by
  induction rs with
  | nil => rfl
  | cons r rs ih =>
    rw [List.forall_mem_cons] at h
    obtain ⟨n, hn, hr⟩ := h.1
    rw [firsts, hr]
    dsimp only
    rw [if_pos hn, ih h.2]

/-- Different written types are all asked for. -/
theorem firsts_eq_self {attempted : List NodeId} {rs : List Request} (hnodup : (nodes rs).Nodup)
    (hfresh : ∀ n ∈ nodes rs, n ∉ attempted) : firsts attempted rs = rs := by
  induction rs generalizing attempted with
  | nil => rfl
  | cons r rs ih =>
    rw [nodes, List.filterMap_cons] at hnodup hfresh
    rw [firsts]
    cases hr : r.node with
    | none =>
      rw [hr] at hnodup hfresh
      exact congrArg _ (ih hnodup hfresh)
    | some n =>
      rw [hr] at hnodup hfresh
      dsimp only at hnodup hfresh ⊢
      rw [List.nodup_cons] at hnodup
      rw [List.forall_mem_cons] at hfresh
      rw [if_neg hfresh.1]
      refine congrArg _ (ih hnodup.2 fun m hm => ?_)
      rw [List.mem_cons, not_or]
      refine ⟨?_, hfresh.2 m hm⟩
      rintro rfl
      exact hnodup.1 hm

/-- Where written types have numbers of their own, just the second requests are left of the first
ones. -/
structure Reduces (rs rs' : List Request) : Prop where
  mem_nodes : ∀ n, n ∈ nodes rs ↔ n ∈ nodes rs'
  firsts_eq : ∀ attempted, (nodes rs').Nodup → (∀ n ∈ nodes rs', n ∉ attempted) →
    firsts attempted rs = rs'

namespace Reduces

variable {rs rs' qs qs' : List Request}

theorem refl (rs : List Request) : Reduces rs rs := ⟨fun _ => .rfl, fun _ => firsts_eq_self⟩

theorem append (h : Reduces rs rs') (h' : Reduces qs qs') : Reduces (rs ++ qs) (rs' ++ qs') where
  mem_nodes n := by simp [h.mem_nodes, h'.mem_nodes]
  firsts_eq attempted hnodup hfresh := by
    rw [nodes_append, List.nodup_append'] at hnodup
    rw [nodes_append, List.forall_mem_append] at hfresh
    rw [firsts_append, h.firsts_eq attempted hnodup.1 hfresh.1]
    congr 1
    refine h'.firsts_eq _ hnodup.2.1 fun n hn => ?_
    rw [mem_attempt_iff, h.mem_nodes, not_or]
    exact ⟨hfresh.2 n hn, fun hn' => hnodup.2.2 hn' hn⟩

theorem flatMap {α : Type} {xs : List α} {f g : α → List Request}
    (h : ∀ x ∈ xs, Reduces (f x) (g x)) : Reduces (xs.flatMap f) (xs.flatMap g) := by
  induction xs with
  | nil => exact .refl []
  | cons x xs ih =>
    rw [List.forall_mem_cons] at h
    rw [List.flatMap_cons, List.flatMap_cons]
    exact h.1.append (ih h.2)

/-- What comes again is left out. -/
theorem append_again (hnodes : ∀ r ∈ qs, r.node.isSome) (hmem : ∀ r ∈ qs, r ∈ rs) :
    Reduces (rs ++ qs) rs where
  mem_nodes n := by
    rw [nodes_append, List.mem_append, or_iff_left_iff_imp]
    intro hn
    obtain ⟨r, hr, hnode⟩ := List.mem_filterMap.1 hn
    exact List.mem_filterMap.2 ⟨r, hmem r hr, hnode⟩
  firsts_eq attempted hnodup hfresh := by
    have hagain : firsts (attempt attempted rs) qs = [] := by
      refine firsts_eq_nil fun r hr => ?_
      obtain ⟨n, hn⟩ := Option.isSome_iff_exists.1 (hnodes r hr)
      exact ⟨n, mem_attempt (hmem r hr) hn, hn⟩
    rw [firsts_append, firsts_eq_self hnodup hfresh, hagain, List.append_nil]

end Reduces

end Request

open Request (nodes Reduces)

/-! ## Declarations -/

/-- What stands in a tree, whether it was asked for before or not. -/
def Tree.requests (t : Tree) : List Request := t.preorder.flatMap Node.requests

theorem Tree.requests_node (n : Node) (ts : List Tree) :
    (Tree.node n ts).requests = n.requests ++ ts.flatMap Tree.requests := by
  rw [requests, preorder, List.flatMap_cons, preorders_eq_flatMap, List.flatMap_assoc]
  rfl

/-- The types of the parameters and the type of the result come first. -/
def FunctionDecl.requests (d : FunctionDecl) : List Request :=
  d.parameters.map (fun p => p.type.request) ++ [resultRequest d.name d.returns] ++
    d.body.tree.requests

def Member.requests : Member → List Request
  | .variable d => d.tree.requests
  | .function d => d.requests

def Declaration.requests (d : Declaration) : List Request := d.members.flatMap Member.requests

/-- Below functions a node asks for the type that is written there. -/
theorem Node.IsInner.nodes_requests {n : Node} (h : n.IsInner) :
    (nodes n.requests).Sublist [n.id] := by
  unfold Node.requests
  split
  · next t hhead =>
    have hid : n.id = t.place.id := congrArg Place.id (h.2.2.2 t hhead)
    simp [nodes, WrittenType.request, hid]
  · next hhead => exact absurd (show n.kind = .function by rw [Node.kind, hhead]; rfl) h.1
  · exact List.nil_sublist _

theorem Tree.nodes_requests {t : Tree} (h : ∀ n ∈ t.preorder, n.IsInner) :
    (nodes t.requests).Sublist (t.preorder.map Node.id) := by
  rw [Tree.requests]
  generalize t.preorder = ns at h ⊢
  induction ns with
  | nil => exact List.nil_sublist _
  | cons n ns ih =>
    rw [List.forall_mem_cons] at h
    rw [List.flatMap_cons, Request.nodes_append, List.map_cons]
    exact h.1.nodes_requests.append (ih h.2)

namespace FunctionDecl

theorem requests_tree (d : FunctionDecl) : d.tree.requests =
    d.parameters.map (fun p => p.type.request) ++ [resultRequest d.name d.returns] ++
      (d.parameters.map (fun p => p.type.request) ++ d.returns.toList.map WrittenType.request) ++
      d.body.tree.requests := by
  have hparameter : ∀ p : Parameter, p.tree.requests = [p.type.request] := fun p => rfl
  have htype : ∀ t : WrittenType, t.tree.requests = [t.request] := fun t => rfl
  have hnode : Node.requests ⟨d.place, .function d.name d.parameters d.returns⟩ =
      d.parameters.map (fun p => p.type.request) ++ [resultRequest d.name d.returns] := rfl
  rw [tree, Tree.requests_node, hnode]
  simp [List.flatMap_map, hparameter, htype, ← List.map_eq_flatMap]

theorem reduces_requests (d : FunctionDecl) : Reduces d.tree.requests d.requests := by
  rw [requests_tree, requests]
  refine Reduces.append (.append_again ?_ ?_) (.refl _)
  · rintro r hr
    simp only [List.mem_append, List.mem_map] at hr
    rcases hr with ⟨p, -, rfl⟩ | ⟨t, -, rfl⟩ <;> rfl
  · intro r hr
    rcases List.mem_append.1 hr with hr | hr
    · simp [hr]
    · obtain ⟨t, ht, rfl⟩ := List.mem_map.1 hr
      rw [Option.mem_toList] at ht
      rw [ht]
      exact List.mem_append_right _ (List.mem_singleton_self _)

theorem nodes_requests (d : FunctionDecl) :
    (nodes d.requests).Sublist (d.tree.preorder.map Node.id) := by
  have hparameters : (nodes (d.parameters.map fun p => p.type.request)).Sublist
      ((Tree.preorders (d.parameters.map Parameter.tree)).map Node.id) := by
    induction d.parameters with
    | nil => exact List.nil_sublist _
    | cons p ps ih => exact (ih.cons_cons p.type.place.id).cons p.place.id
  have hresult : (nodes [resultRequest d.name d.returns]).Sublist
      ((Tree.preorders (d.returns.toList.map WrittenType.tree)).map Node.id) := by
    cases d.returns with
    | none => exact List.nil_sublist _
    | some t => exact List.Sublist.refl [t.place.id]
  have hbody : (nodes d.body.tree.requests).Sublist
      ((Tree.preorders [d.body.tree]).map Node.id) := by
    rw [Tree.preorders, Tree.preorders, List.append_nil]
    exact Tree.nodes_requests d.body.isInner
  rw [requests, tree, Tree.preorder, Tree.preorders_append, Tree.preorders_append, List.map_cons,
    List.map_append, List.map_append, Request.nodes_append, Request.nodes_append]
  exact ((hparameters.append hresult).append hbody).cons _

end FunctionDecl

theorem Member.reduces_requests : (m : Member) → Reduces m.tree.requests m.requests
  | .variable d => .refl d.tree.requests
  | .function d => d.reduces_requests

theorem Member.nodes_requests : (m : Member) →
    (nodes m.requests).Sublist (m.tree.preorder.map Node.id)
  | .variable d => Tree.nodes_requests d.isInner
  | .function d => d.nodes_requests

namespace Declaration

theorem reduces_requests (d : Declaration) : Reduces d.tree.requests d.requests := by
  match d with
  | .classDecl d =>
    have htree : (Declaration.classDecl d).tree.requests = d.members.flatMap fun m => m.tree.requests := by
      rw [tree, ClassDecl.tree, Tree.requests_node, List.flatMap_map]
      rfl
    rw [htree]
    exact .flatMap fun m _ => m.reduces_requests
  | .function d =>
    rw [requests, members, List.flatMap_singleton]
    exact d.reduces_requests
  | .variable d =>
    rw [requests, members, List.flatMap_singleton]
    exact .refl _

theorem nodes_requests (d : Declaration) :
    (nodes d.requests).Sublist (d.tree.preorder.map Node.id) := by
  match d with
  | .classDecl d =>
    rw [requests, members, tree, ClassDecl.tree, Tree.preorder, List.map_cons]
    refine List.Sublist.cons _ ?_
    induction d.members with
    | nil => exact List.nil_sublist _
    | cons m ms ih =>
      rw [List.flatMap_cons, Request.nodes_append, List.map_cons, Tree.preorders, List.map_append]
      exact m.nodes_requests.append ih
  | .function d =>
    rw [requests, members, List.flatMap_singleton]
    exact d.nodes_requests
  | .variable d =>
    rw [requests, members, List.flatMap_singleton]
    exact Tree.nodes_requests d.isInner

end Declaration

/-! ## Units -/

namespace Block

/-- What is asked for in a unit, declaration by declaration. -/
theorem Numbered.firsts_requests {b : Block} (hb : b.Numbered) :
    Request.firsts [] b.requests = b.declarations.flatMap Declaration.requests := by
  have htree : b.requests = b.declarations.flatMap fun d => d.tree.requests := by
    change b.tree.requests = _
    rw [tree, Tree.requests_node, List.flatMap_map]
    rfl
  have hreduces : Reduces b.requests (b.declarations.flatMap Declaration.requests) :=
    htree ▸ .flatMap fun d _ => d.reduces_requests
  refine hreduces.firsts_eq [] (hb.nodup_ids.sublist ?_) (by simp)
  rw [tree, Tree.preorder, List.map_cons]
  refine List.Sublist.cons _ ?_
  induction b.declarations with
  | nil => exact List.nil_sublist _
  | cons d ds ih =>
    rw [List.flatMap_cons, Request.nodes_append, List.map_cons, Tree.preorders, List.map_append]
    exact d.nodes_requests.append ih

end Block

end Sable
