import Mathlib.Data.Set.Insert
import Sable.Proofs.Syntax.Ancestry
import Sable.Syntax.Walk

/-!
# What a walk offers

A walk offers the nodes of a tree to the visitor one after the other, parents first, and leaves out
those below a node at which the visitor stops. Each node goes to the most specific handler that the
visitor has for it.

## Main definitions

* `Hook.concerns`: the nodes that a handler may get.
* `Visitor.Receives`: the handlers that get a node.
* `Visitor.offerAll`: offers nodes to a visitor, whatever it answers.
* `Visitor.StopsAt`: the visitor stops at the nodes of a set and at no others.

## Main statements

* `Visitor.receives_offer`: which handlers get a node.
* `Tree.walk_eq`, `Tree.walkAll_eq`: a walk offers the nodes whose paths keep clear of a set.
* `Tree.walk_offers`: which nodes a walk offers.
-/
namespace Sable

/-! ## Handlers -/

/-- What a handler may get. -/
def Hook.concerns : Hook → NodeKind → Bool
  | .kind k, k' => k = k'
  | .postExpression, k => k ∈ [.access, .call, .cast, .index]
  | .expression, k => k.isExpression
  | .statement, k => k ∉ [.block, .classDecl, .function, .parameter, .type]
  | .node, _ => true

/-- All handlers, the most specific first. Of those for a single kind only one can be meant. -/
def NodeKind.allHooks (k : NodeKind) : List Hook :=
  [.kind k, .postExpression, .expression, .statement, .node]

theorem NodeKind.hooks_eq (k : NodeKind) : k.hooks = k.allHooks.filter (·.concerns k) := by
  cases k <;> rfl

namespace Visitor

variable {σ α β : Type} {v : Visitor σ} {n : Node} {S T : Set Node} {ns : List Node}

/-- Of some handlers, a node goes to the first one that the visitor has, together with what the
handlers behind it would do. A node for which there is none is passed over. -/
inductive Receives (v : Visitor σ) (n : Node) : List Hook → StateM σ Verdict → Prop
  | nobody {hooks : List Hook} (h : ∀ hook ∈ hooks, v.handler? hook = none) :
      Receives v n hooks (pure .proceed)
  | first {before after : List Hook} {hook : Hook}
      {handle : Node → StateM σ Verdict → StateM σ Verdict} {next : StateM σ Verdict}
      (hbefore : ∀ other ∈ before, v.handler? other = none)
      (hhook : v.handler? hook = some handle) (hnext : Receives v n after next) :
      Receives v n (before ++ hook :: after) (handle n next)

theorem receives_dispatch (v : Visitor σ) (n : Node) (hooks : List Hook) :
    v.Receives n hooks (v.dispatch n hooks) := by
  induction hooks with
  | nil => exact .nobody (by simp)
  | cons hook rest ih =>
    rw [dispatch]
    cases hhook : v.handler? hook with
    | some handle => exact .first (List.forall_mem_nil _) hhook ih
    | none =>
      generalize v.dispatch n rest = answer at ih
      cases ih with
      | nobody h => exact .nobody (List.forall_mem_cons.2 ⟨hhook, h⟩)
      | first hbefore hhook' hnext =>
        exact .first (List.forall_mem_cons.2 ⟨hhook, hbefore⟩) hhook' hnext

theorem receives_offer (v : Visitor σ) (n : Node) :
    v.Receives n (n.kind.allHooks.filter (·.concerns n.kind)) (v.offer n) := by
  rw [← NodeKind.hooks_eq]
  exact v.receives_dispatch n _

/-! ## Offers -/

/-- Offers the nodes one after the other, whatever the visitor answers. -/
def offerAll (v : Visitor σ) (ns : List Node) : StateM σ Unit :=
  ns.forM fun n => do
    let _ ← v.offer n

theorem offerAll_cons (v : Visitor σ) (n : Node) (ns : List Node) :
    v.offerAll (n :: ns) = v.offer n >>= fun _ => v.offerAll ns := rfl

theorem offerAll_append (v : Visitor σ) (ns ms : List Node) :
    v.offerAll (ns ++ ms) = v.offerAll ns >>= fun _ => v.offerAll ms := by
  induction ns with
  | nil => rfl
  | cons n ns ih => rw [List.cons_append, offerAll_cons, offerAll_cons, ih, bind_assoc]

/-- Of some nodes, the visitor stops at those of a set. -/
def StopsAt (v : Visitor σ) (S : Set Node) (ns : List Node) : Prop :=
  ∀ n ∈ ns, ∀ s, ((v.offer n).run s).1 = .stop ↔ n ∈ S

/-- What follows a step with only one answer. -/
theorem bind_eq_of_fst_run {x : StateM σ α} {a : α} (h : ∀ s, (x.run s).1 = a)
    (f : α → StateM σ β) : x >>= f = x >>= fun _ => f a := by
  funext s
  change f (x.run s).1 (x.run s).2 = f a (x.run s).2
  rw [h]

theorem StopsAt.congr (h : v.StopsAt S ns) (hST : ∀ n ∈ ns, n ∈ S ↔ n ∈ T) : v.StopsAt T ns :=
  fun n hn s => (h n hn s).trans (hST n hn)

end Visitor

namespace Tree

open Visitor

variable {σ : Type} {v : Visitor σ} {S : Set Node} {above : List Node}

open scoped Classical in
/-- Of nodes with paths, those whose paths keep clear of the set. -/
noncomputable def reached (S : Set Node) (ps : List (Node × List Node)) : List Node :=
  (ps.filter fun p => ∀ a ∈ p.2, a ∉ S).map Prod.fst

theorem reached_append (S : Set Node) (ps qs : List (Node × List Node)) :
    reached S (ps ++ qs) = reached S ps ++ reached S qs := by
  rw [reached, List.filter_append, List.map_append, reached, reached]

theorem reached_cons (habove : ∀ a ∈ above, a ∉ S) (n : Node) (ps : List (Node × List Node)) :
    reached S ((n, above) :: ps) = n :: reached S ps := by
  rw [reached, List.filter_cons, if_pos (by simpa using habove), List.map_cons, reached]

/-- Nothing is reached below a node of the set. -/
theorem reached_allPaths_eq_nil {n : Node} (hn : n ∈ S) (hmem : n ∈ above) (ts : List Tree) :
    reached S (allPaths above ts) = [] := by
  classical
  rw [reached, List.map_eq_nil_iff, List.filter_eq_nil_iff]
  rintro ⟨m, as⟩ hm hreached
  exact of_decide_eq_true hreached n ((suffix_of_mem_allPaths ts hm).subset hmem) hn

mutual

/-- A walk below nodes at which the visitor does not stop. -/
theorem walk_eq {above : List Node} (habove : ∀ a ∈ above, a ∉ S) : (t : Tree) →
    v.StopsAt S t.preorder → t.walk v = v.offerAll (reached S (t.paths above))
  | .node n cs, h => by
    rw [preorder, StopsAt, List.forall_mem_cons] at h
    rw [walk, paths, reached_cons habove, offerAll_cons]
    by_cases hn : n ∈ S
    · rw [bind_eq_of_fst_run fun s => (h.1 s).2 hn, reached_allPaths_eq_nil hn List.mem_cons_self]
      rfl
    · have hproceed (s : σ) : ((v.offer n).run s).1 = .proceed := by
        cases hverdict : ((v.offer n).run s).1 with
        | stop => exact absurd ((h.1 s).1 hverdict) hn
        | proceed => rfl
      have hnext : ∀ a ∈ n :: above, a ∉ S := List.forall_mem_cons.2 ⟨hn, habove⟩
      rw [bind_eq_of_fst_run hproceed, ← walkAll_eq hnext cs h.2]

theorem walkAll_eq {above : List Node} (habove : ∀ a ∈ above, a ∉ S) : (ts : List Tree) →
    v.StopsAt S (preorders ts) → walkAll v ts = v.offerAll (reached S (allPaths above ts))
  | [], _ => rfl
  | t :: ts, h => by
    rw [preorders, StopsAt, List.forall_mem_append] at h
    rw [walkAll, walk_eq habove t h.1, walkAll_eq habove ts h.2, allPaths, reached_append,
      offerAll_append]

end

/-- The nodes below the root. -/
theorem tail_preorder (t : Tree) : t.preorder.tail = preorders t.children := by
  cases t
  rfl

section

variable {t : Tree} (hids : t.HasDistinctIds)
include hids

open scoped Classical in
theorem walk_eq_offerAll (h : v.StopsAt S t.preorder) :
    t.walk v = v.offerAll (t.preorder.filter fun n => ∀ a, t.IsAbove a n → a ∉ S) := by
  rw [walk_eq (List.forall_mem_nil _) t h, reached, ← map_fst_paths [], List.filter_map]
  congr 2
  refine List.filter_congr fun p hp => decide_eq_decide.2 (forall_congr' fun a => ?_)
  exact imp_congr_left (hids.mem_path_iff hp)

open scoped Classical in
theorem walkChildren_eq_offerAll (h : v.StopsAt S t.preorder.tail) : t.walkChildren v =
    v.offerAll (t.preorder.tail.filter fun n => ∀ a, t.IsAbove a n → a ∈ S → a = t.root) := by
  obtain ⟨n, cs⟩ := t
  have hroot : ∀ m ∈ preorders cs, m ∈ S ↔ m ∈ S \ {n} := by
    intro m hm
    have hne : m ≠ n := by
      rintro rfl
      exact (List.nodup_cons.1 hids.of_map).1 hm
    simp [hne]
  have hstop : v.StopsAt (S \ {n}) (preorders cs) := h.congr hroot
  have habove : ∀ a ∈ [n], a ∉ S \ {n} := by simp
  change walkAll v cs = _
  rw [walkAll_eq habove cs hstop, reached, tail_preorder, children,
    ← map_fst_allPaths [n], List.filter_map]
  congr 2
  refine List.filter_congr fun p hp => decide_eq_decide.2 (forall_congr' fun a => ?_)
  rw [hids.mem_path_iff (List.mem_cons_of_mem _ hp)]
  simp [root]

end

open scoped Classical in
/-- In a tree whose nodes have numbers of their own, a walk offers the nodes that have no node above
them at which the visitor stops, each of them once and in preorder. So does a walk over the
children, for which the root does not count. Every node goes to the most specific handler that
concerns it. -/
theorem walk_offers {t : Tree} (hids : t.HasDistinctIds) :
    t.preorder.Nodup ∧
      (v.StopsAt S t.preorder →
        t.walk v = v.offerAll (t.preorder.filter fun n => ∀ a, t.IsAbove a n → a ∉ S)) ∧
      (v.StopsAt S t.preorder.tail → t.walkChildren v =
        v.offerAll (t.preorder.tail.filter fun n => ∀ a, t.IsAbove a n → a ∈ S → a = t.root)) ∧
      ∀ n ∈ t.preorder, v.Receives n (n.kind.allHooks.filter (·.concerns n.kind)) (v.offer n) :=
  ⟨.of_map _ hids, walk_eq_offerAll hids, walkChildren_eq_offerAll hids,
    fun n _ => v.receives_offer n⟩

open scoped Classical in
/-- `{ 1(2); 3; }`, where calls stop. -/
theorem walk_offers_call :
    let node (id : NodeId) (head : Head) : Node := ⟨⟨id, default⟩, head⟩
    let value (id : NodeId) (v : Int) : Node := node id (.value (.integer v))
    let call := node 3 .call
    let t : Tree := .node (node 5 .scope)
      [.node call [.node (value 1 1) [], .node (value 2 2) []], .node (value 4 3) []]
    let v := recorder [.kind .call, .expression] true [.call]
    let S : Set Node := {call}
    t.HasDistinctIds ∧ v.StopsAt S t.preorder ∧
      t.walk v = v.offerAll (t.preorder.filter fun n => ∀ a, t.IsAbove a n → a ∉ S) ∧
      ((t.walk v).run []).2 = [(.kind .call, call), (.expression, value 4 3)] := by
  intro node value call t v S
  have hids : t.HasDistinctIds := by
    unfold HasDistinctIds
    decide
  have hstop : v.StopsAt S t.preorder := by
    intro n hn s
    have hcases : n = node 5 .scope ∨ n = call ∨ n = value 1 1 ∨ n = value 2 2 ∨ n = value 4 3 := by
      simpa [t, preorder, preorders] using hn
    rcases hcases with rfl | rfl | rfl | rfl | rfl
    case inr.inl => exact iff_of_true rfl rfl
    all_goals exact iff_of_false Verdict.noConfusion (by decide)
  exact ⟨hids, hstop, (walk_offers hids).2.1 hstop, rfl⟩

end Tree

end Sable
