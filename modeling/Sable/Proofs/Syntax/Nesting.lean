import Sable.Proofs.Syntax.Tree
import Sable.Proofs.Token.Tokenization

/-!
# Trees over tokens

A node stands on some tokens in a row, and its span goes from the first of them to the last one.
Among these tokens stand its children, one behind another. So spans nest, whatever is between them:
parentheses around an operand belong to what is around the operand, but not to its own tokens.

## Main definitions

* `Span.IsHull`: the span goes from the first token to the last one.
* `Tree.Nests`, `Tree.AllNest`: a tree, or trees side by side, stand on tokens.
* `Tree.Fits`: what this says of a node and its children.

## Main statements

* `Tree.nests_pair`, `Tree.nests_close`: a span that is merged of two.
* `Tree.AllNest.fits`: in a tree that stands on tokens, every node fits.
* `Tree.nested_or_apart`: in a tree whose nodes fit, trees contain each other or stand apart.
* `Tree.nested_of_span_eq`: trees with parts at the same place contain each other.
-/
namespace Sable

namespace Span

/-- The span goes from the start of the first token to the end of the last one. -/
def IsHull (span : Span) (ts : List Token) : Prop :=
  ∃ first last, ts.head? = some first ∧ ts.getLast? = some last ∧
    span = ⟨first.span.start, last.span.stop, first.span.file⟩

namespace IsHull

variable {a b : Span} {ts us vs : List Token} {t : Token}

theorem ne_nil (h : a.IsHull ts) : ts ≠ [] := by
  rintro rfl
  obtain ⟨first, last, hfirst, -⟩ := h
  simp at hfirst

theorem start_lt_stop (h : a.IsHull ts) (hts : Token.InOrder ts) : a.start < a.stop := by
  obtain ⟨first, last, hfirst, hlast, rfl⟩ := h
  have hlt := hts.start_lt_stop first (List.mem_of_mem_head? hfirst)
  exact Nat.lt_of_lt_of_le hlt (hts.stop_le_getLast hlast (List.mem_of_mem_head? hfirst))

/-- The hull of fewer tokens lies inside. -/
theorem within (h : a.IsHull us) (h' : b.IsHull ts) (hts : Token.InOrder ts)
    (hus : us.Sublist ts) : b.start ≤ a.start ∧ a.stop ≤ b.stop := by
  obtain ⟨first, last, hfirst, hlast, rfl⟩ := h
  obtain ⟨first', last', hfirst', hlast', rfl⟩ := h'
  exact ⟨hts.head_le_start hfirst' (hus.subset (List.mem_of_mem_head? hfirst)),
    hts.stop_le_getLast hlast' (hus.subset (List.mem_of_getLast? hlast))⟩

theorem stop_le_start (h : a.IsHull us) (h' : b.IsHull vs) (hts : Token.InOrder (us ++ vs)) :
    a.stop ≤ b.start := by
  obtain ⟨first, last, hfirst, hlast, rfl⟩ := h
  obtain ⟨first', last', hfirst', hlast', rfl⟩ := h'
  exact (List.pairwise_append.1 hts.pairwise).2.2 last (List.mem_of_getLast? hlast) first'
    (List.mem_of_mem_head? hfirst')

/-- Two hulls make the hull of what goes from the first token of the one to the last token of the
other. -/
theorem merge (h : a.IsHull us) (h' : b.IsHull vs) (hts : Token.InOrder ts)
    (hus : us <+: ts) (hvs : vs <:+ ts) : (a.merge b).IsHull ts := by
  obtain ⟨first, last, hfirst, hlast, rfl⟩ := h
  obtain ⟨first', last', hfirst', hlast', rfl⟩ := h'
  have hhead : ts.head? = some first := by
    obtain ⟨rest, rfl⟩ := hus
    rw [List.head?_append, hfirst, Option.some_or]
  have hend : ts.getLast? = some last' := by
    obtain ⟨front, rfl⟩ := hvs
    rw [List.getLast?_append, hlast', Option.some_or]
  refine ⟨first, last', hhead, hend, ?_⟩
  simp only [Span.merge, Span.mk.injEq, and_true]
  exact ⟨Nat.min_eq_left (hts.head_le_start hhead (hvs.subset (List.mem_of_mem_head? hfirst'))),
    Nat.max_eq_right (hts.stop_le_getLast hend (hus.subset (List.mem_of_getLast? hlast)))⟩

end IsHull

theorem isHull_token (t : Token) : t.span.IsHull [t] := ⟨t, t, rfl, rfl, rfl⟩

end Span

namespace Tree

mutual

/-- The tree stands on tokens in a row, and its children among these. Only a unit without
declarations stands on none. -/
def Nests : Tree → List Token → Prop
  | .node n cs, ts => (n.kind = .block ∧ cs = []) ∨
      ∃ us, us <:+: ts ∧ n.span.IsHull us ∧ AllNest cs us

/-- The trees stand side by side. -/
def AllNest : List Tree → List Token → Prop
  | [], _ => True
  | t :: trees, ts => ∃ us vs, ts = us ++ vs ∧ t.Nests us ∧ AllNest trees vs

end

variable {n : Node} {t u : Tree} {trees trees' : List Tree} {ts us vs : List Token} {x : Token}

theorem Nests.of_isInfix (h : t.Nests us) (hts : us <:+: ts) : t.Nests ts := by
  cases t with
  | node n cs =>
    rw [Nests] at h ⊢
    exact h.imp_right fun ⟨vs, hvs, h⟩ => ⟨vs, hvs.trans hts, h⟩

theorem allNest_append (h : AllNest trees us) (h' : AllNest trees' vs) :
    AllNest (trees ++ trees') (us ++ vs) := by
  induction trees generalizing us with
  | nil =>
    cases trees' with
    | nil => trivial
    | cons t trees' =>
      obtain ⟨vs₁, vs₂, rfl, ht, htrees'⟩ := h'
      exact ⟨us ++ vs₁, vs₂, (List.append_assoc ..).symm,
        ht.of_isInfix (List.suffix_append us vs₁).isInfix, htrees'⟩
  | cons t trees ih =>
    obtain ⟨us₁, us₂, rfl, ht, htrees⟩ := h
    exact ⟨us₁, us₂ ++ vs, List.append_assoc .., ht, ih htrees⟩

theorem allNest_singleton : AllNest [t] ts ↔ t.Nests ts := by
  constructor
  · rintro ⟨us, vs, rfl, ht, -⟩
    exact ht.of_isInfix (List.prefix_append us vs).isInfix
  · exact fun h => ⟨ts, [], (List.append_nil ts).symm, h, trivial⟩

/-- A tree that is no unit stands on the tokens of which its span is the hull. -/
theorem Nests.exists_isHull (h : t.Nests ts) (ht : t.root.kind ≠ .block) :
    ∃ us, us <:+: ts ∧ t.root.span.IsHull us ∧ AllNest t.children us := by
  cases t with
  | node n cs =>
    rw [Nests] at h
    exact h.resolve_left fun hblock => ht hblock.1

theorem Nests.of_isHull (h : t.root.span.IsHull us) (hchildren : AllNest t.children us) :
    t.Nests us := by
  cases t with
  | node n cs => exact .inr ⟨us, List.infix_rfl, h, hchildren⟩

/-- A node whose span is merged of those of its two children. -/
theorem nests_pair (h : AllNest [t, u] ts) (hts : Token.InOrder ts) (ht : t.root.kind ≠ .block)
    (hu : u.root.kind ≠ .block) (hn : n.span = t.root.span.merge u.root.span) :
    (node n [t, u]).Nests ts := by
  obtain ⟨us, vs, rfl, htree, hvs⟩ := h
  obtain ⟨ts₁, ⟨before, between, rfl⟩, hhull, hchildren⟩ := htree.exists_isHull ht
  obtain ⟨ts₂, ⟨between', behind, rfl⟩, hhull', hchildren'⟩ :=
    (allNest_singleton.1 hvs).exists_isHull hu
  have hinfix : ts₁ ++ between ++ (between' ++ ts₂) <:+:
      before ++ ts₁ ++ between ++ (between' ++ ts₂ ++ behind) := ⟨before, behind, by simp⟩
  refine .inr ⟨_, hinfix, ?_, ts₁ ++ between, between' ++ ts₂, rfl,
    (Nests.of_isHull hhull hchildren).of_isInfix (List.prefix_append _ _).isInfix,
    allNest_singleton.2 ((Nests.of_isHull hhull' hchildren').of_isInfix
      (List.suffix_append _ _).isInfix)⟩
  rw [hn]
  exact hhull.merge hhull' (hts.sublist hinfix.sublist) ⟨_, (List.append_assoc ..).symm⟩
    ⟨_, List.append_assoc ..⟩

/-- A node whose span goes from its first child to the last token. -/
theorem nests_close (h : AllNest (t :: trees) ts) (hts : Token.InOrder ts)
    (ht : t.root.kind ≠ .block) (hx : ts.getLast? = some x)
    (hn : n.span = t.root.span.merge x.span) : (node n (t :: trees)).Nests ts := by
  obtain ⟨us, vs, rfl, htree, hvs⟩ := h
  obtain ⟨ts₁, ⟨before, between, rfl⟩, hhull, hchildren⟩ := htree.exists_isHull ht
  have hsuffix : ts₁ ++ (between ++ vs) <:+ before ++ ts₁ ++ between ++ vs := ⟨before, by simp⟩
  have hlast : (ts₁ ++ (between ++ vs)).getLast? = some x := by
    obtain ⟨front, hfront⟩ := hsuffix
    rw [← hfront, List.getLast?_append] at hx
    rwa [Option.or_of_isSome (by simp [hhull.ne_nil])] at hx
  refine .inr ⟨_, hsuffix.isInfix, ?_, ts₁ ++ between, vs, (List.append_assoc ..).symm,
    (Nests.of_isHull hhull hchildren).of_isInfix (List.prefix_append _ _).isInfix, hvs⟩
  rw [hn]
  refine hhull.merge (Span.isHull_token x) (hts.sublist hsuffix.sublist) ⟨_, rfl⟩ ?_
  obtain ⟨front, hfront⟩ := List.getLast?_eq_some_iff.1 hlast
  exact ⟨front, hfront.symm⟩

end Tree

theorem Expr.kind_root_ne_block (e : Expr) : e.tree.root.kind ≠ .block := fun h => by
  simpa [h, NodeKind.isExpression] using e.isExpression_root

theorem WrittenType.kind_root_ne_block (t : WrittenType) : t.tree.root.kind ≠ .block := by
  simp [tree, Tree.root, Node.kind, Head.kind]

namespace Tree

variable {n : Node} {t u : Tree} {trees : List Tree} {ts us : List Token} {x : Token}

/-- A node whose span is merged of an operand and another child. -/
theorem AllNest.expr_pair {e : Expr} (h : AllNest [e.tree, u] ts) (hts : Token.InOrder ts)
    (hu : u.root.kind ≠ .block) (hn : n.span = e.span.merge u.root.span) :
    (node n [e.tree, u]).Nests ts :=
  nests_pair h hts e.kind_root_ne_block hu (by rw [hn, e.span_root])

/-- A node whose span goes from an operand to the last token. -/
theorem AllNest.expr_close {e : Expr} (h : AllNest (e.tree :: trees) ts) (hts : Token.InOrder ts)
    (hx : ts.getLast? = some x) (hn : n.span = e.span.merge x.span) :
    (node n (e.tree :: trees)).Nests ts :=
  nests_close h hts e.kind_root_ne_block hx (by rw [hn, e.span_root])

/-! ## Spans of a tree that stands on tokens -/

mutual

/-- The tree and all trees in it. -/
def subtrees : Tree → List Tree
  | .node n cs => .node n cs :: allSubtrees cs

def allSubtrees : List Tree → List Tree
  | [] => []
  | t :: ts => t.subtrees ++ allSubtrees ts

end

mutual

theorem map_root_subtrees : (t : Tree) → t.subtrees.map root = t.preorder
  | .node n cs => by rw [subtrees, preorder, List.map_cons, map_root_allSubtrees, root]

theorem map_root_allSubtrees : (ts : List Tree) → (allSubtrees ts).map root = preorders ts
  | [] => rfl
  | t :: ts => by
    rw [allSubtrees, preorders, List.map_append, map_root_subtrees, map_root_allSubtrees]

end

theorem mem_allSubtrees : u ∈ allSubtrees trees ↔ ∃ t ∈ trees, u ∈ t.subtrees := by
  induction trees with
  | nil => simp [allSubtrees]
  | cons t trees ih => simp [allSubtrees, ih]

theorem mem_subtrees : u ∈ t.subtrees ↔ u = t ∨ ∃ c ∈ t.children, u ∈ c.subtrees := by
  cases t with
  | node n cs => rw [subtrees, List.mem_cons, mem_allSubtrees, children]

@[simp] theorem self_mem_subtrees (t : Tree) : t ∈ t.subtrees := mem_subtrees.2 (.inl rfl)

mutual

theorem subtrees_subset : (t : Tree) → u ∈ t.subtrees → u.subtrees ⊆ t.subtrees
  | .node n cs, h => by
    rw [subtrees, List.mem_cons] at h
    rcases h with rfl | h
    · exact List.Subset.refl _
    · exact List.subset_cons_of_subset _ (allSubtrees_subset cs h)

theorem allSubtrees_subset : (trees : List Tree) → u ∈ allSubtrees trees →
    u.subtrees ⊆ allSubtrees trees
  | [], h => by simp [allSubtrees] at h
  | t :: trees, h => by
    rw [allSubtrees, List.mem_append] at h
    rcases h with h | h
    · exact List.subset_append_of_subset_left _ (subtrees_subset t h)
    · exact List.subset_append_of_subset_right _ (allSubtrees_subset trees h)

end

theorem mem_subtrees_of_mem_children {c : Tree} (hu : u ∈ t.subtrees) (hc : c ∈ u.children) :
    c ∈ t.subtrees :=
  subtrees_subset t hu (mem_subtrees.2 (.inr ⟨c, hc, c.self_mem_subtrees⟩))

theorem preorder_subset_of_mem_subtrees (h : u ∈ t.subtrees) : u.preorder ⊆ t.preorder := by
  rw [← map_root_subtrees, ← map_root_subtrees]
  exact List.map_subset _ (subtrees_subset t h)

theorem preorder_subset_of_mem_children {c : Tree} (hu : u ∈ t.subtrees) (hc : c ∈ u.children) :
    c.preorder ⊆ t.preorder :=
  preorder_subset_of_mem_subtrees (mem_subtrees_of_mem_children hu hc)

theorem forall_mem_subtrees_of_node (h : node n trees ∈ t.subtrees) : ∀ c ∈ trees, c ∈ t.subtrees :=
  fun _ hc => mem_subtrees_of_mem_children h hc

theorem root_mem_of_mem_subtrees (h : u ∈ t.subtrees) : u.root ∈ t.preorder := by
  rw [← map_root_subtrees]
  exact List.mem_map_of_mem h

/-- The span of the root starts and ends with one of the tokens, it is not empty, and it covers
those of the children, which come one behind another. -/
structure Fits (t : Tree) (ts : List Token) : Prop where
  start_eq : ∃ first ∈ ts, t.root.span.start = first.span.start ∧
    t.root.span.file = first.span.file
  stop_eq : ∃ last ∈ ts, t.root.span.stop = last.span.stop
  start_lt_stop : t.root.span.start < t.root.span.stop
  covers : ∀ c ∈ t.children, t.root.span.start ≤ c.root.span.start ∧
    c.root.span.stop ≤ t.root.span.stop
  apart : t.children.Pairwise fun c d => c.root.span.stop ≤ d.root.span.start

theorem Fits.of_sublist (h : t.Fits us) (hus : us.Sublist ts) : t.Fits ts := by
  obtain ⟨⟨first, hfirst, hstart⟩, ⟨last, hlast, hstop⟩, hlt, hcovers, hapart⟩ := h
  exact ⟨⟨first, hus.subset hfirst, hstart⟩, ⟨last, hus.subset hlast, hstop⟩, hlt, hcovers, hapart⟩

/-- Trees side by side have their spans side by side. -/
theorem AllNest.forall_isHull (h : AllNest trees ts) (hts : Token.InOrder ts)
    (htrees : ∀ t ∈ trees, t.root.kind ≠ .block) :
    (∀ t ∈ trees, ∃ us, us.Sublist ts ∧ t.root.span.IsHull us) ∧
      trees.Pairwise fun t u => t.root.span.stop ≤ u.root.span.start := by
  induction trees generalizing ts with
  | nil => exact ⟨by simp, .nil⟩
  | cons t trees ih =>
    obtain ⟨us, vs, rfl, ht, hrest⟩ := h
    rw [List.forall_mem_cons] at htrees
    obtain ⟨us', hus', hhull, -⟩ := ht.exists_isHull htrees.1
    obtain ⟨hhulls, hpairwise⟩ := ih hrest (hts.sublist (List.sublist_append_right us vs)) htrees.2
    refine ⟨?_, List.pairwise_cons.2 ⟨fun u hu => ?_, hpairwise⟩⟩
    · rw [List.forall_mem_cons]
      refine ⟨⟨us', hus'.sublist.trans (List.sublist_append_left us vs), hhull⟩, fun u hu => ?_⟩
      obtain ⟨vs', hvs', hhull'⟩ := hhulls u hu
      exact ⟨vs', hvs'.trans (List.sublist_append_right us vs), hhull'⟩
    · obtain ⟨vs', hvs', hhull'⟩ := hhulls u hu
      exact hhull.stop_le_start hhull' (hts.sublist (hus'.sublist.append hvs'))

theorem fits_of_isHull (h : t.root.span.IsHull us) (hchildren : AllNest t.children us)
    (hus : Token.InOrder us) (hkinds : ∀ c ∈ t.children, c.root.kind ≠ .block) : t.Fits us := by
  obtain ⟨hhulls, hpairwise⟩ := hchildren.forall_isHull hus hkinds
  refine ⟨?_, ?_, h.start_lt_stop hus, fun c hc => ?_, hpairwise⟩
  · obtain ⟨first, last, hfirst, -, heq⟩ := h
    exact ⟨first, List.mem_of_mem_head? hfirst, by rw [heq], by rw [heq]⟩
  · obtain ⟨first, last, -, hlast, heq⟩ := h
    exact ⟨last, List.mem_of_getLast? hlast, by rw [heq]⟩
  · obtain ⟨vs, hvs, hhull⟩ := hhulls c hc
    exact hhull.within h hus hvs

mutual

/-- In a tree that stands on tokens, every node fits. Only the root may be a unit, if it has
declarations. -/
theorem Nests.fits : (t : Tree) → {ts : List Token} → t.Nests ts → Token.InOrder ts →
    (t.root.kind = .block → t.children ≠ []) → (∀ n ∈ preorders t.children, n.kind ≠ .block) →
    ∀ u ∈ t.subtrees, u.Fits ts
  | .node n cs, ts, h, hts, hroot, hkinds => by
    rw [Nests] at h
    obtain ⟨us, hus, hhull, hchildren⟩ := h.resolve_left fun hempty => hroot hempty.1 hempty.2
    have hord := hts.sublist hus.sublist
    have hfits : (node n cs).Fits us := fits_of_isHull hhull hchildren hord fun c hc =>
      hkinds _ (mem_preorders.2 ⟨c, hc, c.root_mem_preorder⟩)
    rw [subtrees, List.forall_mem_cons]
    exact ⟨hfits.of_sublist hus.sublist,
      fun u hu => (AllNest.fits cs hchildren hord hkinds u hu).of_sublist hus.sublist⟩

theorem AllNest.fits : (trees : List Tree) → {ts : List Token} → AllNest trees ts →
    Token.InOrder ts → (∀ n ∈ preorders trees, n.kind ≠ .block) →
    ∀ u ∈ allSubtrees trees, u.Fits ts
  | [], _, _, _, _ => by simp [allSubtrees]
  | t :: trees, ts, h, hts, hkinds => by
    obtain ⟨us, vs, rfl, ht, htrees⟩ := h
    rw [preorders, List.forall_mem_append] at hkinds
    rw [allSubtrees, List.forall_mem_append]
    have hleft := List.sublist_append_left us vs
    have hright := List.sublist_append_right us vs
    have hroot := hkinds.1 _ t.root_mem_preorder
    have hinner : ∀ n ∈ preorders t.children, n.kind ≠ .block := by
      intro n hn
      refine hkinds.1 n ?_
      cases t
      exact List.mem_cons_of_mem _ hn
    exact ⟨fun u hu => (Nests.fits t ht (hts.sublist hleft) (fun h => absurd h hroot) hinner u
        hu).of_sublist hleft,
      fun u hu => (AllNest.fits trees htrees (hts.sublist hright) hkinds.2 u hu).of_sublist hright⟩

end

mutual

theorem within_of_mem_subtrees : (t : Tree) → (∀ u ∈ t.subtrees, ∃ us, u.Fits us) → u ∈ t.subtrees →
    t.root.span.start ≤ u.root.span.start ∧ u.root.span.stop ≤ t.root.span.stop
  | .node n cs, hfits, hu => by
    rw [subtrees, List.forall_mem_cons] at hfits
    rw [subtrees, List.mem_cons] at hu
    rcases hu with rfl | hu
    · exact ⟨Nat.le_refl _, Nat.le_refl _⟩
    · obtain ⟨us, hroot⟩ := hfits.1
      obtain ⟨c, hc, hstart, hstop⟩ := within_of_mem_allSubtrees cs hfits.2 hu
      have hcovers := hroot.covers c hc
      exact ⟨Nat.le_trans hcovers.1 hstart, Nat.le_trans hstop hcovers.2⟩

theorem within_of_mem_allSubtrees : (trees : List Tree) →
    (∀ u ∈ allSubtrees trees, ∃ us, u.Fits us) → u ∈ allSubtrees trees → ∃ t ∈ trees,
      t.root.span.start ≤ u.root.span.start ∧ u.root.span.stop ≤ t.root.span.stop
  | [], _, hu => by simp [allSubtrees] at hu
  | t :: trees, hfits, hu => by
    rw [allSubtrees, List.forall_mem_append] at hfits
    rw [allSubtrees, List.mem_append] at hu
    rcases hu with hu | hu
    · exact ⟨t, List.mem_cons_self, within_of_mem_subtrees t hfits.1 hu⟩
    · obtain ⟨t', ht', h⟩ := within_of_mem_allSubtrees trees hfits.2 hu
      exact ⟨t', List.mem_cons_of_mem _ ht', h⟩

end

/-- Two trees in a tree whose nodes fit: one contains the other, or they stand apart. -/
def NestedOrApart (u v : Tree) : Prop :=
  u ∈ v.subtrees ∨ v ∈ u.subtrees ∨ u.root.span.stop ≤ v.root.span.start ∨
    v.root.span.stop ≤ u.root.span.start

theorem NestedOrApart.symm {v : Tree} (h : u.NestedOrApart v) : v.NestedOrApart u := by
  grind [NestedOrApart]

mutual

theorem nested_or_apart {v : Tree} : (t : Tree) → (∀ u ∈ t.subtrees, ∃ us, u.Fits us) →
    u ∈ t.subtrees → v ∈ t.subtrees → u.NestedOrApart v
  | .node n cs, hfits, hu, hv => by
    rw [subtrees, List.mem_cons] at hu hv
    rcases hu with rfl | hu
    · exact .inr (.inl (by rwa [subtrees, List.mem_cons]))
    rcases hv with rfl | hv
    · exact .inl (List.mem_cons_of_mem _ hu)
    rw [subtrees, List.forall_mem_cons] at hfits
    obtain ⟨us, hroot⟩ := hfits.1
    exact all_nested_or_apart cs hfits.2 hroot.apart hu hv

theorem all_nested_or_apart {v : Tree} : (trees : List Tree) →
    (∀ u ∈ allSubtrees trees, ∃ us, u.Fits us) →
    (trees.Pairwise fun c d => c.root.span.stop ≤ d.root.span.start) →
    u ∈ allSubtrees trees → v ∈ allSubtrees trees → u.NestedOrApart v
  | [], _, _, hu, _ => by simp [allSubtrees] at hu
  | t :: trees, hfits, hapart, hu, hv => by
    rw [allSubtrees, List.forall_mem_append] at hfits
    rw [allSubtrees, List.mem_append] at hu hv
    rw [List.pairwise_cons] at hapart
    -- what is in the first tree ends before what is in the others starts
    have hacross : ∀ {x y : Tree}, x ∈ t.subtrees → y ∈ allSubtrees trees → x.NestedOrApart y := by
      intro x y hx hy
      obtain ⟨t', ht', hstart, -⟩ := within_of_mem_allSubtrees trees hfits.2 hy
      have hstop := (within_of_mem_subtrees t hfits.1 hx).2
      have hbetween := hapart.1 t' ht'
      exact .inr (.inr (.inl (by omega)))
    rcases hu with hu | hu <;> rcases hv with hv | hv
    · exact nested_or_apart t hfits.1 hu hv
    · exact hacross hu hv
    · exact (hacross hv hu).symm
    · exact all_nested_or_apart trees hfits.2 hapart.2 hu hv

end

/-- Trees with parts at the same place contain each other. -/
theorem nested_of_span_eq {v x y : Tree} (hfits : ∀ u ∈ t.subtrees, ∃ us, u.Fits us)
    (hu : u ∈ t.subtrees) (hv : v ∈ t.subtrees) (hx : x ∈ u.subtrees) (hy : y ∈ v.subtrees)
    (h : x.root.span = y.root.span) : u ∈ v.subtrees ∨ v ∈ u.subtrees := by
  obtain ⟨us, hfit⟩ := hfits x (subtrees_subset t hu hx)
  have hlt := hfit.start_lt_stop
  have hxu := within_of_mem_subtrees u (fun w hw => hfits w (subtrees_subset t hu hw)) hx
  have hyv := within_of_mem_subtrees v (fun w hw => hfits w (subtrees_subset t hv hw)) hy
  rw [← h] at hyv
  rcases nested_or_apart t hfits hu hv with h | h | h | h
  · exact .inl h
  · exact .inr h
  · omega
  · omega

end Tree

end Sable
