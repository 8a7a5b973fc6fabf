import Mathlib.Data.List.Chain
import Mathlib.Logic.Relation
import Sable.Proofs.Grammar.Numbering
import Sable.Proofs.Syntax.Nesting
import Sable.Proofs.Syntax.Parents

/-!
# Children and parents

In a tree whose nodes have numbers of their own, the table of parents is the relation between nodes
and their children, read backwards. The loop that fills it comes to an end and writes down what the
recursion over the tree does. The way up from a node leads from parent to parent and ends at the
root.

## Main definitions

* `Tree.IsChild`, `Tree.IsAbove`: a node and its children, a node and all nodes below it.
* `Tree.HasDistinctIds`: no two nodes share a number.
* `ParentMap.Links`: a run of the loop, turn by turn.
* `ParentMap.Inverts`: what a table says of a tree.

## Main statements

* `Tree.isChild_iff`, `Tree.HasDistinctIds.mem_path_iff`: paths are made of parents.
* `ParentMap.build_inverts`: what the table of a tree says.
-/
namespace Sable

namespace Tree

variable {t u : Tree} {n p a : Node} {above as : List Node}

/-! ## Children -/

/-- `n` is the root of a child of a tree with the root `p`. -/
def IsChild (t : Tree) (p n : Node) : Prop :=
  ∃ u ∈ t.subtrees, u.root = p ∧ ∃ c ∈ u.children, c.root = n

/-- `a` is the parent of `n`, or the parent of its parent, and so on. -/
def IsAbove (t : Tree) : Node → Node → Prop := Relation.TransGen t.IsChild

/-- No two nodes share a number. -/
def HasDistinctIds (t : Tree) : Prop := (t.preorder.map Node.id).Nodup

/-- The tree of a unit or of an expression that was read. -/
def IsParsed (t : Tree) : Prop :=
  ∃ tokens source, (∃ b, Block.parse tokens source = .ok b ∧ b.tree = t) ∨
    ∃ e, Expr.parse tokens source = .ok e ∧ e.tree = t

theorem IsParsed.hasDistinctIds (h : t.IsParsed) : t.HasDistinctIds := by
  obtain ⟨tokens, source, ⟨b, h, rfl⟩ | ⟨e, h, rfl⟩⟩ := h
  · obtain ⟨rest, -, hnumbers⟩ := (parse_inPostorder tokens source).1 b h
    exact ((preorder_perm_postorder _).map _).nodup_iff.2 hnumbers.nodup
  · obtain ⟨rest, -, hnumbers⟩ := (parse_inPostorder tokens source).2 e h
    exact ((preorder_perm_postorder _).map _).nodup_iff.2 hnumbers.nodup

theorem IsChild.mono (h : u.IsChild p n) (hu : u ∈ t.subtrees) : t.IsChild p n := by
  obtain ⟨v, hv, h⟩ := h
  exact ⟨v, subtrees_subset t hu hv, h⟩

theorem isChild_root {c : Tree} (hc : c ∈ t.children) : t.IsChild t.root c.root :=
  ⟨t, t.self_mem_subtrees, rfl, c, hc, rfl⟩

/-! ## Paths are made of parents -/

mutual

theorem exists_paths_subset_of_mem (above : List Node) :
    (t : Tree) → u ∈ t.subtrees → ∃ as, u.paths as ⊆ t.paths above
  | .node n cs, h => by
    rw [subtrees, List.mem_cons] at h
    rcases h with rfl | h
    · exact ⟨above, List.Subset.refl _⟩
    · obtain ⟨as, hsubset⟩ := exists_paths_subset_of_mem_all (n :: above) cs h
      exact ⟨as, List.subset_cons_of_subset _ hsubset⟩

theorem exists_paths_subset_of_mem_all (above : List Node) :
    (ts : List Tree) → u ∈ allSubtrees ts → ∃ as, u.paths as ⊆ allPaths above ts
  | [], h => by simp [allSubtrees] at h
  | t :: ts, h => by
    rw [allSubtrees, List.mem_append] at h
    rcases h with h | h
    · obtain ⟨as, hsubset⟩ := exists_paths_subset_of_mem above t h
      exact ⟨as, List.subset_append_of_subset_left _ hsubset⟩
    · obtain ⟨as, hsubset⟩ := exists_paths_subset_of_mem_all above ts h
      exact ⟨as, List.subset_append_of_subset_right _ hsubset⟩

end

theorem IsChild.exists_mem_paths (h : t.IsChild p n) (above : List Node) :
    ∃ as, (n, p :: as) ∈ t.paths above := by
  obtain ⟨u, hu, rfl, c, hc, rfl⟩ := h
  obtain ⟨as, hsubset⟩ := exists_paths_subset_of_mem above t hu
  exact ⟨as, hsubset (paths_subset_of_mem_children as hc (c.root_mem_paths _))⟩

mutual

theorem isChild_of_mem_paths {above : List Node} : (t : Tree) → (n, p :: as) ∈ t.paths above →
    (n = t.root ∧ p :: as = above) ∨ t.IsChild p n
  | .node m cs, h => by
    rw [paths, List.mem_cons] at h
    rcases h with h | h
    · exact .inl (Prod.mk.inj h)
    · right
      obtain ⟨c, hc, ⟨rfl, hpath⟩ | hchild⟩ := isChild_of_mem_allPaths cs h
      · rw [(List.cons.inj hpath).1]
        exact isChild_root (t := .node m cs) hc
      · exact hchild.mono (mem_subtrees_of_mem_children (self_mem_subtrees _) hc)

theorem isChild_of_mem_allPaths {above : List Node} : (ts : List Tree) →
    (n, p :: as) ∈ allPaths above ts → ∃ c ∈ ts, (n = c.root ∧ p :: as = above) ∨ c.IsChild p n
  | [], h => by simp [allPaths] at h
  | t :: ts, h => by
    rw [allPaths, List.mem_append] at h
    rcases h with h | h
    · exact ⟨t, List.mem_cons_self, isChild_of_mem_paths t h⟩
    · obtain ⟨c, hc, h⟩ := isChild_of_mem_allPaths ts h
      exact ⟨c, List.mem_cons_of_mem _ hc, h⟩

end

/-- The first node of a path is the parent. -/
theorem isChild_iff : t.IsChild p n ↔ ∃ as, (n, p :: as) ∈ t.paths [] := by
  constructor
  · exact fun h => h.exists_mem_paths []
  · rintro ⟨as, h⟩
    exact (isChild_of_mem_paths t h).resolve_left fun hroot => by simp at hroot

mutual

theorem suffix_of_mem_paths {above : List Node} :
    (t : Tree) → (n, as) ∈ t.paths above → above <:+ as
  | .node m cs, h => by
    rw [paths, List.mem_cons] at h
    rcases h with h | h
    · rw [(Prod.mk.inj h).2]
    · exact (List.suffix_cons m above).trans (suffix_of_mem_allPaths cs h)

theorem suffix_of_mem_allPaths {above : List Node} : (ts : List Tree) →
    (n, as) ∈ allPaths above ts → above <:+ as
  | [], h => by simp [allPaths] at h
  | t :: ts, h => by
    rw [allPaths, List.mem_append] at h
    exact h.elim (suffix_of_mem_paths t) (suffix_of_mem_allPaths ts)

end

/-- Only around the root there is nothing. -/
theorem eq_root_of_mem_paths (h : (n, []) ∈ t.paths []) : n = t.root := by
  cases t with
  | node m cs =>
    rw [paths, List.mem_cons] at h
    rcases h with h | h
    · exact (Prod.mk.inj h).1
    · simpa using suffix_of_mem_allPaths cs h

/-- A path goes from parent to parent up to the root. -/
theorem isChain_of_mem_paths (h : (n, as) ∈ t.paths []) :
    (n :: as).IsChain (fun c p => t.IsChild p c) ∧ (n :: as).getLast? = some t.root := by
  induction as generalizing n with
  | nil => exact ⟨.singleton _, by rw [eq_root_of_mem_paths h]; rfl⟩
  | cons a as ih =>
    have hnext : (a, as) ∈ t.paths [] := (tail_mem_paths t h).resolve_right (by simp)
    obtain ⟨hchain, hlast⟩ := ih hnext
    exact ⟨.cons_cons (isChild_iff.2 ⟨as, h⟩) hchain, by rw [List.getLast?_cons_cons, hlast]⟩

theorem HasDistinctIds.path_unique (h : t.HasDistinctIds) {bs : List Node}
    (has : (n, as) ∈ t.paths []) (hbs : (n, bs) ∈ t.paths []) : as = bs := by
  rw [← ParentMap.ancestors_build h has, ParentMap.ancestors_build h hbs]

/-- The nodes on the path of a node are those above it. -/
theorem HasDistinctIds.mem_path_iff (h : t.HasDistinctIds) (hn : (n, as) ∈ t.paths []) :
    a ∈ as ↔ t.IsAbove a n := by
  constructor
  · intro ha
    induction as generalizing n with
    | nil => simp at ha
    | cons p as ih =>
      have hchild : t.IsChild p n := isChild_iff.2 ⟨as, hn⟩
      rcases List.mem_cons.1 ha with rfl | ha
      · exact .single hchild
      · exact .tail (ih ((tail_mem_paths t hn).resolve_right (by simp)) ha) hchild
  · intro ha
    induction ha generalizing as with
    | single hchild =>
      obtain ⟨bs, hbs⟩ := isChild_iff.1 hchild
      rw [h.path_unique hn hbs]
      exact List.mem_cons_self
    | tail _ hchild ih =>
      obtain ⟨bs, hbs⟩ := isChild_iff.1 hchild
      rw [h.path_unique hn hbs]
      exact List.mem_cons_of_mem _ (ih ((tail_mem_paths t hbs).resolve_right (by simp)))

mutual

theorem rowsOf_paths (above : List Node) : (t : Tree) →
    ParentMap.rowsOf (t.paths above) = t.withParents (above.head?.map Node.id)
  | .node n cs => congrArg (List.cons _) (rowsOf_allPaths (n :: above) cs)

theorem rowsOf_allPaths (above : List Node) : (ts : List Tree) →
    ParentMap.rowsOf (allPaths above ts) = allWithParents (above.head?.map Node.id) ts
  | [] => rfl
  | t :: ts => by
    rw [allPaths, allWithParents, ← rowsOf_paths above t, ← rowsOf_allPaths above ts]
    exact List.map_append

end

end Tree

open Sable.Tree

namespace ParentMap

/-! ## The loop -/

/-- A run of the loop from a stack to its end, and the rows that are written on the way: each turn
takes a tree off the stack and puts its children on it. -/
inductive Links : List (Tree × Option NodeId) → List (Node × Option NodeId) → Prop
  | done : Links [] []
  | turn {n : Node} {cs : List Tree} {parent : Option NodeId} {stack : List (Tree × Option NodeId)}
      {rows : List (Node × Option NodeId)} (next : Links (cs.map (·, some n.id) ++ stack) rows) :
      Links ((.node n cs, parent) :: stack) ((n, parent) :: rows)

/-- As many turns as there are nodes bring the loop to its end. -/
theorem links_link (bound : Nat) (stack : List (Tree × Option NodeId))
    (h : (stack.map fun p => p.1.size).sum ≤ bound) : Links stack (link bound stack) := by
  induction bound generalizing stack with
  | zero =>
    obtain _ | ⟨⟨⟨n, cs⟩, parent⟩, stack⟩ := stack
    · exact .done
    · simp [Tree.size] at h
  | succ bound ih =>
    obtain _ | ⟨⟨⟨n, cs⟩, parent⟩, stack⟩ := stack
    · exact .done
    · refine .turn (ih _ ?_)
      rw [List.map_append, List.sum_append, sum_sizes]
      simp only [List.map_cons, List.sum_cons, Tree.size] at h
      omega

/-! ## The table -/

variable {t : Tree} {n p : Node} {id : NodeId}

/-- The table holds the nodes of the tree and no others. The parent of a node is the node of which it
is a child, and the root has none. The way up from a node takes one parent after the other and ends
at the root. The function around a node is the first one on its way. -/
structure Inverts (m : ParentMap) (t : Tree) : Prop where
  size_eq : m.size = t.size
  node_iff : ∀ id n, m.node? id = some n ↔ n ∈ t.preorder ∧ n.id = id
  parent_iff : ∀ id p, m.parent? id = some p ↔ ∃ n, n.id = id ∧ t.IsChild p n
  parent_root : m.parent? t.id = none
  ancestors_eq : ∀ id, m.ancestors id = (m.parent? id).elim [] fun p => p :: m.ancestors p.id
  path : ∀ n ∈ t.preorder, (n :: m.ancestors n.id).IsChain (fun c p => t.IsChild p c) ∧
    (n :: m.ancestors n.id).getLast? = some t.root
  function_iff : ∀ id f, m.enclosingFunction? id = some f ↔ ∃ inner outer,
    m.ancestors id = inner ++ f :: outer ∧ f.kind = .function ∧ ∀ a ∈ inner, a.kind ≠ .function

theorem mem_of_row?_build {parent : Option NodeId} (h : (build t).row? id = some (n, parent)) :
    n ∈ t.preorder ∧ n.id = id := by
  rw [row?, rows_build] at h
  obtain ⟨⟨m, as⟩, hpath, heq⟩ := List.mem_map.1 (List.mem_of_find?_eq_some h)
  obtain ⟨rfl, -⟩ := Prod.mk.inj heq
  exact ⟨(mem_preorder_iff []).2 ⟨as, hpath⟩, by simpa using List.find?_some h⟩

section

variable (h : t.HasDistinctIds)
include h

theorem node?_build_iff : (build t).node? id = some n ↔ n ∈ t.preorder ∧ n.id = id := by
  constructor
  · intro hnode
    obtain ⟨⟨m, parent⟩, hrow, rfl⟩ := Option.map_eq_some_iff.1 hnode
    exact mem_of_row?_build hrow
  · rintro ⟨hn, rfl⟩
    obtain ⟨as, has⟩ := (mem_preorder_iff []).1 hn
    rw [node?, row?_build h has]
    rfl

/-- A number of no node has no parent. -/
theorem exists_mem_paths_of_parent? (hp : (build t).parent? id = some p) :
    ∃ n as, n.id = id ∧ (n, p :: as) ∈ t.paths [] := by
  obtain ⟨parent, hparent, -⟩ := Option.bind_eq_some_iff.1 hp
  obtain ⟨⟨n, _⟩, hrow, -⟩ := Option.bind_eq_some_iff.1 hparent
  obtain ⟨hn, rfl⟩ := mem_of_row?_build hrow
  obtain ⟨as, has⟩ := (mem_preorder_iff []).1 hn
  rw [parent?_build h has, List.head?_eq_some_iff] at hp
  obtain ⟨as, rfl⟩ := hp
  exact ⟨n, as, rfl, has⟩

theorem parent?_build_iff :
    (build t).parent? id = some p ↔ ∃ n, n.id = id ∧ t.IsChild p n := by
  constructor
  · intro hp
    obtain ⟨n, as, hid, has⟩ := exists_mem_paths_of_parent? h hp
    exact ⟨n, hid, isChild_iff.2 ⟨as, has⟩⟩
  · rintro ⟨n, rfl, hchild⟩
    obtain ⟨as, has⟩ := isChild_iff.1 hchild
    rw [parent?_build h has, List.head?_cons]

theorem ancestors_build_eq (id : NodeId) : (build t).ancestors id =
    ((build t).parent? id).elim [] fun p => p :: (build t).ancestors p.id := by
  cases hp : (build t).parent? id with
  | none =>
    rw [ancestors]
    cases (build t).size <;> simp [ancestorsWithin, hp]
  | some p =>
    obtain ⟨n, as, rfl, has⟩ := exists_mem_paths_of_parent? h hp
    have hnext : (p, as) ∈ t.paths [] := (tail_mem_paths t has).resolve_right (by simp)
    rw [ancestors_build h has, Option.elim_some, ancestors_build h hnext]

theorem inverts_build : (build t).Inverts t where
  size_eq := by rw [ParentMap.size, rows_build, rowsOf, List.length_map, length_paths]
  node_iff _ _ := node?_build_iff h
  parent_iff _ _ := parent?_build_iff h
  parent_root := parent?_build h (t.root_mem_paths [])
  ancestors_eq := ancestors_build_eq h
  path n hn := by
    obtain ⟨as, has⟩ := (mem_preorder_iff []).1 hn
    rw [ancestors_build h has]
    exact isChain_of_mem_paths has
  function_iff id f := by
    rw [enclosingFunction?, List.find?_eq_some_iff_append]
    constructor
    · rintro ⟨hf, inner, outer, hpath, hinner⟩
      exact ⟨inner, outer, hpath, by simpa using hf, fun a ha => by simpa using hinner a ha⟩
    · rintro ⟨inner, outer, hpath, hf, hinner⟩
      exact ⟨by simpa using hf, inner, outer, hpath, fun a ha => by simpa using hinner a ha⟩

end

/-- Nodes of trees that were read have numbers of their own. Of every such tree, the loop that links
parents comes to an end, the rows that it has written are those of the recursion over the tree, and
the table is that of the children, read backwards. -/
theorem build_inverts :
    (∀ t : Tree, t.IsParsed → t.HasDistinctIds) ∧
      ∀ t : Tree, t.HasDistinctIds → Links [(t, none)] (build t).rows ∧
        (build t).rows = t.withParents none ∧ (build t).Inverts t := by
  refine ⟨fun t h => h.hasDistinctIds, fun t h => ⟨?_, ?_, inverts_build h⟩⟩
  · exact links_link t.size [(t, none)] (by simp)
  · rw [rows_build, rowsOf_paths]
    rfl

/-- `fn f() { while (a) { return; } }` -/
theorem build_inverts_while :
    let source := "fn f() { while (a) { return; } }"
    ∃ b f, Block.parse ((default : Lexer).tokenize source) source = .ok b ∧
      b.tree.HasDistinctIds ∧ (build b.tree).Inverts b.tree ∧ (build b.tree).size = 7 ∧
      f.kind = .function ∧ (build b.tree).enclosingFunction? 1 = some f := by
  intro source
  have hparse : (Block.parse ((default : Lexer).tokenize source) source).toOption.map (fun b =>
      ((build b.tree).size, ((build b.tree).enclosingFunction? 1).map Node.kind)) =
        some (7, some .function) := by
    decide +kernel
  obtain ⟨b, hb, hfound⟩ := exists_of_toOption_map hparse
  obtain ⟨hsize, hfunction⟩ := Prod.mk.inj hfound
  obtain ⟨f, hf, hkind⟩ := Option.map_eq_some_iff.1 hfunction
  have hids := build_inverts.1 b.tree ⟨_, source, .inl ⟨b, hb, rfl⟩⟩
  exact ⟨b, f, hb, hids, (build_inverts.2 b.tree hids).2.2, hsize, hkind, hf⟩

end ParentMap

end Sable
