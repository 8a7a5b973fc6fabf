import Mathlib.Algebra.GroupWithZero.Nat
import Mathlib.Data.List.Nodup
import Mathlib.Tactic.Common
import Sable.Proofs.Syntax.Tree
import Sable.Syntax.Parents

/-!
# Paths to the root

The table of parents of a tree, in which no two nodes share a number, leads from every node to the
nodes around it.

## Main definitions

* `Tree.paths`: all nodes of a tree, each with the nodes around it, the nearest first.

## Main statements

* `ParentMap.ancestors_build`: the table leads along the paths.
-/
namespace Sable

namespace Tree

mutual

/-- The nodes of a tree, in preorder. Each comes with the nodes around it. -/
def paths (above : List Node) : Tree → List (Node × List Node)
  | .node n cs => (n, above) :: allPaths (n :: above) cs

def allPaths (above : List Node) : List Tree → List (Node × List Node)
  | [] => []
  | t :: ts => t.paths above ++ allPaths above ts

end

theorem allPaths_eq_flatMap (above : List Node) (ts : List Tree) :
    allPaths above ts = ts.flatMap (paths above) := by
  induction ts with
  | nil => rfl
  | cons t ts ih => rw [allPaths, ih, List.flatMap_cons]

theorem mem_allPaths {above : List Node} {ts : List Tree} {p : Node × List Node} :
    p ∈ allPaths above ts ↔ ∃ t ∈ ts, p ∈ t.paths above := by
  rw [allPaths_eq_flatMap, List.mem_flatMap]

theorem root_mem_paths (t : Tree) (above : List Node) : (t.root, above) ∈ t.paths above := by
  cases t
  exact List.mem_cons_self

theorem paths_subset_of_mem_children {c t : Tree} (above : List Node) (hc : c ∈ t.children) :
    c.paths (t.root :: above) ⊆ t.paths above := by
  cases t
  exact fun _ hp => List.mem_cons_of_mem _ (mem_allPaths.2 ⟨c, hc, hp⟩)

mutual

theorem map_fst_paths (above : List Node) :
    (t : Tree) → (t.paths above).map Prod.fst = t.preorder
  | .node n cs => by rw [paths, preorder, List.map_cons, map_fst_allPaths]

theorem map_fst_allPaths (above : List Node) :
    (ts : List Tree) → (allPaths above ts).map Prod.fst = preorders ts
  | [] => rfl
  | t :: ts => by rw [allPaths, preorders, List.map_append, map_fst_paths, map_fst_allPaths]

end

theorem mem_preorder_iff {t : Tree} {n : Node} (above : List Node) :
    n ∈ t.preorder ↔ ∃ as, (n, as) ∈ t.paths above := by
  rw [← map_fst_paths above, List.mem_map]
  constructor
  · rintro ⟨⟨m, as⟩, hm, rfl⟩
    exact ⟨as, hm⟩
  · exact fun ⟨as, hn⟩ => ⟨_, hn, rfl⟩

mutual

/-- The nearest node around a node is reached on the rest of its path. -/
theorem tail_mem_paths {above : List Node} {n a : Node} {as : List Node} :
    (t : Tree) → (n, a :: as) ∈ t.paths above → (a, as) ∈ t.paths above ∨ a :: as = above
  | .node m cs, h => by
    rw [paths, List.mem_cons] at h ⊢
    rcases h with h | h
    · exact .inr (Prod.mk.inj h).2
    · rcases tail_mem_allPaths cs h with h | h
      · exact .inl (.inr h)
      · exact .inl (.inl (by rw [(List.cons.inj h).1, (List.cons.inj h).2]))

theorem tail_mem_allPaths {above : List Node} {n a : Node} {as : List Node} :
    (ts : List Tree) → (n, a :: as) ∈ allPaths above ts →
      (a, as) ∈ allPaths above ts ∨ a :: as = above
  | [], h => by simp [allPaths] at h
  | t :: ts, h => by
    rw [allPaths, List.mem_append] at h ⊢
    rcases h with h | h
    · exact (tail_mem_paths t h).imp_left .inl
    · exact (tail_mem_allPaths ts h).imp_left .inr

end

mutual

/-- A path is shorter than the tree is large. -/
theorem length_lt_of_mem_paths {above : List Node} {n : Node} {as : List Node} :
    (t : Tree) → (n, as) ∈ t.paths above → as.length < above.length + t.size
  | .node m cs, h => by
    rw [paths, List.mem_cons] at h
    rw [size]
    rcases h with h | h
    · rw [(Prod.mk.inj h).2]
      omega
    · have := length_lt_of_mem_allPaths cs h
      rw [List.length_cons] at this
      omega

theorem length_lt_of_mem_allPaths {above : List Node} {n : Node} {as : List Node} :
    (ts : List Tree) → (n, as) ∈ allPaths above ts → as.length < above.length + sizes ts
  | [], h => by simp [allPaths] at h
  | t :: ts, h => by
    rw [allPaths, List.mem_append] at h
    rw [sizes]
    rcases h with h | h
    · have := length_lt_of_mem_paths t h
      omega
    · have := length_lt_of_mem_allPaths ts h
      omega

end

mutual

theorem length_paths (above : List Node) : (t : Tree) → (t.paths above).length = t.size
  | .node _ cs => by rw [paths, size, List.length_cons, length_allPaths]

theorem length_allPaths (above : List Node) : (ts : List Tree) → (allPaths above ts).length = sizes ts
  | [] => rfl
  | t :: ts => by rw [allPaths, sizes, List.length_append, length_paths, length_allPaths]

end

mutual

/-- What is not in a tree is first found above it. -/
theorem find?_of_mem_paths {p : Node → Bool} {above : List Node} {n : Node} {as : List Node} :
    (t : Tree) → (∀ m ∈ t.preorder, p m = false) → (n, as) ∈ t.paths above →
      as.find? p = above.find? p
  | .node m cs, hp, h => by
    rw [preorder, List.forall_mem_cons] at hp
    rw [paths, List.mem_cons] at h
    rcases h with h | h
    · rw [(Prod.mk.inj h).2]
    · rw [find?_of_mem_allPaths cs hp.2 h, List.find?_cons, hp.1]

theorem find?_of_mem_allPaths {p : Node → Bool} {above : List Node} {n : Node} {as : List Node} :
    (ts : List Tree) → (∀ m ∈ preorders ts, p m = false) → (n, as) ∈ allPaths above ts →
      as.find? p = above.find? p
  | [], _, h => by simp [allPaths] at h
  | t :: ts, hp, h => by
    rw [preorders, List.forall_mem_append] at hp
    rw [allPaths, List.mem_append] at h
    rcases h with h | h
    · exact find?_of_mem_paths t hp.1 h
    · exact find?_of_mem_allPaths ts hp.2 h

end

theorem sum_sizes {α : Type} {a : α} (ts : List Tree) :
    ((ts.map (·, a)).map fun p => p.1.size).sum = sizes ts := by
  induction ts with
  | nil => rfl
  | cons t ts ih => rw [List.map_cons, List.map_cons, List.sum_cons, ih, sizes]

end Tree

namespace ParentMap

open Sable.Tree

/-- The rows of these paths. -/
def rowsOf (ps : List (Node × List Node)) : List (Node × Option NodeId) :=
  ps.map fun (n, above) => (n, above.head?.map Node.id)

theorem link_eq (bound : Nat) (stack : List (Tree × List Node))
    (h : (stack.map fun p => p.1.size).sum ≤ bound) :
    link bound (stack.map fun p => (p.1, p.2.head?.map Node.id)) =
      rowsOf (stack.flatMap fun p => p.1.paths p.2) := by
  induction bound generalizing stack with
  | zero =>
    obtain _ | ⟨⟨⟨n, cs⟩, above⟩, stack⟩ := stack
    · rfl
    · simp [Tree.size] at h
  | succ bound ih =>
    obtain _ | ⟨⟨⟨n, cs⟩, above⟩, stack⟩ := stack
    · rfl
    · have hstack := ih (cs.map (·, n :: above) ++ stack) (by
        simp only [List.map_cons, List.sum_cons, Tree.size] at h
        rw [List.map_append, List.sum_append, sum_sizes]
        omega)
      simp only [List.map_append, List.map_map, Function.comp_def, List.head?_cons, Option.map_some]
        at hstack
      rw [List.map_cons, link, hstack, List.flatMap_append, List.flatMap_map, List.flatMap_cons,
        paths, allPaths_eq_flatMap]
      rfl

theorem rows_build (t : Tree) : (build t).rows = rowsOf (t.paths []) := by
  have hrows := link_eq t.size [(t, [])] (by simp)
  simpa [build] using hrows

section

variable {t : Tree} (h : (t.preorder.map Node.id).Nodup) {n : Node} {as : List Node}
include h

theorem row?_build (hn : (n, as) ∈ t.paths []) :
    (build t).row? n.id = some (n, as.head?.map Node.id) := by
  have hids : ((t.paths []).map fun p => p.1.id).Nodup := by
    rw [← map_fst_paths [], List.map_map] at h
    exact h
  rw [row?, rows_build, rowsOf, List.find?_map]
  generalize t.paths [] = ps at hids hn
  induction ps with
  | nil => simp at hn
  | cons p ps ih =>
    rw [List.map_cons, List.nodup_cons] at hids
    rw [List.find?_cons]
    rcases List.mem_cons.1 hn with rfl | hmem
    · simp
    · have hne : (p.1.id == n.id) = false := by
        rw [beq_eq_false_iff_ne]
        exact fun heq => hids.1 (heq ▸ List.mem_map_of_mem hmem)
      simp only [Function.comp_apply, hne]
      exact ih hids.2 hmem

theorem parent?_build (hn : (n, as) ∈ t.paths []) : (build t).parent? n.id = as.head? := by
  rw [parent?, row?_build h hn]
  obtain _ | ⟨a, as⟩ := as
  · rfl
  · rcases tail_mem_paths t hn with ha | ha
    · rw [Option.bind_some, List.head?_cons, Option.map_some, Option.bind_some, node?,
        row?_build h ha]
      rfl
    · simp at ha

theorem ancestorsWithin_build (bound : Nat) (hn : (n, as) ∈ t.paths []) :
    (build t).ancestorsWithin bound n.id = as.take bound := by
  induction bound generalizing n as with
  | zero => rw [ancestorsWithin, List.take_zero]
  | succ bound ih =>
    rw [ancestorsWithin, parent?_build h hn]
    obtain _ | ⟨a, as⟩ := as
    · rfl
    · rcases tail_mem_paths t hn with ha | ha
      · rw [List.head?_cons, List.take_succ_cons, ← ih ha]
      · simp at ha

/-- The way up from a node is its path. -/
theorem ancestors_build (hn : (n, as) ∈ t.paths []) : (build t).ancestors n.id = as := by
  have hlength := length_lt_of_mem_paths t hn
  have hsize : (build t).size = t.size := by
    rw [ParentMap.size, rows_build, rowsOf, List.length_map, length_paths]
  rw [ancestors, ancestorsWithin_build h _ hn, hsize, List.take_of_length_le]
  simpa using Nat.le_of_lt hlength

theorem enclosingFunction?_build (hn : (n, as) ∈ t.paths []) :
    (build t).enclosingFunction? n.id = as.find? (·.kind == .function) := by
  rw [enclosingFunction?, ancestors_build h hn]

end

end ParentMap

end Sable
