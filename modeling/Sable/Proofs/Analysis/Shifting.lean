import Sable.Proofs.Analysis.Bodies

/-!
# Units in another place

A unit may stand in another place of a text, where its nodes have other numbers. Its analysis then
reports the same errors in that place.

## Main statements

* `Block.Regular.move`: a moved unit is regular.
* `Block.paired_move`: it declares the same.
* `Block.Regular.errors_move`: it has the same errors.
-/
namespace Sable

open Entity (Like)

variable {φ : Relocation}

/-! ## Names -/

theorem Head.names_move (h : Head) : (h.move φ).names = h.names.map (Ident.move φ) := by
  cases h with
  | value v => cases v <;> rfl
  | function name parameters result =>
    cases result <;> simp [move, names]
  | _ => rfl

/-! ## Errors -/

variable {P : NodeId → NodeId → Prop} {W W' : World}

theorem sameNames_move (names : List Ident) :
    sameNames (names.map (Ident.move φ)) = (sameNames names).map (SemanticError.move φ) := by
  rw [sameNames, sameNames, List.map_map, List.map_map]
  rfl

/-- Unknown names are unknown in their new places. -/
theorem World.unknown_move (h : W.Matches P W') (r : Request) :
    W'.unknown (r.move φ) = (W.unknown r).map (SemanticError.move φ) := by
  have htype := h.alike.typeNamed? r.name.name
  rw [World.unknown, World.unknown, Request.move, Ident.move_name]
  generalize W.typeNamed? r.name.name = x, W'.typeNamed? r.name.name = x' at htype ⊢
  cases htype <;> rfl

/-- Alike checks find the same. -/
theorem World.Alike.errors_move {R : Entity → Entity → Prop} (h : W.Alike R W')
    {ks ks' : List Check} (hks : List.Forall₂ (Check.Alike R φ) ks ks') :
    (ks'.flatMap fun k => (W'.check k).errors) =
      (ks.flatMap fun k => (W.check k).errors).map (SemanticError.move φ) := by
  induction hks with
  | nil => rfl
  | cons hk _ ih =>
    rw [List.flatMap_cons, List.flatMap_cons, List.map_append, ih, (h.check hk).errors_eq]

/-! ## Units -/

namespace Block

variable {b : Block}

theorem Regular.move (hb : b.Regular) : (b.move φ).Regular where
  nodup_ids := by
    have hids : Node.id ∘ Node.move φ = (· + φ.shift) ∘ Node.id := rfl
    rw [tree_move, Tree.preorder_move, List.map_map, hids, ← List.map_map]
    exact hb.nodup_ids.map fun _ _ h => Nat.add_right_cancel h
  isPlainName := by
    rw [tree_move, Tree.preorder_move, List.forall_mem_map]
    intro n hn
    rw [Node.move_head, Head.names_move, List.forall_mem_map]
    exact hb.isPlainName n hn

/-- The declarations of a unit go together with those of the moved unit. -/
theorem paired_move (b : Block) : b.Paired
    (fun n n' => n ∈ b.declarations.flatMap Declaration.keys ∧ n' = n + φ.shift) (b.move φ) := by
  have hkeys : ∀ d ∈ b.declarations, ∀ n ∈ d.keys,
      n ∈ b.declarations.flatMap Declaration.keys ∧ n + φ.shift = n + φ.shift :=
    fun d hd n hn => ⟨List.mem_flatMap.2 ⟨d, hd, hn⟩, rfl⟩
  refine
    { eq_iff := ?_
      classes := ?_
      values := Declaration.values_twin hkeys
      twins := ?_ }
  · rintro n _ m _ ⟨-, rfl⟩ ⟨-, rfl⟩
    exact Nat.add_right_cancel_iff.symm
  · rw [classes_eq, classes_eq]
    exact Declaration.classes_twin hkeys
  · rintro n _ ⟨hn, rfl⟩
    obtain ⟨d, hd, hn⟩ := List.mem_flatMap.1 hn
    exact Twins.of_declaration hd (List.mem_map_of_mem hd) (hkeys d hd) n hn

namespace Regular

variable (hb : b.Regular) {deps : List Library} {k k' : LibraryId}

include hb

/-- The same is found in a moved unit. -/
theorem errors_checks_move : ((b.move φ).checks.flatMap fun k =>
      ((World.around deps (b.move φ)).check k).errors) =
    (b.checks.flatMap fun k => ((World.around deps b).check k).errors).map
      (SemanticError.move φ) := by
  have halike := World.alike_around (b.paired_move (φ := φ)) hb.toNumbered hb.move.toNumbered deps
  apply halike.errors_move
  apply List.rel_flatMap (R := fun d d' => d ∈ b.declarations ∧ d' = d.move φ)
  · rw [Block.move, List.forall₂_map_right_iff, List.forall₂_same]
    exact fun d hd => ⟨hd, rfl⟩
  · rintro d _ ⟨hd, rfl⟩
    apply Declaration.checks_alike
    exact fun n hn => .declared ⟨List.mem_flatMap.2 ⟨d, hd, List.mem_append_right _ hn⟩, rfl⟩

/-- Analyses of a unit and of the moved unit into new libraries report the same. -/
theorem errors_move (hk : Library.IsUnused k deps) (hk' : Library.IsUnused k' deps)
    (name name' : String) : ((b.move φ).analyze deps (.new k' name')).errors =
      ((b.analyze deps (.new k name)).errors).map (SemanticError.move φ) := by
  have hW := World.matches_around (b.paired_move (φ := φ)) hb.toNumbered hb.move.toNumbered deps
  have hclasses : (b.move φ).classes.map ClassDecl.name =
      (b.classes.map ClassDecl.name).map (Ident.move φ) := by
    rw [classes_move, List.map_map, List.map_map]
    rfl
  have hrequests : (b.move φ).declarations.flatMap Declaration.requests =
      (b.declarations.flatMap Declaration.requests).map (Request.move φ) := by
    rw [Block.move, List.flatMap_map, List.map_flatMap]
    exact List.flatMap_congr fun d _ => Declaration.requests_move φ d
  have hunknown (rs : List Request) :
      (rs.map (Request.move φ)).flatMap (World.around deps (b.move φ)).unknown =
        (rs.flatMap (World.around deps b).unknown).map (SemanticError.move φ) := by
    rw [List.flatMap_map, List.map_flatMap]
    exact List.flatMap_congr fun r _ => World.unknown_move hW r
  have hmodels := World.models_around_of_regular hk hb name
  have hmoved := World.models_around_of_regular hk' (hb.move (φ := φ)) name'
  rw [hmoved.errors_analyze_of_regular hb.move, hmodels.errors_analyze_of_regular hb, hclasses,
    takenNames_move, map_name_move, hrequests, hunknown, hb.errors_checks_move, Block.move,
    Declaration.listTaken_move, sameNames_move, sameNames_move, List.map_append, List.map_append,
    List.map_append]

end Regular

end Block

end Sable
