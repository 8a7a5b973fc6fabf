import Sable.Proofs.Analysis.Deriving

/-!
# Checks in a world

Nothing is found wrong in a check exactly if what it asks for holds.

## Main definitions

* `World.IsExpected`: a type that is written somewhere in the unit.

## Main statements

* `World.Knows.confirms_check`: the checks of a unit.
-/
namespace Sable

namespace World

variable {W : World} {b : Block}

/-! ## What checks rely on -/

/-- What is written as a type is known. -/
def IsExpected (W : World) (b : Block) (τ : Ty) : Prop :=
  ∃ x, W.ofTy? τ = some x ∧ W.Denotes b x τ

namespace Knows

variable (hW : W.Knows b)

include hW

theorem isExpected_ty {t : WrittenType} (ht : t ∈ b.writtenTypes) : W.IsExpected b t.ty := by
  obtain ⟨x, hx, h⟩ := hW.denotes_written? ht
  exact ⟨x, by rw [ofTy?_ty, hx], h⟩

theorem isExpected_result {d : FunctionDecl} (hd : d ∈ b.allFunctions) :
    W.IsExpected b d.result := by
  obtain ⟨x, hx, h⟩ := hW.denotes_result? hd
  exact ⟨x, by rw [ofTy?_result, hx], h⟩

theorem isLocal_local {d : FunctionDecl} (hd : d ∈ b.allFunctions) {l : LocalDecl}
    (hl : l ∈ d.locals) {t : WrittenType} (ht : t ∈ b.writtenTypes)
    (htype : (W.localSketch l).type = W.written? t) :
    W.IsLocal b ⟨l.place.id, l.name.name, t.ty⟩ := by
  obtain ⟨x, hx, h⟩ := hW.denotes_written? ht
  refine ⟨x, ?_, h⟩
  rw [sketch?, hW.describes.locals d hd l hl, Option.bind_some, htype, hx]

/-- The world knows what the checks of the unit rely on. -/
theorem offers : b.Offers (W.IsLocal b) (W.IsExpected b) where
  parameters d hd p hp :=
    hW.isLocal_local hd (List.mem_append_left _ (List.mem_map_of_mem hp))
      (Block.parameter_mem_writtenTypes hd p hp) rfl
  results d hd := hW.isExpected_result hd
  locals d hd v hv := by
    have ht := Block.mem_writtenTypes_of_node (Block.preorder_subset_of_mem_allFunctions hd
      (d.type_mem_preorder _ hv v.type rfl))
    exact ⟨hW.isLocal_local hd hv ht rfl, hW.isExpected_ty ht⟩
  members d hd v hv := by
    have ht := Block.mem_writtenTypes_of_node (Block.preorder_subset_of_mem hd
      (Declaration.preorder_subset_of_mem hv v.type_mem_preorder))
    obtain ⟨hsketch, x, hx, h⟩ := hW.denotes_member hd hv
    exact ⟨⟨x, by rw [VariableDecl.local, ← hx, ← Option.bind_some (f := Sketch.type), ← hsketch]; rfl, h⟩,
      hW.isExpected_ty ht⟩

variable {x y : Entity} {τ σ : Ty}

theorem confirms_compareInitializer (hx : W.Denotes b x τ) (hy : W.Denotes b y σ) (e : Expr) :
    W.Confirms b (W.compareInitializer (some x) e (some y))
      (σ = τ ∨ τ.IsPointer ∧ σ = .pointer (.builtin .null)) := by
  have hc : (y ≠ x ∧ (!(W.isPointer x && W.isNullPointer y)) = true) ↔
      ¬(σ = τ ∨ τ.IsPointer ∧ σ = .pointer (.builtin .null)) := by
    rw [not_or, Bool.not_eq_true', ← Bool.not_eq_true, Bool.and_eq_true, hW.isPointer_iff hx,
      hW.isNullPointer_iff hy, ne_eq, hW.eq_iff hy hx]
  rw [compareInitializer]
  by_cases h : σ = τ ∨ τ.IsPointer ∧ σ = .pointer (.builtin .null)
  · rw [if_neg (mt hc.1 (not_not.2 h))]
    exact ⟨fun _ => rfl, fun _ _ => h⟩
  · rw [if_pos (hc.2 h)]
    exact ⟨fun h' => absurd h' h, fun _ herrors => by simp [mismatch, Found.report] at herrors⟩

theorem confirms_compareCondition (hx : W.Denotes b x τ) (e : Expr) :
    W.Confirms b (W.compareCondition e (some x)) τ.IsCondition := by
  have hc := hW.isBooleanOrPointer_iff hx
  rw [compareCondition]
  by_cases h : τ.IsCondition
  · rw [if_pos (hc.2 h)]
    exact ⟨fun _ => rfl, fun _ _ => h⟩
  · rw [if_neg (mt hc.1 h)]
    exact ⟨fun h' => absurd h' h, fun _ herrors => by simp [Found.report] at herrors⟩

theorem confirms_compareReturn (hx : W.Denotes b x τ) (hy : W.Denotes b y σ) (place : Place)
    (e : Expr) : W.Confirms b (W.compareReturn place (some x) (some e) (some y)) (σ = τ) := by
  rw [compareReturn]
  by_cases h : σ = τ
  · rw [if_neg (not_not.2 ((hW.eq_iff hy hx).2 h))]
    exact ⟨fun _ => rfl, fun _ _ => h⟩
  · rw [if_pos (mt (hW.eq_iff hy hx).1 h)]
    exact ⟨fun h' => absurd h' h, fun _ herrors => by simp [mismatch, Found.report] at herrors⟩

theorem confirms_compareReturn_none (hx : W.Denotes b x τ) (place : Place)
    (found : Option Entity) :
    W.Confirms b (W.compareReturn place (some x) none found) (τ = .builtin .void) := by
  have hc := hW.isBuiltin_iff hx .void
  rw [BuiltinType.name] at hc
  rw [compareReturn]
  by_cases h : τ = .builtin .void
  · rw [if_pos (hc.2 h)]
    exact ⟨fun _ => rfl, fun _ _ => h⟩
  · rw [if_neg (mt hc.1 h)]
    exact ⟨fun h' => absurd h' h, fun _ herrors => by simp [mismatch, Found.report] at herrors⟩

/-- A check holds exactly if nothing is found wrong in it. -/
theorem confirms_check (hb : b.Regular) {k : Check}
    (hk : k.Relies (W.IsLocal b) (W.IsExpected b) b.tree.preorder) :
    W.Confirms b (W.check k) (k.Holds b) := by
  obtain ⟨hlocals, hnodes, hexpected⟩ := hk
  cases k with
  | expr Γ e =>
    have he := hW.decides_typeExpr hb (hlocals _ (List.mem_singleton_self _)) e
      (hnodes _ (List.mem_singleton_self _))
    have hconfirms : W.Confirms b (W.check (.expr Γ e)) (∃ τ, HasType b Γ e τ ∧ True) :=
      he.confirms fun _ => ⟨fun _ => rfl, fun _ _ => trivial⟩
    exact hconfirms.congr (by simp [Check.Holds])
  | condition Γ e =>
    have he := hW.decides_typeExpr hb (hlocals _ (List.mem_singleton_self _)) e
      (hnodes _ (List.mem_singleton_self _))
    exact he.confirms fun hx => hW.confirms_compareCondition hx e
  | initializer Γ τ e =>
    have he := hW.decides_typeExpr hb (hlocals _ (List.mem_singleton_self _)) e
      (hnodes _ (List.mem_singleton_self _))
    obtain ⟨x, hx, h⟩ := hexpected τ rfl
    rw [check, hx]
    exact he.confirms fun hy => hW.confirms_compareInitializer h hy e
  | returns place Γ τ value =>
    obtain ⟨x, hx, h⟩ := hexpected τ rfl
    rw [check, hx]
    cases value with
    | none => exact hW.confirms_compareReturn_none h place none
    | some e =>
      have he := hW.decides_typeExpr hb (hlocals _ (List.mem_singleton_self _)) e
        (hnodes _ (List.mem_singleton_self _))
      exact (he.confirms fun hy => hW.confirms_compareReturn h hy place e).congr
        (by simp [Check.Holds])
  | loopControl place inLoop => exact confirms_ite _
  | goto place labels label => exact confirms_ite _

/-- The type of any expression of the unit is decided by the rules. -/
theorem decides_of_mem_exprs (hb : b.Regular) {e : Locals × Expr} (he : e ∈ b.exprs) :
    W.Decides b (W.typeExpr e.1 e.2) (HasType b e.1 e.2) := by
  obtain ⟨k, hk, he⟩ := List.mem_flatMap.1 he
  obtain ⟨root, hroot, he⟩ := List.mem_flatMap.1 he
  obtain ⟨part, hpart, rfl⟩ := List.mem_map.1 he
  obtain ⟨hlocals, hnodes, -⟩ := Block.relies_checks hW.offers k hk
  refine hW.decides_typeExpr hb (hlocals root hroot) part fun n hn => hnodes root hroot n ?_
  exact root.2.preorder_subset_of_mem_parts part hpart hn

end Knows

end World

end Sable
