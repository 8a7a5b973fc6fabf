import Sable.Proofs.Typing.Nodes

/-!
# Rules by their conclusions

An expression has a type exactly if its parts have types that its rule accepts. So whatever is part
of an expression with a type has a type too.

## Main definitions

* `AccessKind.Reaches`: the class of the members that are accessed.

## Main statements

* `hasType_unary` and so on: the rules of expressions.
* `BinaryOp.gives_add` and so on: the rules of operators.
* `HasType.exists_of_mem_parts`: the parts of an expression.
-/
namespace Sable

/-! ## Operators -/

namespace UnaryOp

variable {op : UnaryOp} {τ σ : Ty}

theorem gives_deref : Gives .deref τ σ ↔ τ = .pointer σ :=
  ⟨fun | .deref => rfl, fun h => h ▸ .deref⟩

theorem gives_sign (hop : op = .plus ∨ op = .negate) : op.Gives τ σ ↔ τ.IsNumeric ∧ σ = τ := by
  rcases hop with rfl | rfl
  · exact ⟨fun | .plus h => ⟨h, rfl⟩, fun ⟨h, rfl⟩ => .plus h⟩
  · exact ⟨fun | .negate h => ⟨h, rfl⟩, fun ⟨h, rfl⟩ => .negate h⟩

theorem gives_step (hop : op = .increment ∨ op = .decrement) :
    op.Gives τ σ ↔ (τ.IsNumeric ∨ τ.IsPointer) ∧ σ = τ := by
  rcases hop with rfl | rfl
  · exact ⟨fun | .increment h => ⟨h, rfl⟩, fun ⟨h, rfl⟩ => .increment h⟩
  · exact ⟨fun | .decrement h => ⟨h, rfl⟩, fun ⟨h, rfl⟩ => .decrement h⟩

theorem gives_not : Gives .not τ σ ↔ τ.IsCondition ∧ σ = .boolean :=
  ⟨fun | .not h => ⟨h, rfl⟩, fun ⟨h, hσ⟩ => hσ ▸ .not h⟩

theorem gives_addressOf : Gives .addressOf τ σ ↔ σ = .pointer τ :=
  ⟨fun | .addressOf => rfl, fun h => h ▸ .addressOf⟩

end UnaryOp

namespace BinaryOp

variable {op : BinaryOp} {τ σ ρ : Ty}

theorem apart_of_isComparison (hop : op.isComparison = true) :
    op.isArithmetic = false ∧ op.compound? = none := by
  revert hop
  cases op <;> decide

theorem apart_of_isLogical (hop : op.isLogical = true) :
    op.isArithmetic = false ∧ op.isComparison = false ∧ op.compound? = none := by
  revert hop
  cases op <;> decide

theorem apart_of_compound? (hop : op.compound? ≠ none) :
    op.isArithmetic = false ∧ op.isComparison = false ∧ op.isLogical = false := by
  revert hop
  cases op <;> decide

theorem gives_scaling (hop : op = .mul ∨ op = .div ∨ op = .mod) :
    op.Gives τ σ ρ ↔ (τ = σ ∧ τ.IsNumeric) ∧ ρ = τ := by
  constructor
  · intro h
    cases h with
    | numeric _ h => exact ⟨⟨rfl, h⟩, rfl⟩
    | comparison hop' | logical hop' _ _ =>
      rcases hop with rfl | rfl | rfl <;> exact absurd hop' (by decide)
    | compound hop' _ => rcases hop with rfl | rfl | rfl <;> exact nomatch (hop' : none = some _)
    | addPointer | addInteger | subPointer | distance | assign _ => exact absurd hop (by decide)
  · rintro ⟨⟨rfl, h⟩, rfl⟩
    exact .numeric (by rcases hop with rfl | rfl | rfl <;> rfl) h

theorem gives_add : Gives .add τ σ ρ ↔ (τ = σ ∧ τ.IsNumeric ∨ τ.IsPointer ∧ σ = .integer) ∧ ρ = τ ∨
    (τ = .integer ∧ σ.IsPointer) ∧ ρ = σ := by
  constructor
  · intro h
    cases h with
    | numeric _ h => exact .inl ⟨.inl ⟨rfl, h⟩, rfl⟩
    | addPointer => exact .inl ⟨.inr ⟨trivial, rfl⟩, rfl⟩
    | addInteger => exact .inr ⟨⟨rfl, trivial⟩, rfl⟩
    | comparison hop' | logical hop' _ _ => exact absurd hop' (by decide)
    | compound hop' _ => exact nomatch (hop' : none = some _)
  · rintro (⟨⟨rfl, h⟩ | ⟨h, rfl⟩, rfl⟩ | ⟨⟨rfl, h⟩, rfl⟩)
    · exact .numeric rfl h
    · cases ρ with
      | pointer => exact .addPointer
      | builtin | classType | function => exact h.elim
    · cases ρ with
      | pointer => exact .addInteger
      | builtin | classType | function => exact h.elim

theorem gives_sub : Gives .sub τ σ ρ ↔ (τ = σ ∧ τ.IsNumeric ∨ τ.IsPointer ∧ σ = .integer) ∧ ρ = τ ∨
    (τ.IsPointer ∧ σ.IsPointer) ∧ ρ = .integer := by
  constructor
  · intro h
    cases h with
    | numeric _ h => exact .inl ⟨.inl ⟨rfl, h⟩, rfl⟩
    | subPointer => exact .inl ⟨.inr ⟨trivial, rfl⟩, rfl⟩
    | distance => exact .inr ⟨⟨trivial, trivial⟩, rfl⟩
    | comparison hop' | logical hop' _ _ => exact absurd hop' (by decide)
    | compound hop' _ => exact nomatch (hop' : none = some _)
  · rintro (⟨⟨rfl, h⟩ | ⟨h, rfl⟩, rfl⟩ | ⟨⟨hτ, hσ⟩, rfl⟩)
    · exact .numeric rfl h
    · cases ρ with
      | pointer => exact .subPointer
      | builtin | classType | function => exact h.elim
    · cases τ with
      | pointer =>
        cases σ with
        | pointer => exact .distance
        | builtin | classType | function => exact hσ.elim
      | builtin | classType | function => exact hτ.elim

theorem gives_comparison (hop : op.isComparison = true) : op.Gives τ σ ρ ↔ ρ = .boolean := by
  refine ⟨fun h => ?_, fun h => h ▸ .comparison hop⟩
  cases h with
  | comparison _ | logical _ _ _ => rfl
  | numeric hop' _ | compound hop' _ => simp [apart_of_isComparison hop] at hop'
  | addPointer | addInteger | subPointer | distance | assign _ => exact absurd hop (by decide)

theorem gives_logical (hop : op.isLogical = true) :
    op.Gives τ σ ρ ↔ (τ.IsCondition ∧ σ.IsCondition) ∧ ρ = .boolean := by
  refine ⟨fun h => ?_, fun ⟨⟨hτ, hσ⟩, hρ⟩ => hρ ▸ .logical hop hτ hσ⟩
  cases h with
  | logical _ hτ hσ => exact ⟨⟨hτ, hσ⟩, rfl⟩
  | numeric hop' _ | comparison hop' | compound hop' _ => simp [apart_of_isLogical hop] at hop'
  | addPointer | addInteger | subPointer | distance | assign _ => exact absurd hop (by decide)

theorem gives_assign : Gives .assign τ σ ρ ↔ (τ = σ ∧ ¬σ.IsFunction) ∧ ρ = τ := by
  constructor
  · intro h
    cases h with
    | assign h => exact ⟨⟨rfl, h⟩, rfl⟩
    | numeric hop' _ | comparison hop' | logical hop' _ _ => exact absurd hop' (by decide)
    | compound hop' _ => exact nomatch (hop' : none = some _)
  · rintro ⟨⟨rfl, h⟩, rfl⟩
    exact .assign h

/-- A compound assignment is for operands that its operator gives the type of the first one. -/
theorem gives_compound {arithmetic : BinaryOp} (hop : op.compound? = some arithmetic) :
    op.Gives τ σ ρ ↔ arithmetic.Gives τ σ τ ∧ ρ = τ := by
  constructor
  · intro h
    cases h with
    | compound hop' h =>
      obtain rfl := Option.some.inj (hop.symm.trans hop')
      exact ⟨h, rfl⟩
    | numeric hop' _ | comparison hop' | logical hop' _ _ =>
      simp [apart_of_compound? (hop ▸ Option.some_ne_none arithmetic)] at hop'
    | addPointer | addInteger | subPointer | distance | assign _ =>
      exact nomatch (hop : none = some _)
  · rintro ⟨h, rfl⟩
    exact .compound hop h

end BinaryOp

/-! ## Expressions -/

section Inversion

variable {b : Block} {Γ : Locals} {place : Place} {σ : Ty}

theorem hasType_identifier {name : Ident} :
    HasType b Γ (.value place (.identifier name)) σ ↔ Resolves b Γ name.name σ :=
  ⟨fun | .identifier h => h, .identifier⟩

theorem hasType_unary {op : UnaryOp} {e : Expr} :
    HasType b Γ (.unary place op e) σ ↔ ∃ τ, HasType b Γ e τ ∧ op.Gives τ σ :=
  ⟨fun | .unary h hop => ⟨_, h, hop⟩, fun ⟨_, h, hop⟩ => .unary h hop⟩

theorem hasType_binary {op : BinaryOp} {left right : Expr} :
    HasType b Γ (.binary place op left right) σ ↔
      ∃ τ, HasType b Γ left τ ∧ ∃ ρ, HasType b Γ right ρ ∧ op.Gives τ ρ σ :=
  ⟨fun | .binary hleft hright hop => ⟨_, hleft, _, hright, hop⟩,
    fun ⟨_, hleft, _, hright, hop⟩ => .binary hleft hright hop⟩

/-- The class of the members that are accessed. -/
def AccessKind.Reaches : AccessKind → Ty → String → Prop
  | .dot, τ, owner => τ = .classType owner
  | .arrow, τ, owner => τ = .pointer (.classType owner)

theorem hasType_access {kind : AccessKind} {object : Expr} {member : Ident} :
    HasType b Γ (.access place kind object member) σ ↔
      ∃ τ, HasType b Γ object τ ∧ ∃ owner, kind.Reaches τ owner ∧ b.HasMember owner member.name σ := by
  cases kind with
  | dot => exact ⟨fun | .dot h hm => ⟨_, h, _, rfl, hm⟩, fun ⟨_, h, _, rfl, hm⟩ => .dot h hm⟩
  | arrow => exact ⟨fun | .arrow h hm => ⟨_, h, _, rfl, hm⟩, fun ⟨_, h, _, rfl, hm⟩ => .arrow h hm⟩

theorem hasType_call {callee : Expr} {arguments : List Expr} :
    HasType b Γ (.call place callee arguments) σ ↔
      ∃ τ, HasType b Γ callee τ ∧ ∃ τs, HaveTypes b Γ arguments τs ∧ τ = .function τs σ :=
  ⟨fun | .call h hs => ⟨_, h, _, hs, rfl⟩, fun ⟨_, h, _, hs, hτ⟩ => .call (hτ ▸ h) hs⟩

theorem hasType_cast {operand : Expr} {target : WrittenType} :
    HasType b Γ (.cast place operand target) σ ↔
      ∃ τ, HasType b Γ operand τ ∧ τ.CastsTo target.ty ∧ σ = target.ty :=
  ⟨fun | .cast h hcast => ⟨_, h, hcast, rfl⟩, fun ⟨_, h, hcast, hσ⟩ => hσ ▸ .cast h hcast⟩

theorem hasType_index {target subscript : Expr} :
    HasType b Γ (.index place target subscript) σ ↔
      ∃ τ, HasType b Γ target τ ∧ ∃ ρ, HasType b Γ subscript ρ ∧
        τ = .pointer σ ∧ ρ = .builtin .integer :=
  ⟨fun | .index h hi => ⟨_, h, _, hi, rfl, rfl⟩,
    fun ⟨_, h, _, hi, hτ, hρ⟩ => .index (hτ ▸ h) (hρ ▸ hi)⟩

theorem haveTypes_nil {τs : List Ty} : HaveTypes b Γ [] τs ↔ τs = [] :=
  ⟨fun | .nil => rfl, fun h => h ▸ .nil⟩

theorem haveTypes_cons {e : Expr} {es : List Expr} {τs : List Ty} :
    HaveTypes b Γ (e :: es) τs ↔ ∃ σ, HasType b Γ e σ ∧ ∃ σs, HaveTypes b Γ es σs ∧ τs = σ :: σs :=
  ⟨fun | .cons h hs => ⟨_, h, _, hs, rfl⟩, fun ⟨_, h, _, hs, hτs⟩ => hτs ▸ .cons h hs⟩

end Inversion

/-! ## Parts -/

mutual

/-- The nodes of a part are nodes of the whole. -/
theorem Expr.preorder_subset_of_mem_parts : (e : Expr) → ∀ part ∈ e.parts,
    part.tree.preorder ⊆ e.tree.preorder
  | .value place v => by
    rw [Expr.parts, List.forall_mem_singleton]
    exact List.Subset.refl _
  | .unary place op operand => by
    rw [Expr.parts, List.forall_mem_cons]
    refine ⟨List.Subset.refl _, fun part hpart n hn => ?_⟩
    have hoperand := operand.preorder_subset_of_mem_parts part hpart hn
    simp [Expr.tree, Tree.preorder, Tree.preorders, hoperand]
  | .binary place op left right => by
    rw [Expr.parts, List.forall_mem_cons, List.forall_mem_append]
    refine ⟨List.Subset.refl _, fun part hpart n hn => ?_, fun part hpart n hn => ?_⟩
    · have hleft := left.preorder_subset_of_mem_parts part hpart hn
      simp [Expr.tree, Tree.preorder, Tree.preorders, hleft]
    · have hright := right.preorder_subset_of_mem_parts part hpart hn
      simp [Expr.tree, Tree.preorder, Tree.preorders, hright]
  | .access place kind object member => by
    rw [Expr.parts, List.forall_mem_cons]
    refine ⟨List.Subset.refl _, fun part hpart n hn => ?_⟩
    have hobject := object.preorder_subset_of_mem_parts part hpart hn
    simp [Expr.tree, Tree.preorder, Tree.preorders, hobject]
  | .call place callee arguments => by
    rw [Expr.parts, List.forall_mem_cons, List.forall_mem_append]
    refine ⟨List.Subset.refl _, fun part hpart n hn => ?_, fun part hpart n hn => ?_⟩
    · have hcallee := callee.preorder_subset_of_mem_parts part hpart hn
      simp [Expr.tree, Tree.preorder, Tree.preorders, hcallee]
    · have harguments := Expr.preorder_subset_of_mem_listParts arguments part hpart hn
      simp [Expr.tree, Tree.preorder, Tree.preorders, harguments]
  | .cast place operand target => by
    rw [Expr.parts, List.forall_mem_cons]
    refine ⟨List.Subset.refl _, fun part hpart n hn => ?_⟩
    have hoperand := operand.preorder_subset_of_mem_parts part hpart hn
    simp [Expr.tree, Tree.preorder, Tree.preorders, hoperand]
  | .index place target subscript => by
    rw [Expr.parts, List.forall_mem_cons, List.forall_mem_append]
    refine ⟨List.Subset.refl _, fun part hpart n hn => ?_, fun part hpart n hn => ?_⟩
    · have htarget := target.preorder_subset_of_mem_parts part hpart hn
      simp [Expr.tree, Tree.preorder, Tree.preorders, htarget]
    · have hsubscript := subscript.preorder_subset_of_mem_parts part hpart hn
      simp [Expr.tree, Tree.preorder, Tree.preorders, hsubscript]

theorem Expr.preorder_subset_of_mem_listParts : (es : List Expr) → ∀ part ∈ Expr.listParts es,
    part.tree.preorder ⊆ Tree.preorders (Expr.trees es)
  | [] => by simp [Expr.listParts]
  | e :: es => by
    rw [Expr.listParts, List.forall_mem_append, Expr.trees, Tree.preorders]
    refine ⟨fun part hpart n hn => ?_, fun part hpart n hn => ?_⟩
    · exact List.mem_append_left _ (e.preorder_subset_of_mem_parts part hpart hn)
    · exact List.mem_append_right _ (Expr.preorder_subset_of_mem_listParts es part hpart hn)

end

mutual

/-- Whatever an expression is made of has a type. -/
theorem HasType.exists_of_mem_parts {b : Block} {Γ : Locals} : (e : Expr) → {τ : Ty} →
    HasType b Γ e τ → ∀ part ∈ e.parts, ∃ σ, HasType b Γ part σ
  | .value place v, _, h => by
    rw [Expr.parts, List.forall_mem_singleton]
    exact ⟨_, h⟩
  | .unary place op operand, _, h => by
    obtain ⟨_, hoperand, _⟩ := hasType_unary.1 h
    rw [Expr.parts, List.forall_mem_cons]
    exact ⟨⟨_, h⟩, HasType.exists_of_mem_parts operand hoperand⟩
  | .binary place op left right, _, h => by
    obtain ⟨_, hleft, _, hright, _⟩ := hasType_binary.1 h
    rw [Expr.parts, List.forall_mem_cons, List.forall_mem_append]
    exact ⟨⟨_, h⟩, HasType.exists_of_mem_parts left hleft, HasType.exists_of_mem_parts right hright⟩
  | .access place kind object member, _, h => by
    obtain ⟨_, hobject, _⟩ := hasType_access.1 h
    rw [Expr.parts, List.forall_mem_cons]
    exact ⟨⟨_, h⟩, HasType.exists_of_mem_parts object hobject⟩
  | .call place callee arguments, _, h => by
    obtain ⟨_, hcallee, _, harguments, _⟩ := hasType_call.1 h
    rw [Expr.parts, List.forall_mem_cons, List.forall_mem_append]
    exact ⟨⟨_, h⟩, HasType.exists_of_mem_parts callee hcallee,
      HaveTypes.exists_of_mem_listParts arguments harguments⟩
  | .cast place operand target, _, h => by
    obtain ⟨_, hoperand, _⟩ := hasType_cast.1 h
    rw [Expr.parts, List.forall_mem_cons]
    exact ⟨⟨_, h⟩, HasType.exists_of_mem_parts operand hoperand⟩
  | .index place target subscript, _, h => by
    obtain ⟨_, htarget, _, hsubscript, _⟩ := hasType_index.1 h
    rw [Expr.parts, List.forall_mem_cons, List.forall_mem_append]
    exact ⟨⟨_, h⟩, HasType.exists_of_mem_parts target htarget,
      HasType.exists_of_mem_parts subscript hsubscript⟩

theorem HaveTypes.exists_of_mem_listParts {b : Block} {Γ : Locals} : (es : List Expr) →
    {τs : List Ty} → HaveTypes b Γ es τs → ∀ part ∈ Expr.listParts es, ∃ σ, HasType b Γ part σ
  | [], _, _ => by simp [Expr.listParts]
  | e :: es, _, h => by
    obtain ⟨_, he, _, hes, _⟩ := haveTypes_cons.1 h
    rw [Expr.listParts, List.forall_mem_append]
    exact ⟨HasType.exists_of_mem_parts e he, HaveTypes.exists_of_mem_listParts es hes⟩

end

/-- A check that holds is about expressions that have types. -/
theorem Check.Holds.exists_hasType {b : Block} {k : Check} (h : k.Holds b) :
    ∀ e ∈ k.exprs, ∃ τ, HasType b e.1 e.2 τ := by
  cases k with
  | expr Γ e => exact List.forall_mem_singleton.2 h
  | condition Γ e => exact List.forall_mem_singleton.2 (h.imp fun _ h => h.1)
  | initializer Γ τ e => exact List.forall_mem_singleton.2 (h.imp fun _ h => h.1)
  | returns place Γ τ value =>
    cases value with
    | none => exact fun _ he => absurd he List.not_mem_nil
    | some e => exact List.forall_mem_singleton.2 ⟨τ, h⟩
  | loopControl | goto => exact fun _ he => absurd he List.not_mem_nil

/-- Where all checks hold, all expressions have types. -/
theorem Block.exists_hasType {b : Block} (h : ∀ k ∈ b.checks, k.Holds b) :
    ∀ e ∈ b.exprs, ∃ τ, HasType b e.1 e.2 τ := by
  intro e he
  obtain ⟨k, hk, he⟩ := List.mem_flatMap.1 he
  obtain ⟨root, hroot, he⟩ := List.mem_flatMap.1 he
  obtain ⟨part, hpart, rfl⟩ := List.mem_map.1 he
  obtain ⟨τ, hτ⟩ := (h k hk).exists_hasType root hroot
  exact hτ.exists_of_mem_parts _ part hpart

end Sable
