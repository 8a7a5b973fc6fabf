import Sable.Proofs.Analysis.Knowing
import Sable.Proofs.Analysis.Reliance
import Sable.Proofs.Analysis.Surrounding
import Sable.Proofs.Typing.Inversion

/-!
# Rules in a world

What a world finds in an expression is decided by the rules: nothing is reported exactly if the
expression has a type, and then the answer is the entity of that type.

## Main definitions

* `World.IsWithin`: the world knows no names but those of a unit.
* `World.Decides`: the answer is the entity of a type, and there is one exactly if nothing is
  reported.

## Main statements

* `World.Knows.decides_typeExpr`: expressions.
-/
namespace Sable

/-! ## Names -/

section Names

variable {b : Block} {Γ : Locals} {σ : Ty}

theorem Block.declares_iff {name : String} :
    b.Declares name σ ↔ ∃ m ∈ b.values, m.name.name = name ∧ m.ty = σ := by
  constructor
  · rintro (@⟨d, h⟩ | @⟨d, h⟩)
    · exact ⟨_, List.mem_flatMap.2 ⟨_, h, List.mem_singleton_self _⟩, rfl, rfl⟩
    · exact ⟨_, List.mem_flatMap.2 ⟨_, h, List.mem_singleton_self _⟩, rfl, rfl⟩
  · rintro ⟨m, hm, rfl, rfl⟩
    obtain ⟨d, hd, hm⟩ := List.mem_flatMap.1 hm
    match d with
    | .classDecl d => exact absurd hm List.not_mem_nil
    | .function d =>
      obtain rfl := List.mem_singleton.1 hm
      exact .function hd
    | .variable d =>
      obtain rfl := List.mem_singleton.1 hm
      exact .variable hd

theorem resolves_of_lookup? {name : String} {l : Local} (h : Γ.lookup? name = some l) :
    Resolves b Γ name σ ↔ σ = l.ty := by
  constructor
  · intro hσ
    cases hσ with
    | locally h' => rw [Option.some.inj (h'.symm.trans h)]
    | globally hnone _ => simp [h] at hnone
  · rintro rfl
    exact .locally h

theorem resolves_of_lookup?_eq_none {name : String} (h : Γ.lookup? name = none) :
    Resolves b Γ name σ ↔ ∃ m ∈ b.values, m.name.name = name ∧ m.ty = σ := by
  rw [← Block.declares_iff]
  constructor
  · intro hσ
    cases hσ with
    | locally h' => simp [h] at h'
    | globally _ hσ => exact hσ
  · exact .globally h

end Names

namespace World

variable {W : World} {b : Block}

/-! ## Predicates -/

theorem castIsValid_eq_true (x y : Entity) : W.castIsValid x y = true ↔
    ¬W.isFunction x = true ∧ ¬W.isFunction y = true ∧
      (W.isPointer x = true → W.isHeld y = true →
        W.isBuiltin y Library.booleanName = true ∨ W.isInteger y = true) ∧
      (W.isHeld x = true → W.isPointer y = true → W.isInteger x = true) := by
  rw [castIsValid]
  generalize W.isFunction x = a, W.isFunction y = b, W.isPointer x = c, W.isHeld y = d,
    W.isBuiltin y Library.booleanName = e, W.isInteger y = f, W.isHeld x = g, W.isPointer y = h,
    W.isInteger x = i
  cases a <;> cases b <;> simp [Bool.and_assoc]
  grind

namespace Knows

variable (hW : W.Knows b) {x y : Entity} {τ σ : Ty}

include hW

theorem isPointer_iff (h : W.Denotes b x τ) : W.isPointer x = true ↔ τ.IsPointer := by
  obtain ⟨shape, hshape, hshows⟩ := hW.shape? h
  rw [isPointer, hshape]
  cases hshows <;> simp [Ty.IsPointer]

theorem isFunction_iff (h : W.Denotes b x τ) : W.isFunction x = true ↔ τ.IsFunction := by
  obtain ⟨shape, hshape, hshows⟩ := hW.shape? h
  rw [isFunction, hshape]
  cases hshows <;> simp [Ty.IsFunction]

theorem isHeld_iff (h : W.Denotes b x τ) : W.isHeld x = true ↔ τ.IsValue := by
  obtain ⟨shape, hshape, hshows⟩ := hW.shape? h
  rw [isHeld, hshape]
  cases hshows <;> simp [Ty.IsValue]

theorem isBuiltin_iff (h : W.Denotes b x τ) (t : BuiltinType) :
    W.isBuiltin x t.name = true ↔ τ = .builtin t := by
  rw [isBuiltin, beq_iff_eq]
  constructor
  · exact fun hx => h.unique hW _ (.builtin hx)
  · rintro rfl
    cases h with
    | builtin h => exact h

theorem isInteger_iff (h : W.Denotes b x τ) : W.isInteger x = true ↔ τ = .integer :=
  hW.isBuiltin_iff h .integer

theorem isNumeric_iff (h : W.Denotes b x τ) : W.isNumeric x = true ↔ τ.IsNumeric := by
  have hbyte := hW.isBuiltin_iff h .byte
  have hinteger := hW.isBuiltin_iff h .integer
  have hfloat := hW.isBuiltin_iff h .float
  simp only [BuiltinType.name] at hbyte hinteger hfloat
  rw [isNumeric, List.any_cons, List.any_cons, List.any_cons, List.any_nil, Bool.or_false,
    Bool.or_eq_true, Bool.or_eq_true, hbyte, hinteger, hfloat]
  cases τ <;> simp [Ty.IsNumeric]

theorem isBooleanOrPointer_iff (h : W.Denotes b x τ) :
    W.isBooleanOrPointer x = true ↔ τ.IsCondition := by
  have hboolean := hW.isBuiltin_iff h .boolean
  rw [BuiltinType.name] at hboolean
  rw [isBooleanOrPointer, Bool.or_eq_true, hboolean, hW.isPointer_iff h]
  cases τ <;> simp [Ty.IsCondition, Ty.IsPointer]

theorem sameNumeric_iff (h : W.Denotes b x τ) (h' : W.Denotes b y σ) :
    W.sameNumeric x y = true ↔ τ = σ ∧ τ.IsNumeric := by
  rw [sameNumeric, Bool.and_eq_true, beq_iff_eq, hW.eq_iff h h', hW.isNumeric_iff h]

/-- What a pointer points to, if it is one. -/
theorem pointee?_cases (h : W.Denotes b x τ) :
    (∃ y σ, W.pointee? x = some y ∧ W.Denotes b y σ ∧ τ = .pointer σ) ∨
      (W.pointee? x = none ∧ ¬τ.IsPointer) := by
  obtain ⟨shape, hshape, hshows⟩ := hW.shape? h
  rw [pointee?, hshape]
  cases hshows with
  | pointer h' => exact .inl ⟨_, _, rfl, h', rfl⟩
  | builtin | classType | function => exact .inr ⟨rfl, id⟩

theorem isNullPointer_iff (h : W.Denotes b x τ) :
    W.isNullPointer x = true ↔ τ = .pointer (.builtin .null) := by
  rw [isNullPointer]
  rcases hW.pointee?_cases h with ⟨y, σ, hy, hσ, rfl⟩ | ⟨hnone, hτ⟩
  · have hnull := hW.isBuiltin_iff hσ .null
    rw [BuiltinType.name] at hnull
    rw [hy, Option.any_some, hnull, Ty.pointer.injEq]
  · rw [hnone, Option.any_none]
    refine iff_of_false Bool.false_ne_true ?_
    rintro rfl
    exact hτ trivial

theorem castIsValid_iff (h : W.Denotes b x τ) (h' : W.Denotes b y σ) :
    W.castIsValid x y = true ↔ τ.CastsTo σ := by
  have hboolean := hW.isBuiltin_iff h' .boolean
  rw [BuiltinType.name] at hboolean
  rw [castIsValid_eq_true, hW.isFunction_iff h, hW.isFunction_iff h', hW.isPointer_iff h,
    hW.isHeld_iff h', hboolean, hW.isInteger_iff h', hW.isHeld_iff h, hW.isPointer_iff h',
    hW.isInteger_iff h]
  exact ⟨fun h => ⟨h.1, h.2.1, h.2.2.1, h.2.2.2⟩, fun h => ⟨h.1, h.2, h.3, h.4⟩⟩

end Knows

/-! ## Answers -/

/-- The node of a local declares something of its type. -/
def IsLocal (W : World) (b : Block) (l : Local) : Prop :=
  ∃ x, (W.sketch? (.declared l.node)).bind Sketch.type = some x ∧ W.Denotes b x l.ty

/-- All names that an expression can use are built in or declared by the unit. -/
def IsWithin (W : World) (b : Block) : Prop :=
  ∀ {name x}, IsPlainName name → W.global? name = some x →
    (∃ t : BuiltinType, name = t.name) ∨ (∃ d ∈ b.classes, name = d.name.name) ∨
      ∃ m ∈ b.values, name = m.name.name

/-- The answer is the entity of a type, if there is one; and unless something is reported, there
is one. The world may know more names than the unit has, but then only the former holds. -/
structure Decides (W : World) (b : Block) (m : Found (Option Entity)) (P : Ty → Prop) : Prop where
  finds : ∀ {τ}, P τ → ∃ x, W.Denotes b x τ ∧ m = pure (some x)
  sound : W.IsWithin b → m.errors = [] → ∃ x τ, m.answer = some x ∧ W.Denotes b x τ ∧ P τ

/-- The same for several answers. -/
structure DecidesAll (W : World) (b : Block) (m : Found (List (Option Entity)))
    (P : List Ty → Prop) : Prop where
  finds : ∀ {τs}, P τs → ∃ xs, W.DenoteAll b xs τs ∧ m = pure (xs.map some)
  sound : W.IsWithin b → m.errors = [] →
    ∃ xs τs, m.answer = xs.map some ∧ W.DenoteAll b xs τs ∧ P τs

/-- Unless something is reported the proposition holds, and conversely. -/
structure Confirms (W : World) (b : Block) (m : Found Unit) (p : Prop) : Prop where
  errors_eq : p → m.errors = []
  sound : W.IsWithin b → m.errors = [] → p

section Decides

variable {m : Found (Option Entity)} {P P' : Ty → Prop} {Q : Ty → Ty → Prop}

theorem Decides.congr (h : W.Decides b m P) (hP : ∀ τ, P' τ ↔ P τ) : W.Decides b m P' where
  finds hτ := h.finds ((hP _).1 hτ)
  sound hwithin herrors := by
    obtain ⟨x, τ, hx, hdenotes, hτ⟩ := h.sound hwithin herrors
    exact ⟨x, τ, hx, hdenotes, (hP τ).2 hτ⟩

theorem DecidesAll.congr {m : Found (List (Option Entity))} {P P' : List Ty → Prop}
    (h : W.DecidesAll b m P) (hP : ∀ τs, P' τs ↔ P τs) : W.DecidesAll b m P' where
  finds hτs := h.finds ((hP _).1 hτs)
  sound hwithin herrors := by
    obtain ⟨xs, τs, hxs, hdenote, hτs⟩ := h.sound hwithin herrors
    exact ⟨xs, τs, hxs, hdenote, (hP τs).2 hτs⟩

theorem decides_pure {x : Entity} {τ : Ty} (h : W.Denotes b x τ) (hP : ∀ σ, P σ ↔ σ = τ) :
    W.Decides b (pure (some x)) P where
  finds hσ := ⟨x, (hP _).1 hσ ▸ h, rfl⟩
  sound _ _ := ⟨x, τ, rfl, h, (hP τ).2 rfl⟩

theorem decides_fail {e : SemanticError} (hP : ∀ σ, ¬P σ) : W.Decides b (.fail e) P where
  finds hσ := absurd hσ (hP _)
  sound _ herrors := by simp [Found.fail] at herrors

theorem Decides.bind {f : Option Entity → Found (Option Entity)} (hm : W.Decides b m P)
    (hf : ∀ {x τ}, W.Denotes b x τ → W.Decides b (f (some x)) (Q τ)) :
    W.Decides b (m >>= f) fun σ => ∃ τ, P τ ∧ Q τ σ where
  finds := by
    rintro σ ⟨τ, hτ, hσ⟩
    obtain ⟨x, hx, rfl⟩ := hm.finds hτ
    obtain ⟨y, hy, heq⟩ := (hf hx).finds hσ
    exact ⟨y, hy, heq⟩
  sound hwithin herrors := by
    rw [Found.errors_bind, List.append_eq_nil_iff] at herrors
    obtain ⟨x, τ, hanswer, hx, hτ⟩ := hm.sound hwithin herrors.1
    rw [hanswer] at herrors
    obtain ⟨y, σ, hy, hdenotes, hσ⟩ := (hf hx).sound hwithin herrors.2
    exact ⟨y, σ, by rw [Found.answer_bind, hanswer, hy], hdenotes, τ, hτ, hσ⟩

theorem DecidesAll.bind {m : Found (List (Option Entity))} {P : List Ty → Prop}
    {Q : List Ty → Ty → Prop} {f : List (Option Entity) → Found (Option Entity)}
    (hm : W.DecidesAll b m P)
    (hf : ∀ {xs τs}, W.DenoteAll b xs τs → W.Decides b (f (xs.map some)) (Q τs)) :
    W.Decides b (m >>= f) fun σ => ∃ τs, P τs ∧ Q τs σ where
  finds := by
    rintro σ ⟨τs, hτs, hσ⟩
    obtain ⟨xs, hxs, rfl⟩ := hm.finds hτs
    obtain ⟨y, hy, heq⟩ := (hf hxs).finds hσ
    exact ⟨y, hy, heq⟩
  sound hwithin herrors := by
    rw [Found.errors_bind, List.append_eq_nil_iff] at herrors
    obtain ⟨xs, τs, hanswer, hxs, hτs⟩ := hm.sound hwithin herrors.1
    rw [hanswer] at herrors
    obtain ⟨y, σ, hy, hdenotes, hσ⟩ := (hf hxs).sound hwithin herrors.2
    exact ⟨y, σ, by rw [Found.answer_bind, hanswer, hy], hdenotes, τs, hτs, hσ⟩

theorem Decides.cons {ms : Found (List (Option Entity))} {Ps : List Ty → Prop}
    (hm : W.Decides b m P) (hms : W.DecidesAll b ms Ps) :
    W.DecidesAll b (do
      let type ← m
      let types ← ms
      return type :: types) fun σs => ∃ τ, P τ ∧ ∃ τs, Ps τs ∧ σs = τ :: τs where
  finds := by
    rintro σs ⟨τ, hτ, τs, hτs, rfl⟩
    obtain ⟨x, hx, rfl⟩ := hm.finds hτ
    obtain ⟨xs, hxs, rfl⟩ := hms.finds hτs
    exact ⟨x :: xs, .cons hx hxs, rfl⟩
  sound hwithin herrors := by
    rw [Found.errors_bind, Found.errors_bind, Found.errors_pure, List.append_nil,
      List.append_eq_nil_iff] at herrors
    obtain ⟨x, τ, hx, hdenotes, hτ⟩ := hm.sound hwithin herrors.1
    obtain ⟨xs, τs, hxs, hdenote, hτs⟩ := hms.sound hwithin herrors.2
    refine ⟨x :: xs, τ :: τs, ?_, .cons hdenotes hdenote, τ, hτ, τs, hτs, rfl⟩
    rw [Found.answer_bind, Found.answer_bind, Found.answer_pure, hx, hxs, List.map_cons]

theorem Decides.confirms {f : Option Entity → Found Unit} {p : Ty → Prop} (hm : W.Decides b m P)
    (hf : ∀ {x τ}, W.Denotes b x τ → W.Confirms b (f (some x)) (p τ)) :
    W.Confirms b (m >>= f) (∃ τ, P τ ∧ p τ) where
  errors_eq := by
    rintro ⟨τ, hτ, hp⟩
    obtain ⟨x, hx, rfl⟩ := hm.finds hτ
    exact (hf hx).errors_eq hp
  sound hwithin herrors := by
    rw [Found.errors_bind, List.append_eq_nil_iff] at herrors
    obtain ⟨x, τ, hanswer, hx, hτ⟩ := hm.sound hwithin herrors.1
    rw [hanswer] at herrors
    exact ⟨τ, hτ, (hf hx).sound hwithin herrors.2⟩

/-- A rule whose answer does not depend on what it confirms. -/
theorem Confirms.before {m : Found Unit} {p : Prop} (hm : W.Confirms b m p) {x : Entity} {τ : Ty}
    (h : W.Denotes b x τ) {P : Ty → Prop} (hP : ∀ σ, P σ ↔ p ∧ σ = τ) :
    W.Decides b (m >>= fun _ => pure (some x)) P where
  finds hσ := by
    obtain ⟨hp, rfl⟩ := (hP _).1 hσ
    refine ⟨x, h, ?_⟩
    have herrors := hm.errors_eq hp
    obtain ⟨⟨⟩, errors⟩ := m
    obtain rfl : errors = [] := herrors
    rfl
  sound hwithin herrors := by
    rw [Found.errors_bind, Found.errors_pure, List.append_nil] at herrors
    exact ⟨x, τ, rfl, h, (hP τ).2 ⟨hm.sound hwithin herrors, rfl⟩⟩

theorem Confirms.congr {m : Found Unit} {p q : Prop} (h : W.Confirms b m p) (hq : q ↔ p) :
    W.Confirms b m q :=
  ⟨fun hp => h.errors_eq (hq.1 hp), fun hwithin herrors => hq.2 (h.sound hwithin herrors)⟩

theorem confirms_ite {p : Prop} [Decidable p] (e : SemanticError) :
    W.Confirms b (if p then pure () else .report e) p := by
  split
  · next h => exact ⟨fun _ => rfl, fun _ _ => h⟩
  · next h => exact ⟨fun h' => absurd h' h, fun _ herrors => by simp [Found.report] at herrors⟩

end Decides

/-! ## Operators -/

/-- An operator that takes these operands gives them the type. -/
def Applies (W : World) (b : Block) (P : Ty → Prop) : Option (Found (Option Entity)) → Prop
  | some m => W.Decides b m P
  | none => ∀ σ, ¬P σ

theorem applies_ite {c p : Prop} [Decidable c] {m m' : Option (Found (Option Entity))}
    {P : Ty → Prop} (hc : c ↔ p) (hm : p → W.Applies b P m) (hm' : ¬p → W.Applies b P m') :
    W.Applies b P (if c then m else m') := by
  split
  · next h => exact hm (hc.1 h)
  · next h => exact hm' (mt hc.2 h)

namespace Knows

variable (hW : W.Knows b) {x y : Entity} {τ σ : Ty}

include hW

theorem decides_builtin (t : BuiltinType) (span : Span) {P : Ty → Prop}
    (hP : ∀ σ, P σ ↔ σ = .builtin t) : W.Decides b (W.builtin t.name span) P := by
  obtain ⟨x, hx, h⟩ := hW.denotes_builtin t
  rw [World.builtin, hx]
  exact decides_pure h hP

theorem decides_pointerToBuiltin (t : BuiltinType) (span : Span) {P : Ty → Prop}
    (hP : ∀ σ, P σ ↔ σ = .pointer (.builtin t)) :
    W.Decides b (W.pointerToBuiltin t.name span) P := by
  obtain ⟨x, hx, h⟩ := hW.denotes_builtin t
  rw [World.pointerToBuiltin, World.builtin, hx]
  exact decides_pure h.pointer hP

theorem applies_unary? (h : W.Denotes b x τ) (op : UnaryOp) (span : Span) :
    W.Applies b (op.Gives τ) (W.unary? op x span) := by
  cases op with
  | deref =>
    rw [unary?]
    rcases hW.pointee?_cases h with ⟨y, σ, hy, hσ, rfl⟩ | ⟨hnone, hτ⟩
    · rw [hy]
      exact decides_pure hσ fun ρ => by rw [UnaryOp.gives_deref, Ty.pointer.injEq, eq_comm]
    · rw [hnone]
      intro ρ hρ
      rw [UnaryOp.gives_deref.1 hρ] at hτ
      exact hτ trivial
  | plus | negate =>
    refine applies_ite (hW.isNumeric_iff h) (fun hτ => decides_pure h fun ρ => ?_) fun hτ ρ hρ => ?_
    · rw [UnaryOp.gives_sign (by simp), and_iff_right hτ]
    · exact hτ ((UnaryOp.gives_sign (by simp)).1 hρ).1
  | increment | decrement =>
    have hc : (W.isNumeric x || W.isPointer x) = true ↔ τ.IsNumeric ∨ τ.IsPointer := by
      rw [Bool.or_eq_true, hW.isNumeric_iff h, hW.isPointer_iff h]
    refine applies_ite hc (fun hτ => decides_pure h fun ρ => ?_) fun hτ ρ hρ => ?_
    · rw [UnaryOp.gives_step (by simp), and_iff_right hτ]
    · exact hτ ((UnaryOp.gives_step (by simp)).1 hρ).1
  | not =>
    refine applies_ite (hW.isBooleanOrPointer_iff h)
      (fun hτ => hW.decides_builtin .boolean span fun ρ => ?_) fun hτ ρ hρ => ?_
    · rw [UnaryOp.gives_not, and_iff_right hτ]
    · exact hτ (UnaryOp.gives_not.1 hρ).1
  | addressOf => exact decides_pure h.pointer fun ρ => UnaryOp.gives_addressOf

theorem decides_typeUnary (h : W.Denotes b x τ) (op : UnaryOp) (span : Span) :
    W.Decides b (W.typeUnary span op x) (op.Gives τ) := by
  have happlies := hW.applies_unary? h op span
  rw [typeUnary]
  generalize W.unary? op x span = m at happlies
  cases m with
  | none => exact decides_fail happlies
  | some m => exact happlies

theorem applies_binary? (h : W.Denotes b x τ) (h' : W.Denotes b y σ) {op : BinaryOp}
    (hop : op.compound? = none) (span : Span) :
    W.Applies b (op.Gives τ σ) (W.binary? op x y span) := by
  have hleft : (W.sameNumeric x y || (W.isPointer x && W.isInteger y)) = true ↔
      τ = σ ∧ τ.IsNumeric ∨ τ.IsPointer ∧ σ = .integer := by
    rw [Bool.or_eq_true, hW.sameNumeric_iff h h', Bool.and_eq_true, hW.isPointer_iff h,
      hW.isInteger_iff h']
  cases op with
  | add =>
    have hright : (W.isInteger x && W.isPointer y) = true ↔ τ = .integer ∧ σ.IsPointer := by
      rw [Bool.and_eq_true, hW.isInteger_iff h, hW.isPointer_iff h']
    refine applies_ite hleft (fun hτ => decides_pure h fun ρ => ?_) fun hτ =>
      applies_ite hright (fun hσ => decides_pure h' fun ρ => ?_) fun hσ ρ hρ => ?_
    · rw [BinaryOp.gives_add, and_iff_right hτ, or_iff_left]
      rintro ⟨⟨rfl, hσ⟩, -⟩
      rcases hτ with ⟨rfl, -⟩ | ⟨hτ, -⟩
      · exact hσ
      · exact hτ
    · rw [BinaryOp.gives_add, and_iff_right hσ, or_iff_right (fun h => hτ h.1)]
    · rcases BinaryOp.gives_add.1 hρ with hρ | hρ
      · exact hτ hρ.1
      · exact hσ hρ.1
  | sub =>
    have hright : (W.isPointer x && W.isPointer y) = true ↔ τ.IsPointer ∧ σ.IsPointer := by
      rw [Bool.and_eq_true, hW.isPointer_iff h, hW.isPointer_iff h']
    refine applies_ite hleft (fun hτ => decides_pure h fun ρ => ?_) fun hτ =>
      applies_ite hright (fun hσ => hW.decides_builtin .integer span fun ρ => ?_) fun hσ ρ hρ => ?_
    · rw [BinaryOp.gives_sub, and_iff_right hτ, or_iff_left]
      rintro ⟨⟨hpointer, hσ⟩, -⟩
      rcases hτ with ⟨rfl, hτ⟩ | ⟨-, rfl⟩
      · cases τ <;> simp_all [Ty.IsPointer, Ty.IsNumeric]
      · exact hσ
    · rw [BinaryOp.gives_sub, and_iff_right hσ, or_iff_right (fun h => hτ h.1)]
    · rcases BinaryOp.gives_sub.1 hρ with hρ | hρ
      · exact hτ hρ.1
      · exact hσ hρ.1
  | mul | div | mod =>
    refine applies_ite (hW.sameNumeric_iff h h') (fun hτ => decides_pure h fun ρ => ?_)
      fun hτ ρ hρ => ?_
    · rw [BinaryOp.gives_scaling (by simp), and_iff_right hτ]
    · exact hτ ((BinaryOp.gives_scaling (by simp)).1 hρ).1
  | or | and =>
    have hc : (W.isBooleanOrPointer x && W.isBooleanOrPointer y) = true ↔
        τ.IsCondition ∧ σ.IsCondition := by
      rw [Bool.and_eq_true, hW.isBooleanOrPointer_iff h, hW.isBooleanOrPointer_iff h']
    refine applies_ite hc (fun hτ => hW.decides_builtin .boolean span fun ρ => ?_) fun hτ ρ hρ => ?_
    · rw [BinaryOp.gives_logical rfl, and_iff_right hτ]
    · exact hτ ((BinaryOp.gives_logical rfl).1 hρ).1
  | less | greater | lessEqual | greaterEqual | equal | notEqual =>
    exact hW.decides_builtin .boolean span fun ρ => BinaryOp.gives_comparison rfl
  | assign =>
    have hc : (x == y && !W.isFunction y) = true ↔ τ = σ ∧ ¬σ.IsFunction := by
      rw [Bool.and_eq_true, beq_iff_eq, hW.eq_iff h h', Bool.not_eq_true', ← hW.isFunction_iff h',
        Bool.not_eq_true]
    refine applies_ite hc (fun hτ => decides_pure h fun ρ => ?_) fun hτ ρ hρ => ?_
    · rw [BinaryOp.gives_assign, and_iff_right hτ]
    · exact hτ (BinaryOp.gives_assign.1 hρ).1
  | addAssign | subAssign | mulAssign | divAssign | modAssign => simp [BinaryOp.compound?] at hop

/-- The type that the operator gives is that of the left operand, if it is assigned. -/
theorem decides_binaryResult (h : W.Denotes b x τ) (y : Entity) (op : BinaryOp) (span : Span)
    {z : Entity} {ρ : Ty} (hz : W.Denotes b z ρ) :
    W.Decides b (W.binaryResult span op x y (some z)) fun π =>
      (op.compound? = none ∨ ρ = τ) ∧ π = ρ := by
  have hc : (op.compound?.isNone || z == x) = true ↔ op.compound? = none ∨ ρ = τ := by
    rw [Bool.or_eq_true, Option.isNone_iff_eq_none, beq_iff_eq, hW.eq_iff hz h]
  rw [binaryResult, Option.filter_some]
  by_cases hresult : op.compound? = none ∨ ρ = τ
  · rw [if_pos (hc.2 hresult)]
    exact decides_pure hz fun π => and_iff_right hresult
  · rw [if_neg (mt hc.1 hresult)]
    exact decides_fail fun π hπ => hresult hπ.1

theorem decides_typeBinary (h : W.Denotes b x τ) (h' : W.Denotes b y σ) (op : BinaryOp)
    (span : Span) : W.Decides b (W.typeBinary span op x y) (op.Gives τ σ) := by
  have hplain : (op.compound?.getD op).compound? = none := by cases op <;> rfl
  have hgives : ∀ ρ, op.Gives τ σ ρ ↔ ∃ π, (op.compound?.getD op).Gives τ σ π ∧
      (op.compound? = none ∨ π = τ) ∧ ρ = π := by
    intro ρ
    cases hop : op.compound? with
    | none => simp [Option.getD]
    | some arithmetic =>
      rw [BinaryOp.gives_compound hop, Option.getD_some]
      constructor
      · rintro ⟨h, rfl⟩
        exact ⟨_, h, .inr rfl, rfl⟩
      · rintro ⟨π, h, hπ, rfl⟩
        obtain rfl := hπ.resolve_left (Option.some_ne_none _)
        exact ⟨h, rfl⟩
  have happlies := hW.applies_binary? h h' hplain span
  rw [typeBinary]
  generalize W.binary? (op.compound?.getD op) x y span = m at happlies
  cases m with
  | none => exact decides_fail fun ρ hρ => happlies _ ((hgives ρ).1 hρ).choose_spec.1
  | some m =>
    exact (Decides.bind happlies fun hz => hW.decides_binaryResult h y op span hz).congr hgives

/-! ## Names -/

/-- What a variable or a function of the unit or of a class is known as. -/
theorem denotes_member {e : Declaration} (he : e ∈ b.declarations) {m : Member} (hm : m ∈ e.members) :
    W.sketch? (.declared m.place.id) = some (W.memberSketch m) ∧
      ∃ x, (W.memberSketch m).type = some x ∧ W.Denotes b x m.ty := by
  refine ⟨hW.describes.members e he m hm, ?_⟩
  match m with
  | .variable d =>
    exact hW.denotes_written? (Block.mem_writtenTypes_of_node (Block.preorder_subset_of_mem he
      (Declaration.preorder_subset_of_mem hm d.type_mem_preorder)))
  | .function d => exact hW.denotes_signature? (Block.mem_allFunctions_of_mem_members he hm)

theorem denotes_value {m : Member} (hm : m ∈ b.values) :
    W.sketch? (.declared m.place.id) = some (W.memberSketch m) ∧
      ∃ x, (W.memberSketch m).type = some x ∧ W.Denotes b x m.ty := by
  obtain ⟨e, he, hm⟩ := List.mem_flatMap.1 hm
  exact hW.denotes_member he (e.values_subset hm)

omit hW in
theorem isValue_memberSketch (W : World) (m : Member) : (W.memberSketch m).isValue = true := by
  cases m <;> rfl

theorem meaning?_value {Γ : Locals} {m : Member} (hm : m ∈ b.values)
    (hΓ : Γ.lookup? m.name.name = none) :
    W.meaning? Γ m.name.name = some (.declared m.place.id) := by
  simp [meaning?, hΓ, hW.values m hm, (hW.denotes_value hm).1, isValue_memberSketch]

/-- Built-in types and classes are no values. -/
theorem meaning?_eq_none (hwithin : W.IsWithin b) {Γ : Locals} {name : String}
    (hΓ : Γ.lookup? name = none) (hname : IsPlainName name)
    (hvalue : ∀ m ∈ b.values, m.name.name ≠ name) : W.meaning? Γ name = none := by
  rw [meaning?, hΓ]
  refine Option.filter_eq_none_iff.2 fun x hx => ?_
  rcases hwithin hname hx with ⟨t, rfl⟩ | ⟨d, hd, rfl⟩ | ⟨m, hm, rfl⟩
  · obtain ⟨s, hs, -, hisValue, -⟩ := hW.sketch_builtin hx
    simp [hs, hisValue]
  · obtain rfl := Option.some.inj ((hW.classes d hd).symm.trans hx)
    simp [hW.sketch_class hd, ClassDecl.sketch]
  · exact absurd rfl (hvalue m hm)

/-- A node declares something of one type. -/
theorem member_ty_eq {e e' : Declaration} (he : e ∈ b.declarations) (he' : e' ∈ b.declarations)
    {m m' : Member} (hm : m ∈ e.members) (hm' : m' ∈ e'.members)
    (hid : Entity.declared m.place.id = .declared m'.place.id) : m'.ty = m.ty := by
  obtain ⟨hsketch, x, hx, h⟩ := hW.denotes_member he hm
  obtain ⟨hsketch', x', hx', h'⟩ := hW.denotes_member he' hm'
  rw [← hid, hsketch] at hsketch'
  rw [← Option.some.inj hsketch', hx] at hx'
  obtain rfl := Option.some.inj hx'
  exact h'.unique hW _ h

theorem value_ty_eq {m m' : Member} (hm : m ∈ b.values) (hm' : m' ∈ b.values)
    (hname : m'.name.name = m.name.name) : m'.ty = m.ty := by
  have hglobal := hW.values m' hm'
  rw [hname, hW.values m hm] at hglobal
  obtain ⟨e, he, hm⟩ := List.mem_flatMap.1 hm
  obtain ⟨e', he', hm'⟩ := List.mem_flatMap.1 hm'
  exact hW.member_ty_eq he he' (e.values_subset hm) (e'.values_subset hm') (Option.some.inj hglobal)

theorem decides_typeIdentifier {Γ : Locals} (hΓ : Γ.All (W.IsLocal b)) {name : Ident}
    (hname : IsPlainName name.name) :
    W.Decides b (W.typeIdentifier Γ name) (Resolves b Γ name.name) := by
  cases hlookup : Γ.lookup? name.name with
  | some l =>
    obtain ⟨x, hx, h⟩ := hΓ.of_lookup? hlookup
    have hmeaning : W.meaning? Γ name.name = some (.declared l.node) := by rw [meaning?, hlookup]
    rw [typeIdentifier, hmeaning]
    dsimp only
    rw [hx]
    exact decides_pure h fun σ => resolves_of_lookup? hlookup
  | none =>
    refine Decides.congr ?_ fun σ => resolves_of_lookup?_eq_none hlookup
    rw [typeIdentifier]
    by_cases hvalue : ∃ m ∈ b.values, m.name.name = name.name
    · obtain ⟨m, hm, hmname⟩ := hvalue
      obtain ⟨hsketch, x, hx, h⟩ := hW.denotes_value hm
      rw [← hmname, hW.meaning?_value hm (hmname ▸ hlookup)]
      dsimp only
      rw [hsketch, Option.bind_some, hx]
      refine decides_pure h fun σ => ⟨?_, fun hσ => ⟨m, hm, rfl, hσ.symm⟩⟩
      rintro ⟨m', hm', hmname', rfl⟩
      exact hW.value_ty_eq hm hm' hmname'
    · refine ⟨fun h => ?_, fun hwithin herrors => ?_⟩
      · obtain ⟨m, hm, hmname, -⟩ := h
        exact absurd ⟨m, hm, hmname⟩ hvalue
      rw [hW.meaning?_eq_none hwithin hlookup hname fun m hm hmname => hvalue ⟨m, hm, hmname⟩] at herrors
      simp [Found.fail] at herrors

/-! ## Members -/

/-- An entity is a class if its type is. -/
theorem class?_cases (h : W.Denotes b x τ) :
    (∃ d ∈ b.classes, τ = .classType d.name.name ∧ ((W.sketch? x).filter fun s =>
      match s.shape with
      | some .classType => true
      | _ => false) = some d.sketch) ∨
    ((∀ name, τ ≠ .classType name) ∧ ((W.sketch? x).filter fun s =>
      match s.shape with
      | some .classType => true
      | _ => false) = none) := by
  obtain ⟨shape, hshape, hshows⟩ := hW.shape? h
  obtain ⟨s, hs, hshape⟩ := Option.bind_eq_some_iff.1 hshape
  cases hshows with
  | classType =>
    cases h with
    | classType hd => exact .inl ⟨_, hd, rfl, by rw [hW.sketch_class hd]; rfl⟩
  | builtin | pointer | function =>
    exact .inr ⟨by simp, by rw [hs, Option.filter_some, hshape]; rfl⟩

theorem owner?_cases (h : W.Denotes b x τ) (kind : AccessKind) :
    (∃ d ∈ b.classes, kind.Reaches τ d.name.name ∧ W.owner? kind x = some d.sketch) ∨
      ((∀ owner, ¬kind.Reaches τ owner) ∧ W.owner? kind x = none) := by
  cases kind with
  | dot => exact hW.class?_cases h
  | arrow =>
    rw [owner?]
    dsimp only [AccessKind.Reaches]
    rcases hW.pointee?_cases h with ⟨y, σ, hy, hσ, rfl⟩ | ⟨hnone, hτ⟩
    · rw [hy, Option.bind_some]
      simp only [Ty.pointer.injEq]
      exact hW.class?_cases hσ
    · refine .inr ⟨fun owner howner => hτ (howner ▸ trivial), ?_⟩
      rw [hnone, Option.bind_none, Option.filter_none]

theorem members_sketch {d : ClassDecl} (hd : d ∈ b.classes) {m : Member} (hm : m ∈ d.members) :
    d.sketch.members m.name.name = some (.declared m.place.id) := by
  have hnodup : ((d.members.map Member.entry).map Prod.fst).Nodup := by
    rw [List.map_map]
    exact hW.nodup_members d hd
  have hlookup : (d.members.map Member.entry).lookup m.name.name = some m.place.id :=
    lookup_of_mem hnodup (List.mem_map_of_mem (f := Member.entry) hm)
  exact congrArg (Option.map Entity.declared) hlookup

/-- Classes of the same name are one class. -/
theorem sketch_eq {d d' : ClassDecl} (hd : d ∈ b.classes) (hd' : d' ∈ b.classes)
    (hname : d'.name.name = d.name.name) : d'.sketch = d.sketch := by
  have hglobal := hW.classes d' hd'
  rw [hname, hW.classes d hd] at hglobal
  have hsketch := hW.sketch_class hd'
  rw [← Option.some.inj hglobal, hW.sketch_class hd] at hsketch
  exact (Option.some.inj hsketch).symm

theorem decides_member {d : ClassDecl} (hd : d ∈ b.classes) (member : Ident) :
    W.Decides b (match d.sketch.members member.name with
      | none => .fail (.symbolNotFound member.name member.span)
      | some m => pure ((W.sketch? m).bind Sketch.type))
      (b.HasMember d.name.name member.name) := by
  by_cases hmember : ∃ m ∈ d.members, m.name.name = member.name
  · obtain ⟨m, hm, hname⟩ := hmember
    obtain ⟨hsketch, x, hx, h⟩ := hW.denotes_member (Block.mem_classes.1 hd) hm
    rw [← hname, hW.members_sketch hd hm]
    dsimp only
    rw [hsketch, Option.bind_some, hx]
    refine decides_pure h fun σ => ⟨?_, fun hσ => ⟨d, hd, rfl, m, hm, rfl, hσ.symm⟩⟩
    rintro ⟨d', hd', hdname, m', hm', hmname, rfl⟩
    have hmembers := hW.members_sketch hd' hm'
    rw [hW.sketch_eq hd hd' hdname, hmname, hW.members_sketch hd hm] at hmembers
    exact hW.member_ty_eq (Block.mem_classes.1 hd) (Block.mem_classes.1 hd') hm hm'
      (Option.some.inj hmembers)
  · have hnone : d.sketch.members member.name = none := by
      have hlookup : (d.members.map Member.entry).lookup member.name = none := by
        rw [List.lookup_eq_none_iff]
        rintro p hp
        obtain ⟨m, hm, rfl⟩ := List.mem_map.1 hp
        exact bne_iff_ne.2 fun heq => hmember ⟨m, hm, heq.symm⟩
      exact congrArg (Option.map Entity.declared) hlookup
    rw [hnone]
    refine decides_fail ?_
    rintro σ ⟨d', hd', hdname, m', hm', hmname, rfl⟩
    have hmembers := hW.members_sketch hd' hm'
    rw [hW.sketch_eq hd hd' hdname, hmname, hnone] at hmembers
    exact Option.some_ne_none _ hmembers.symm

theorem decides_typeAccess (h : W.Denotes b x τ) (place : Place) (kind : AccessKind)
    (member : Ident) : W.Decides b (W.typeAccess place kind x member) fun σ =>
      ∃ owner, kind.Reaches τ owner ∧ b.HasMember owner member.name σ := by
  rw [typeAccess]
  rcases hW.owner?_cases h kind with ⟨d, hd, hreaches, howner⟩ | ⟨hreaches, howner⟩
  · rw [howner]
    refine (hW.decides_member hd member).congr fun σ => ⟨?_, fun hσ => ⟨_, hreaches, hσ⟩⟩
    rintro ⟨owner, howner, hσ⟩
    have heq : owner = d.name.name := by
      cases kind <;> simp_all [AccessKind.Reaches]
    exact heq ▸ hσ
  · rw [howner]
    refine decides_fail fun σ => ?_
    rintro ⟨owner, howner, -⟩
    exact hreaches owner howner

/-! ## Calls, casts and indices -/

omit hW in
theorem mapM_map_some (xs : List Entity) :
    (List.mapM id (xs.map some) : Option (List Entity)) = some xs := by
  induction xs with
  | nil => rfl
  | cons x xs ih =>
    rw [List.map_cons, List.mapM_cons, ih]
    rfl

theorem confirms_compareArguments {xs ys : List Entity} {τs σs : List Ty}
    (hxs : W.DenoteAll b xs τs) (hys : W.DenoteAll b ys σs) (span : Span) (callee : Entity) :
    W.Confirms b (W.compareArguments span callee (xs.map some) ys) (τs = σs) := by
  rw [compareArguments, mapM_map_some]
  dsimp only
  by_cases heq : xs = ys
  · rw [if_neg (not_not.2 heq)]
    exact ⟨fun _ => rfl, fun _ _ => (hW.list_eq_iff hxs hys).1 heq⟩
  · rw [if_pos heq]
    exact ⟨fun h => absurd ((hW.list_eq_iff hxs hys).2 h) heq, fun _ h => by simp [Found.report] at h⟩

theorem decides_typeCall (h : W.Denotes b x τ) {xs : List Entity} {τs : List Ty}
    (hxs : W.DenoteAll b xs τs) (span calleeSpan : Span) :
    W.Decides b (W.typeCall span calleeSpan x (xs.map some)) fun σ => τ = .function τs σ := by
  obtain ⟨shape, hshape, hshows⟩ := hW.shape? h
  rw [typeCall, hshape]
  cases hshows with
  | @function ps r σs ρ hps hr =>
    refine (hW.confirms_compareArguments hxs hps span x).before hr fun σ => ?_
    rw [Ty.function.injEq, @eq_comm _ τs, @eq_comm _ σ]
  | builtin | classType | pointer => exact decides_fail fun σ hσ => by simp at hσ

theorem decides_typeCast (h : W.Denotes b x τ) (h' : W.Denotes b y σ) (span : Span) :
    W.Decides b (W.typeCast span x y) fun ρ => τ.CastsTo σ ∧ ρ = σ := by
  rw [typeCast]
  by_cases hcast : τ.CastsTo σ
  · rw [if_pos ((hW.castIsValid_iff h h').2 hcast)]
    exact decides_pure h' fun ρ => and_iff_right hcast
  · rw [if_neg (mt (hW.castIsValid_iff h h').1 hcast)]
    exact decides_fail fun ρ hρ => hcast hρ.1

theorem decides_typeIndex (h : W.Denotes b x τ) (h' : W.Denotes b y σ) (span : Span) :
    W.Decides b (W.typeIndex span x y) fun ρ => τ = .pointer ρ ∧ σ = .builtin .integer := by
  rw [typeIndex]
  have hinteger := hW.isInteger_iff h'
  rcases hW.pointee?_cases h with ⟨z, ρ, hz, hρ, rfl⟩ | ⟨hnone, hτ⟩
  · rw [hz]
    cases hy : W.isInteger y with
    | true =>
      refine decides_pure hρ fun π => ?_
      rw [Ty.pointer.injEq, and_iff_left (hinteger.1 hy), eq_comm]
    | false =>
      refine decides_fail fun π hπ => ?_
      rw [hinteger.2 hπ.2] at hy
      exact Bool.noConfusion hy
  · rw [hnone]
    refine decides_fail fun π hπ => ?_
    rw [hπ.1] at hτ
    exact hτ trivial

/-! ## Expressions -/

theorem decides_typeLiteral {Γ : Locals} (place : Place) {v : Value}
    (hv : ∀ name, v ≠ .identifier name) :
    W.Decides b (W.typeValue Γ place v) (HasType b Γ (.value place v)) := by
  cases v with
  | integer => exact hW.decides_builtin .integer _ fun σ => ⟨fun | .integer => rfl, fun h => h ▸ .integer⟩
  | float => exact hW.decides_builtin .float _ fun σ => ⟨fun | .float => rfl, fun h => h ▸ .float⟩
  | boolean => exact hW.decides_builtin .boolean _ fun σ => ⟨fun | .boolean => rfl, fun h => h ▸ .boolean⟩
  | character => exact hW.decides_builtin .byte _ fun σ => ⟨fun | .character => rfl, fun h => h ▸ .character⟩
  | string => exact hW.decides_pointerToBuiltin .byte _ fun σ => ⟨fun | .string => rfl, fun h => h ▸ .string⟩
  | null => exact hW.decides_pointerToBuiltin .null _ fun σ => ⟨fun | .null => rfl, fun h => h ▸ .null⟩
  | identifier name => exact absurd rfl (hv name)

end Knows

mutual

/-- An expression of the unit has a type exactly if nothing is found wrong with it. -/
theorem Knows.decides_typeExpr (hW : W.Knows b) (hb : b.Regular) {Γ : Locals}
    (hΓ : Γ.All (W.IsLocal b)) : (e : Expr) → (∀ n ∈ e.tree.preorder, n ∈ b.tree.preorder) →
    W.Decides b (W.typeExpr Γ e) (HasType b Γ e)
  | .value place v, h => by
    rw [typeExpr]
    match v with
    | .identifier name =>
      rw [Expr.tree, Tree.forall_mem_preorder_node] at h
      refine Decides.congr ?_ fun σ => hasType_identifier
      exact hW.decides_typeIdentifier hΓ (hb.isPlainName _ h.1 name (by simp [Head.names]))
    | .integer _ | .float _ | .boolean _ | .character _ | .string _ | .null =>
      exact hW.decides_typeLiteral place (by simp)
  | .unary place op operand, h => by
    rw [Expr.tree, Tree.forall_mem_preorder_node, List.forall_mem_singleton] at h
    rw [typeExpr]
    exact ((hW.decides_typeExpr hb hΓ operand h.2).bind fun hx =>
      hW.decides_typeUnary hx op place.span).congr fun σ => hasType_unary
  | .binary place op left right, h => by
    rw [Expr.tree, Tree.forall_mem_preorder_node, List.forall_mem_cons, List.forall_mem_singleton] at h
    rw [typeExpr]
    exact ((hW.decides_typeExpr hb hΓ left h.2.1).bind fun hx =>
      (hW.decides_typeExpr hb hΓ right h.2.2).bind fun hy =>
        hW.decides_typeBinary hx hy op place.span).congr fun σ => hasType_binary
  | .access place kind object member, h => by
    rw [Expr.tree, Tree.forall_mem_preorder_node, List.forall_mem_singleton] at h
    rw [typeExpr]
    exact ((hW.decides_typeExpr hb hΓ object h.2).bind fun hx =>
      hW.decides_typeAccess hx place kind member).congr fun σ => hasType_access
  | .call place callee arguments, h => by
    rw [Expr.tree, Tree.forall_mem_preorder_node, List.forall_mem_cons] at h
    rw [typeExpr]
    exact ((hW.decides_typeExpr hb hΓ callee h.2.1).bind fun hx =>
      (hW.decides_typeExprs hb hΓ arguments h.2.2).bind fun hxs =>
        hW.decides_typeCall hx hxs place.span callee.span).congr fun σ => hasType_call
  | .cast place operand target, h => by
    rw [Expr.tree, Tree.forall_mem_preorder_node, List.forall_mem_cons, List.forall_mem_singleton] at h
    have htarget : target ∈ b.writtenTypes :=
      Block.mem_writtenTypes_of_node (h.2.2 _ (by simp [WrittenType.tree, WrittenType.node,
        Tree.preorder, Tree.preorders]))
    obtain ⟨y, hy, hdenotes⟩ := hW.denotes_written? htarget
    rw [typeExpr, hy]
    exact ((hW.decides_typeExpr hb hΓ operand h.2.1).bind fun hx =>
      hW.decides_typeCast hx hdenotes place.span).congr fun σ => hasType_cast
  | .index place target subscript, h => by
    rw [Expr.tree, Tree.forall_mem_preorder_node, List.forall_mem_cons, List.forall_mem_singleton] at h
    rw [typeExpr]
    exact ((hW.decides_typeExpr hb hΓ target h.2.1).bind fun hx =>
      (hW.decides_typeExpr hb hΓ subscript h.2.2).bind fun hy =>
        hW.decides_typeIndex hx hy place.span).congr fun σ => hasType_index

theorem Knows.decides_typeExprs (hW : W.Knows b) (hb : b.Regular) {Γ : Locals}
    (hΓ : Γ.All (W.IsLocal b)) : (es : List Expr) →
    (∀ t ∈ Expr.trees es, ∀ n ∈ t.preorder, n ∈ b.tree.preorder) →
    W.DecidesAll b (W.typeExprs Γ es) (HaveTypes b Γ es)
  | [], _ => by
    rw [typeExprs]
    refine ⟨fun hτs => ⟨[], ?_, rfl⟩, fun _ _ => ⟨[], [], rfl, .nil, .nil⟩⟩
    rw [haveTypes_nil.1 hτs]
    exact .nil
  | e :: es, h => by
    rw [Expr.trees, List.forall_mem_cons] at h
    rw [typeExprs]
    exact ((hW.decides_typeExpr hb hΓ e h.1).cons (hW.decides_typeExprs hb hΓ es h.2)).congr
      fun σs => haveTypes_cons

end

end World

end Sable
