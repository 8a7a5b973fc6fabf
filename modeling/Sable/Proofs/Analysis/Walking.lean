import Sable.Proofs.Analysis.Phases
import Sable.Proofs.Syntax.Nesting

/-!
# The walk of the last phase

The last phase does the checks of a unit one after another. At each of them the scopes that are
open show the locals of the check, and a jump finds the function and the loop that it stands in. So
what is true before the walk, and stays true from check to check, is true behind it.

## Main definitions

* `ScopeStack.Shows`: the scopes show these locals, and of the rest nothing.
* `ScopeStack.IsInside`: the scopes are those of a place in a function.
* `Block.Invariant`: what stays true from check to check.
* `Block.Step`: the step that does a check of the unit.

## Main statements

* `Block.Invariant.checkBlock`: an invariant is carried through the last phase.
* `Block.Invariant.of_steps`: an invariant is kept by the steps that do the checks.
* `Block.Invariant.and`: an invariant on top of another one.
-/
namespace Sable

/-! ## Scopes and locals -/

/-- A name means a local, or nothing, by its symbol; `row` tells the symbols. Where no scope is
open, there are no locals. -/
structure ScopeStack.Shows {σ : Type} (s : ScopeStack σ) (row : NodeId → Option σ) (Γ : Locals) :
    Prop where
  lookup?_eq : ∀ name, s.lookup? name = (Γ.lookup? name).bind fun l => row l.node
  isSome : ∀ name l, Γ.lookup? name = some l → (row l.node).isSome
  entries_eq_nil : s.entries = [] ↔ Γ = []

theorem Locals.lookup?_declare {Γ : Locals} {l : Local} (hΓ : Γ ≠ []) (name : String) :
    (Γ.declare l).lookup? name = if l.name = name then some l else Γ.lookup? name := by
  cases Γ with
  | nil => exact absurd rfl hΓ
  | cons scope scopes =>
    rw [Locals.declare, Locals.lookup?, Locals.lookup?, List.findSome?_cons, List.findSome?_cons,
      List.find?_cons]
    by_cases h : l.name = name
    · simp [h]
    · simp [h, beq_eq_false_iff_ne.2 h]

namespace ScopeStack

variable {σ : Type} {s : ScopeStack σ} {row : NodeId → Option σ} {Γ : Locals}

theorem shows_empty (h : s.entries = []) : s.Shows row [] :=
  ⟨fun name => by rw [lookup?, h]; rfl, by simp [Locals.lookup?], by simp [h]⟩

theorem lookup?_push {kind : ScopeKind} (hkind : kind = .block ∨ kind = .loop) (owner : NodeId)
    (symbol : Option σ) (name : String) :
    (s.push kind owner symbol).lookup? name = s.lookup? name := by
  rcases hkind with rfl | rfl <;> rfl

theorem Shows.push (h : s.Shows row Γ) {kind : ScopeKind} (hkind : kind = .block ∨ kind = .loop)
    (owner : NodeId) (symbol : Option σ) : (s.push kind owner symbol).Shows row ([] :: Γ) :=
  ⟨fun name => (lookup?_push hkind owner symbol name).trans (h.lookup?_eq name), h.isSome,
    by simp [ScopeStack.push]⟩

/-- A scope without declarations does not show. -/
theorem Shows.push_self (h : s.Shows row Γ) (hΓ : Γ ≠ []) {kind : ScopeKind}
    (hkind : kind = .block ∨ kind = .loop) (owner : NodeId) (symbol : Option σ) :
    (s.push kind owner symbol).Shows row Γ :=
  ⟨fun name => (lookup?_push hkind owner symbol name).trans (h.lookup?_eq name), h.isSome,
    by simp [ScopeStack.push, hΓ]⟩

/-- What is declared around a function or a class does not show inside. -/
theorem shows_push {kind : ScopeKind} (hkind : kind = .function ∨ kind = .classBody)
    (owner : NodeId) (symbol : Option σ) : (s.push kind owner symbol).Shows row [[]] := by
  refine ⟨fun name => ?_, by simp [Locals.lookup?], by simp [ScopeStack.push]⟩
  rcases hkind with rfl | rfl <;> rfl

theorem lookup?_declare (hs : s.entries ≠ []) (n : String) (x : σ) (name : String) :
    (s.declare n x).lookup? name = if n = name then some x else s.lookup? name := by
  obtain ⟨_ | ⟨e, es⟩⟩ := s
  · exact absurd rfl hs
  · rw [declare, lookup?, lookup?, lookupIn, lookupIn, OrderedMap.get?_insert]
    by_cases h : n = name
    · simp [h]
    · rw [if_neg (Ne.symm h), if_neg h]
      rfl

theorem Shows.declare (h : s.Shows row Γ) {l : Local} {x : σ} (hx : row l.node = some x) :
    (s.declare l.name x).Shows row (Γ.declare l) := by
  by_cases hΓ : Γ = []
  · have hs := h.entries_eq_nil.2 hΓ
    rw [ScopeStack.declare, hs, hΓ]
    exact shows_empty hs
  · have hs : s.entries ≠ [] := fun hs => hΓ (h.entries_eq_nil.1 hs)
    refine ⟨fun name => ?_, fun name l' hl' => ?_, ?_⟩
    · rw [lookup?_declare hs, Locals.lookup?_declare hΓ, h.lookup?_eq]
      split
      · exact hx.symm
      · rfl
    · rw [Locals.lookup?_declare hΓ] at hl'
      split at hl'
      · rw [← Option.some.inj hl', hx]
        rfl
      · exact h.isSome name l' hl'
    · obtain ⟨_ | ⟨e, es⟩⟩ := s
      · exact absurd rfl hs
      · cases Γ with
        | nil => exact absurd rfl hΓ
        | cons => simp [ScopeStack.declare, Locals.declare]

theorem tail_entries_declare (n : String) (x : σ) :
    (s.declare n x).entries.tail = s.entries.tail := by
  obtain ⟨_ | ⟨e, es⟩⟩ := s <;> rfl

/-- The scopes are those of a place in the function `d`. -/
structure IsInside (s : ScopeStack σ) (row : NodeId → Option σ) (d : FunctionDecl)
    (S : Surroundings) : Prop where
  shows : s.Shows row S.locals
  inLoop_eq : s.inLoop = S.inLoop
  nearest : s.nearestFunction? = row d.place.id
  result_eq : S.result = d.result
  labels_eq : S.labels = d.labels

namespace IsInside

variable {d : FunctionDecl} {S : Surroundings}

theorem locals_ne_nil (h : s.IsInside row d S) (hd : (row d.place.id).isSome) : S.locals ≠ [] := by
  intro hΓ
  have hnearest := h.nearest
  rw [nearestFunction?, h.shows.entries_eq_nil.2 hΓ] at hnearest
  rw [← hnearest] at hd
  simp at hd

theorem pushBlock (h : s.IsInside row d S) (owner : NodeId) :
    (s.push .block owner none).IsInside row d { S with locals := [] :: S.locals } where
  shows := h.shows.push (.inl rfl) owner none
  inLoop_eq := h.inLoop_eq
  nearest := h.nearest
  result_eq := h.result_eq
  labels_eq := h.labels_eq

theorem pushLoop (h : s.IsInside row d S) (owner : NodeId) :
    (s.push .loop owner none).IsInside row d
      { S with locals := [] :: S.locals, inLoop := true } where
  shows := h.shows.push (.inr rfl) owner none
  inLoop_eq := rfl
  nearest := h.nearest
  result_eq := h.result_eq
  labels_eq := h.labels_eq

theorem declare (h : s.IsInside row d S) {l : Local} {x : σ} (hx : row l.node = some x) :
    (s.declare l.name x).IsInside row d { S with locals := S.locals.declare l } where
  shows := h.shows.declare hx
  inLoop_eq := by
    rw [← h.inLoop_eq]
    obtain ⟨_ | ⟨e, es⟩⟩ := s
    · rfl
    · simp only [ScopeStack.declare, inLoop, List.takeWhile_cons]
      split <;> rfl
  nearest := by
    rw [← h.nearest]
    obtain ⟨_ | ⟨e, es⟩⟩ := s
    · rfl
    · simp only [ScopeStack.declare, nearestFunction?, List.find?_cons]
      split <;> rfl
  result_eq := h.result_eq
  labels_eq := h.labels_eq

end IsInside

end ScopeStack

/-! ## What stays true -/

namespace Analyzing

variable {b : Block} {I : List Check → Context → Prop}

/-- Behind the checks that were done, where the scopes satisfy `p`, the step does these checks;
then the scopes satisfy `q`, and nothing is closed that was open. -/
def Walks (b : Block) (I : List Check → Context → Prop) (p q : ScopeStack SymbolId → Prop)
    (ks : List Check) (m : Analyzing Unit) : Prop :=
  ∀ ⦃done c⦄, done ++ ks <+: b.checks → I done c → p c.scopes →
    I (done ++ ks) (m.run c).2 ∧ q (m.run c).2.scopes ∧
      (m.run c).2.scopes.entries.tail = c.scopes.entries.tail

/-- The step does a check, where the scopes satisfy `p`. -/
def Does (b : Block) (I : List Check → Context → Prop) (p : ScopeStack SymbolId → Prop) (k : Check)
    (m : Analyzing Unit) : Prop :=
  ∀ ⦃done c⦄, done ++ [k] <+: b.checks → I done c → p c.scopes →
    I (done ++ [k]) (m.run c).2 ∧ (m.run c).2.scopes = c.scopes

variable {p q r : ScopeStack SymbolId → Prop} {ks ks' : List Check}
  {m m' : Analyzing Unit}

theorem walks_pure : Walks b I p p [] (pure ()) := by
  intro done c _ h hp
  rw [List.append_nil]
  exact ⟨h, hp, rfl⟩

theorem Walks.bind (hm : Walks b I p q ks m) (hm' : Walks b I q r ks' m') :
    Walks b I p r (ks ++ ks') (m >>= fun _ => m') := by
  intro done c hdone h hp
  rw [← List.append_assoc] at hdone ⊢
  obtain ⟨h', hq, htail⟩ := hm ((List.prefix_append _ _).trans hdone) h hp
  obtain ⟨h'', hr, htail'⟩ := hm' hdone h' hq
  exact ⟨h'', hr, htail'.trans htail⟩

/-- Behind a step without checks. -/
theorem Walks.after (hm : Walks b I p q [] m) (hm' : Walks b I q r ks m') :
    Walks b I p r ks (m >>= fun _ => m') := hm.bind hm'

/-- In front of a step without checks. -/
theorem Walks.before (hm : Walks b I p q ks m) (hm' : Walks b I q r [] m') :
    Walks b I p r ks (m >>= fun _ => m') := by
  rw [← List.append_nil ks]
  exact hm.bind hm'

theorem Walks.imp (hm : Walks b I p q ks m) (hq : ∀ s, q s → r s) : Walks b I p r ks m := by
  intro done c hdone h hp
  obtain ⟨h', hq', htail⟩ := hm hdone h hp
  exact ⟨h', hq _ hq', htail⟩

/-- A check does not touch the scopes. -/
theorem Does.walks {k : Check} (hm : Does b I p k m) (hp : ∀ s, q s → p s) :
    Walks b I q q [k] m := by
  intro done c hdone h hq
  obtain ⟨h', hscopes⟩ := hm hdone h (hp _ hq)
  rw [hscopes]
  exact ⟨h', hq, rfl⟩

theorem walks_option {α : Type} {g : α → Analyzing Unit} {k : α → Check} (x : Option α)
    (h : ∀ y ∈ x, Walks b I p p [k y] (g y)) :
    Walks b I p p (x.toList.map k) (x.toList.forM g) := by
  cases x with
  | none => exact walks_pure
  | some y => exact (h y rfl).before walks_pure

theorem walks_forM {α : Type} {g : α → Analyzing Unit} {checks : α → List Check} (xs : List α)
    (h : ∀ x ∈ xs, Walks b I p p (checks x) (g x)) :
    Walks b I p p (xs.flatMap checks) (xs.forM g) := by
  induction xs with
  | nil => exact walks_pure
  | cons x xs ih =>
    rw [List.forall_mem_cons] at h
    exact h.1.bind (ih h.2)

end Analyzing

open Analyzing

/-- What declares a variable or a function. -/
def NodeKind.isValue : NodeKind → Bool
  | .function | .parameter | .variable => true
  | _ => false

theorem VariableDecl.initializer_mem_children (d : VariableDecl) {e : Expr}
    (he : d.initializer = some e) : e.tree ∈ d.tree.children := by
  simp [tree, Tree.children, he, Expr.optionTrees]

namespace Block

theorem tree_mem_subtrees_of_mem {b : Block} {d : Declaration} (h : d ∈ b.declarations) :
    d.tree ∈ b.tree.subtrees :=
  Tree.mem_subtrees_of_mem_children b.tree.self_mem_subtrees (List.mem_map_of_mem h)

theorem tree_mem_subtrees_of_mem_allFunctions {b : Block} {d : FunctionDecl}
    (h : d ∈ b.allFunctions) : d.tree ∈ b.tree.subtrees := by
  obtain ⟨e, he, h⟩ := List.mem_flatMap.1 h
  have he := tree_mem_subtrees_of_mem he
  match e with
  | .classDecl c =>
    obtain ⟨m, hm, h⟩ := List.mem_flatMap.1 h
    match m with
    | .variable _ => simp [Member.functions] at h
    | .function f =>
      obtain rfl := List.mem_singleton.1 h
      exact Tree.mem_subtrees_of_mem_children he (List.mem_map_of_mem hm)
  | .function f =>
    obtain rfl := List.mem_singleton.1 h
    exact he
  | .variable _ => simp [Declaration.functions] at h

end Block

/-- What stays true from check to check. It is not about scopes, and the symbols of variables and
functions are those of `row`. -/
structure Block.Invariant (b : Block) (row : NodeId → Option SymbolId)
    (I : List Check → Context → Prop) : Prop where
  frame : ∀ {ks c} scopes visits, I ks c → I ks { c with scopes, visits }
  symbols_eq : ∀ {ks c}, I ks c → ∀ n ∈ b.tree.preorder, n.kind.isValue = true →
    c.annotations.symbols.get? n.id = row n.id
  isSome : ∀ n ∈ b.tree.preorder, n.kind.isValue = true → (row n.id).isSome
  expr : ∀ Γ e, e.tree.preorder ⊆ b.tree.preorder →
    Does b I (·.Shows row Γ) (.expr Γ e) (do let _ ← typeExpr e)
  condition : ∀ Γ e, e.tree.preorder ⊆ b.tree.preorder →
    Does b I (·.Shows row Γ) (.condition Γ e) (checkCondition e)
  initializer : ∀ Γ (d : VariableDecl) e, d.tree ∈ b.tree.subtrees → d.initializer = some e →
    Does b I (·.Shows row Γ) (.initializer Γ d.type.ty e)
      (do checkInitializer ((← get).annotations.declaredTypes.get? d.type.place.id) e)
  returns : ∀ Γ place value, .node ⟨place, .returns⟩ (Expr.optionTrees value) ∈ b.tree.subtrees →
    ∀ d ∈ b.allFunctions, ⟨place, .returns⟩ ∈ d.body.tree.preorder →
    Does b I (·.Shows row Γ) (.returns place Γ d.result value) (checkReturn place value)
  loopControl : ∀ place inLoop,
    Does b I (·.inLoop = inLoop) (.loopControl place inLoop) (checkLoopControl place)
  goto : ∀ place label, ∀ d ∈ b.allFunctions, ⟨place, .goto label⟩ ∈ d.body.tree.preorder →
    Does b I (·.nearestFunction? = row d.place.id) (.goto place d.labels label)
      (checkGoto place label)

/-- A check of the unit, with what is true of the scopes in front of it and the step that does it. -/
inductive Block.Step (b : Block) (row : NodeId → Option SymbolId) :
    Check → (ScopeStack SymbolId → Prop) → Analyzing Unit → Prop
  | expr (Γ : Locals) {e : Expr} (he : e.tree.preorder ⊆ b.tree.preorder) :
    b.Step row (.expr Γ e) (·.Shows row Γ) (do let _ ← typeExpr e)
  | condition (Γ : Locals) {e : Expr} (he : e.tree.preorder ⊆ b.tree.preorder) :
    b.Step row (.condition Γ e) (·.Shows row Γ) (checkCondition e)
  | initializer (Γ : Locals) {d : VariableDecl} {e : Expr}
    (hd : d.tree ∈ b.tree.subtrees) (he : d.initializer = some e) :
    b.Step row (.initializer Γ d.type.ty e) (·.Shows row Γ)
      (do checkInitializer ((← get).annotations.declaredTypes.get? d.type.place.id) e)
  | returns (Γ : Locals) {place : Place} {value : Option Expr} {d : FunctionDecl}
    (hvalue : .node ⟨place, .returns⟩ (Expr.optionTrees value) ∈ b.tree.subtrees)
    (hd : d ∈ b.allFunctions) (hnode : ⟨place, .returns⟩ ∈ d.body.tree.preorder) :
    b.Step row (.returns place Γ d.result value) (·.Shows row Γ) (checkReturn place value)
  | loopControl (place : Place) (inLoop : Bool) :
    b.Step row (.loopControl place inLoop) (·.inLoop = inLoop) (checkLoopControl place)
  | goto {place : Place} {label : Ident} {d : FunctionDecl} (hd : d ∈ b.allFunctions)
    (hnode : ⟨place, .goto label⟩ ∈ d.body.tree.preorder) :
    b.Step row (.goto place d.labels label) (·.nearestFunction? = row d.place.id)
      (checkGoto place label)

namespace Block.Invariant

variable {b : Block} {row : NodeId → Option SymbolId} {I J : List Check → Context → Prop}
  {p q : ScopeStack SymbolId → Prop} {ks : List Check} {m : Analyzing Unit}

theorem does (h : b.Invariant row I) {k : Check} (hm : b.Step row k p m) : Does b I p k m := by
  cases hm with
  | expr Γ he => exact h.expr Γ _ he
  | condition Γ he => exact h.condition Γ _ he
  | initializer Γ hd he => exact h.initializer Γ _ _ hd he
  | returns Γ hvalue hd hnode => exact h.returns Γ _ _ hvalue _ hd hnode
  | loopControl place inLoop => exact h.loopControl place inLoop
  | goto hd hnode => exact h.goto _ _ _ hd hnode

/-- It is enough to look at the steps that do the checks. -/
theorem of_steps (hframe : ∀ {ks c} scopes visits, I ks c → I ks { c with scopes, visits })
    (hsymbols : ∀ {ks c}, I ks c → ∀ n ∈ b.tree.preorder, n.kind.isValue = true →
      c.annotations.symbols.get? n.id = row n.id)
    (hrows : ∀ n ∈ b.tree.preorder, n.kind.isValue = true → (row n.id).isSome)
    (hstep : ∀ ⦃k p m⦄, b.Step row k p m → Does b I p k m) : b.Invariant row I where
  frame := hframe
  symbols_eq := hsymbols
  isSome := hrows
  expr Γ _ he := hstep (.expr Γ he)
  condition Γ _ he := hstep (.condition Γ he)
  initializer Γ _ _ hd he := hstep (.initializer Γ hd he)
  returns Γ _ _ hvalue _ hd hnode := hstep (.returns Γ hvalue hd hnode)
  loopControl place inLoop := hstep (.loopControl place inLoop)
  goto _ _ _ hd hnode := hstep (.goto hd hnode)

/-- What stays true where an invariant holds is an invariant with it. -/
theorem and (h : b.Invariant row I)
    (hframe : ∀ {ks c} scopes visits, J ks c → J ks { c with scopes, visits })
    (hstep : ∀ ⦃k p m⦄, b.Step row k p m → ∀ ⦃done c⦄, done ++ [k] <+: b.checks → I done c →
      J done c → p c.scopes → I (done ++ [k]) (m.run c).2 → J (done ++ [k]) (m.run c).2) :
    b.Invariant row fun ks c => I ks c ∧ J ks c := by
  refine of_steps (fun scopes visits hc => ⟨h.frame scopes visits hc.1, hframe scopes visits hc.2⟩)
    (fun hc => h.symbols_eq hc.1) h.isSome fun k p m hm done c hdone hc hp => ?_
  obtain ⟨hdone', hscopes⟩ := h.does hm hdone hc.1 hp
  exact ⟨⟨hdone', hstep hm hdone hc.1 hc.2 hp hdone'⟩, hscopes⟩

theorem walks_visit (h : b.Invariant row I) (phase : Phase) (node : NodeId) :
    Walks b I p p [] (visit phase node) := by
  intro done c _ hc hp
  rw [List.append_nil]
  exact ⟨h.frame _ _ hc, hp, rfl⟩

theorem walks_inScope (h : b.Invariant row I) {kind : ScopeKind} {owner : NodeId}
    (symbol : Option SymbolId) (hm : Walks b I p q ks m) {r : ScopeStack SymbolId → Prop}
    (hp : ∀ s, r s → p (s.push kind owner symbol)) :
    Walks b I r r ks (inScope kind owner symbol m) := by
  intro done c hdone hc hr
  obtain ⟨hc', -, htail⟩ := hm (c := { c with scopes := c.scopes.push kind owner symbol }) hdone
    (h.frame _ c.visits hc) (hp _ hr)
  have hscopes : ((inScope kind owner symbol m).run c).2.scopes = c.scopes :=
    congrArg ScopeStack.mk htail
  refine ⟨h.frame _ _ hc', ?_, ?_⟩
  · rwa [hscopes]
  · rw [hscopes]

/-! ## Declarations -/

/-- What is checked of a variable. -/
def checkInitial (d : VariableDecl) : Analyzing Unit := do
  let declared := (← get).annotations.declaredTypes.get? d.type.place.id
  d.initializer.toList.forM (checkInitializer declared)

theorem checkVariable_eq (d : VariableDecl) : checkVariable d = (do
    visit .typing d.place.id
    checkInitial d
    declareLocal d.place.id d.name) := rfl

theorem run_declareLocal (h : b.Invariant row I) {n : Node} (hn : n ∈ b.tree.preorder)
    (hkind : n.kind.isValue = true) {done : List Check} {c : Context} (hc : I done c)
    (name : Ident) : ∃ x, row n.id = some x ∧
      (declareLocal n.id name).run c = ((), { c with scopes := c.scopes.declare name.name x }) := by
  obtain ⟨x, hx⟩ := Option.isSome_iff_exists.1 (h.isSome n hn hkind)
  refine ⟨x, hx, ?_⟩
  have hrow := (h.symbols_eq hc n hn hkind).trans hx
  rw [declareLocal, run_get_bind, hrow]
  rfl

theorem walks_declareLocal (h : b.Invariant row I) {n : Node} (hn : n ∈ b.tree.preorder)
    (hkind : n.kind.isValue = true) (name : Ident)
    (hq : ∀ s x, row n.id = some x → p s → q (s.declare name.name x)) :
    Walks b I p q [] (declareLocal n.id name) := by
  intro done c _ hc hp
  obtain ⟨x, hx, hrun⟩ := h.run_declareLocal hn hkind hc name
  rw [hrun, List.append_nil]
  exact ⟨h.frame _ c.visits hc, hq _ x hx hp, ScopeStack.tail_entries_declare _ _⟩

theorem walks_checkVariable (h : b.Invariant row I) {d : VariableDecl}
    (hd : d.tree ∈ b.tree.subtrees) (Γ : Locals) (hp : ∀ s, p s → s.Shows row Γ)
    (hq : ∀ s x, row d.place.id = some x → p s → q (s.declare d.name.name x)) :
    Walks b I p q (d.checks Γ) (checkVariable d) := by
  have hnode : ⟨d.place, .variable d.name⟩ ∈ b.tree.preorder := Tree.root_mem_of_mem_subtrees hd
  have hinit : Walks b I p p (d.checks Γ) (checkInitial d) := by
    rw [VariableDecl.checks]
    unfold checkInitial
    cases he : d.initializer with
    | none => exact walks_pure
    | some e =>
      exact (h.initializer Γ d e hd he).walks hp
  have hdeclare := h.walks_declareLocal hnode rfl d.name hq
  rw [checkVariable_eq]
  exact (h.walks_visit .typing d.place.id).after (hinit.before hdeclare)

theorem walks_checkInit (h : b.Invariant row I) (init : ForInit)
    (hinit : ∀ t ∈ init.trees, t ∈ b.tree.subtrees) {d : FunctionDecl}
    {S : Surroundings} :
    Walks b I (·.IsInside row d S) (·.IsInside row d { S with locals := init.after S.locals })
      (init.checks S.locals) (checkInit init) := by
  match init with
  | .nothing => exact walks_pure
  | .variable v =>
    exact h.walks_checkVariable (hinit _ List.mem_cons_self) S.locals (fun _ hs => hs.shows)
      fun _ _ hx hs => hs.declare (l := v.local) hx
  | .expr e =>
    have he := Tree.preorder_subset_of_mem_subtrees (hinit _ List.mem_cons_self)
    exact (h.expr S.locals e he).walks fun _ hs => hs.shows

theorem mem_preorder_of_mem_body {d : FunctionDecl} (hd : d ∈ b.allFunctions) {n : Node}
    (hn : n ∈ d.body.tree.preorder) : n ∈ b.tree.preorder := by
  refine preorder_subset_of_mem_allFunctions hd ?_
  rw [FunctionDecl.tree, Tree.preorder, List.mem_cons, Tree.mem_preorders]
  exact .inr ⟨_, by simp, hn⟩

theorem mem_subtrees_of_mem_body {d : FunctionDecl} (hd : d ∈ b.allFunctions) {t : Tree}
    (ht : t ∈ d.body.tree.subtrees) : t ∈ b.tree.subtrees := by
  refine Tree.subtrees_subset _ (tree_mem_subtrees_of_mem_allFunctions hd) ?_
  rw [FunctionDecl.tree]
  exact Tree.mem_subtrees.2 (.inr ⟨d.body.tree, by simp [Tree.children], ht⟩)

theorem preorder_subset_of_mem_body {d : FunctionDecl} (hd : d ∈ b.allFunctions) {t : Tree}
    (ht : t ∈ d.body.tree.subtrees) : t.preorder ⊆ b.tree.preorder :=
  Tree.preorder_subset_of_mem_subtrees (mem_subtrees_of_mem_body hd ht)

section Statements

variable {d : FunctionDecl} (hd : d ∈ b.allFunctions) (h : b.Invariant row I)

include hd h

-- In a mutual block, what is used in one theorem is used in all.
set_option linter.unusedSectionVars false

theorem locals_ne_nil {S : Surroundings} {s : ScopeStack SymbolId} (hs : s.IsInside row d S) :
    S.locals ≠ [] :=
  hs.locals_ne_nil (h.isSome d.node (node_mem_preorder hd) rfl)

mutual

theorem walks_checkStmt : (s : Stmt) → s.tree ∈ d.body.tree.subtrees →
    (S : Surroundings) → Walks b I (·.IsInside row d S)
      (·.IsInside row d { S with locals := s.after S.locals }) (s.checks S) (checkStmt s)
  | .label place _, _, _ => h.walks_visit .typing place.id
  | .goto place label, hs, S => by
    intro done c hdone hc hp
    have hgoto := h.goto place label d hd (Tree.root_mem_of_mem_subtrees hs)
    rw [← hp.labels_eq] at hgoto
    exact hgoto.walks (q := (·.IsInside row d S))
      (fun _ hs => hs.nearest) hdone hc hp
  | .returns place value, hs, S => by
    intro done c hdone hc hp
    have hreturns := h.returns S.locals place value (mem_subtrees_of_mem_body hd hs) d hd
      (Tree.root_mem_of_mem_subtrees hs)
    rw [← hp.result_eq] at hreturns
    exact hreturns.walks (q := (·.IsInside row d S))
      (fun _ hs => hs.shows) hdone hc hp
  | .breakLoop place, _, S | .continueLoop place, _, S =>
    (h.loopControl place S.inLoop).walks fun _ hs => hs.inLoop_eq
  | .variable v, hs, S => h.walks_checkVariable (mem_subtrees_of_mem_body hd hs) S.locals
      (fun _ hs => hs.shows) fun _ _ hx hs => hs.declare (l := v.local) hx
  | .expr e, hs, S =>
    (h.expr S.locals e (preorder_subset_of_mem_body hd hs)).walks fun _ hs => hs.shows
  | .branch br, hs, S => walks_checkBranch br hs S
  | .whileLoop place condition body, hs, S => by
    have hs := Tree.forall_mem_subtrees_of_node hs
    have hcondition := (h.condition S.locals condition
      (preorder_subset_of_mem_body hd (hs _ (by simp)))).walks
      (q := (·.IsInside row d S)) fun _ hs => hs.shows
    have hscope := walks_checkScope body (hs _ (by simp)) { S with inLoop := true }
    refine (h.walks_visit .typing place.id).after (hcondition.bind (h.walks_inScope none hscope ?_))
    intro s hs
    have hshows := hs.shows.push_self (locals_ne_nil hd h hs) (.inr rfl) place.id none
    exact { hs.pushLoop place.id with shows := hshows }
  | .forLoop place init condition step body, hs, S => by
    have hs := Tree.forall_mem_subtrees_of_node hs
    have hinit := h.walks_checkInit init (d := d)
      (S := { S with locals := [] :: S.locals, inLoop := true })
      fun t ht => mem_subtrees_of_mem_body hd (hs t (by simp [ht]))
    have hnodes : ∀ e, e ∈ condition ∨ e ∈ step → e.tree.preorder ⊆ b.tree.preorder := by
      intro e he
      refine preorder_subset_of_mem_body hd (hs e.tree ?_)
      simp only [List.mem_append]
      exact .inl (he.elim (fun he => .inl (.inr (Expr.mem_optionTrees he)))
        fun he => .inr (Expr.mem_optionTrees he))
    have hcondition := walks_option condition fun e he =>
      (h.condition (init.after ([] :: S.locals)) e (hnodes e (.inl he))).walks
        (q := (·.IsInside row d { S with locals := init.after ([] :: S.locals), inLoop := true }))
        fun _ hs => hs.shows
    have hstep := walks_option step fun e he =>
      (h.expr (init.after ([] :: S.locals)) e (hnodes e (.inr he))).walks
        (q := (·.IsInside row d { S with locals := init.after ([] :: S.locals), inLoop := true }))
        fun _ hs => hs.shows
    have hscope := walks_checkScope body (hs _ (by simp))
      { S with locals := init.after ([] :: S.locals), inLoop := true }
    have hall := hinit.bind (hcondition.bind (hstep.bind hscope))
    rw [Stmt.checks, List.append_assoc, List.append_assoc]
    exact (h.walks_visit .typing place.id).after
      (h.walks_inScope none hall fun s hs => hs.pushLoop place.id)

theorem walks_checkBranch : (br : Branch) → br.tree ∈ d.body.tree.subtrees →
    (S : Surroundings) → Walks b I (·.IsInside row d S) (·.IsInside row d S) (br.checks S)
      (checkBranch br)
  | .mk place condition body otherwise, hs, S => by
    rw [Branch.tree] at hs
    have hs := Tree.forall_mem_subtrees_of_node hs
    have hcondition := (h.condition S.locals condition
      (preorder_subset_of_mem_body hd (hs _ (by simp)))).walks
      (q := (·.IsInside row d S)) fun _ hs => hs.shows
    have hscope := walks_checkScope body (hs _ (by simp)) S
    have hotherwise := walks_checkOtherwise otherwise (fun t ht => hs t (by simp [ht])) S
    rw [Branch.checks, List.cons_append]
    exact (h.walks_visit .typing place.id).after (hcondition.bind (hscope.bind hotherwise))

theorem walks_checkOtherwise : (o : Otherwise) → (∀ t ∈ o.trees, t ∈ d.body.tree.subtrees) →
    (S : Surroundings) → Walks b I (·.IsInside row d S) (·.IsInside row d S) (o.checks S)
      (checkOtherwise o)
  | .nothing, _, _ => walks_pure
  | .branch br, ho, S => walks_checkBranch br (ho _ List.mem_cons_self) S
  | .scope s, ho, S => walks_checkScope s (ho _ List.mem_cons_self) S

theorem walks_checkScope : (s : Scope) → s.tree ∈ d.body.tree.subtrees →
    (S : Surroundings) → Walks b I (·.IsInside row d S) (·.IsInside row d S) (s.checks S)
      (checkScope s)
  | .mk place statements, hs, S => by
    rw [Scope.tree] at hs
    have hstmts := walks_checkStmts statements (Tree.forall_mem_subtrees_of_node hs)
      { S with locals := [] :: S.locals }
    exact (h.walks_visit .typing place.id).after
      (h.walks_inScope none hstmts fun _ hs => hs.pushBlock place.id)

theorem walks_checkStmts : (ss : List Stmt) →
    (∀ t ∈ Stmt.trees ss, t ∈ d.body.tree.subtrees) →
    (S : Surroundings) → Walks b I (·.IsInside row d S) (fun _ => True) (Stmt.listChecks S ss)
      (checkStmts ss)
  | [], _, _ => walks_pure.imp fun _ _ => trivial
  | s :: ss, hs, S => by
    rw [Stmt.trees, List.forall_mem_cons] at hs
    have hfirst := walks_checkStmt s hs.1 S
    exact hfirst.bind (walks_checkStmts ss hs.2 { S with locals := s.after S.locals })

end

end Statements

theorem walks_checkParameters (h : b.Invariant row I) {d : FunctionDecl} (ps : List Parameter)
    (hps : ∀ p ∈ ps, ⟨p.place, .parameter p.name⟩ ∈ b.tree.preorder) (S : Surroundings)
    (locals : List Local) (hS : S.locals = [locals]) : Walks b I (·.IsInside row d S)
      (·.IsInside row d { S with locals := [(ps.map Parameter.local).reverse ++ locals] }) []
      (ps.forM checkParameter) := by
  induction ps generalizing S locals with
  | nil =>
    refine walks_pure.imp fun s hs => ?_
    rwa [List.map_nil, List.reverse_nil, List.nil_append, ← hS]
  | cons p ps ih =>
    rw [List.forall_mem_cons] at hps
    have hfirst : Walks b I (·.IsInside row d S)
        (·.IsInside row d { S with locals := S.locals.declare p.local }) [] (checkParameter p) :=
      (h.walks_visit .typing p.place.id).after
        (h.walks_declareLocal hps.1 rfl p.name fun s x hx hs => hs.declare (l := p.local) hx)
    have hrest := ih hps.2 { S with locals := S.locals.declare p.local } (p.local :: locals)
      (by rw [hS]; rfl)
    rw [List.map_cons, List.reverse_cons, List.append_assoc]
    exact hfirst.after hrest

theorem walks_checkFunction (h : b.Invariant row I) {d : FunctionDecl} (hd : d ∈ b.allFunctions) :
    Walks b I p p d.checks (checkFunction d) := by
  have hparameters : ∀ p ∈ d.parameters, ⟨p.place, .parameter p.name⟩ ∈ b.tree.preorder := by
    intro p hp
    refine preorder_subset_of_mem_allFunctions hd ?_
    rw [FunctionDecl.tree, Tree.preorder, List.mem_cons, Tree.mem_preorders]
    refine .inr ⟨p.tree, ?_, by simp [Parameter.tree, Tree.preorder]⟩
    simp only [List.mem_append]
    exact .inl (.inl (List.mem_map_of_mem hp))
  have hstart : Walks b I (·.IsInside row d { d.surroundings with locals := [[]] })
      (·.IsInside row d d.surroundings) [] (d.parameters.forM checkParameter) := by
    have hstart := h.walks_checkParameters (d := d) d.parameters hparameters
      { d.surroundings with locals := [[]] } [] rfl
    rwa [List.append_nil] at hstart
  have hbody := walks_checkScope hd h d.body d.body.tree.self_mem_subtrees d.surroundings
  have hreturns : Walks b I (·.IsInside row d d.surroundings) (·.IsInside row d d.surroundings) []
      (d.returns.toList.forM fun t => visit .typing t.place.id) := by
    cases d.returns with
    | none => exact walks_pure
    | some t => exact (h.walks_visit .typing t.place.id).after walks_pure
  intro done c hdone hc hp
  have hall := (h.walks_visit (p := p) .typing d.place.id).after
    (h.walks_inScope (row d.place.id) (hstart.after (hreturns.after hbody))
      fun s _ => ⟨ScopeStack.shows_push (.inl rfl) d.place.id _, rfl, rfl, rfl, rfl⟩)
  have hrow : c.annotations.symbols.get? d.place.id = row d.place.id :=
    h.symbols_eq hc d.node (node_mem_preorder hd) rfl
  rw [← hrow] at hall
  exact hall hdone hc hp

theorem walks_checkMembers (h : b.Invariant row I) (ms : List Member)
    (hms : ∀ m ∈ ms, m.tree ∈ b.tree.subtrees)
    (hfunctions : ∀ m ∈ ms, ∀ d ∈ m.functions, d ∈ b.allFunctions) (Γ : Locals) :
    Walks b I (·.Shows row Γ) (fun _ => True) (Member.listChecks Γ ms) (ms.forM checkMember) := by
  induction ms generalizing Γ with
  | nil => exact walks_pure.imp fun _ _ => trivial
  | cons m ms ih =>
    rw [List.forall_mem_cons] at hms hfunctions
    match m with
    | .variable d =>
      have hfirst := h.walks_checkVariable (q := (·.Shows row (Γ.declare d.local))) hms.1 Γ
        (fun _ hs => hs) fun _ _ hx hs => hs.declare (l := d.local) hx
      exact hfirst.bind (ih hms.2 hfunctions.2 _)
    | .function d =>
      exact (h.walks_checkFunction (hfunctions.1 d List.mem_cons_self)).bind
        (ih hms.2 hfunctions.2 Γ)

theorem walks_checkDeclaration (h : b.Invariant row I) {d : Declaration}
    (hd : d ∈ b.declarations) :
    Walks b I (·.entries = []) (·.entries = []) d.checks (checkDeclaration d) := by
  have htree := tree_mem_subtrees_of_mem hd
  have hfunctions : ∀ e ∈ d.functions, e ∈ b.allFunctions := fun e he =>
    List.mem_flatMap.2 ⟨d, hd, he⟩
  match d with
  | .function d => exact h.walks_checkFunction (hfunctions d List.mem_cons_self)
  | .variable d =>
    exact h.walks_checkVariable htree [] (fun s hs => s.shows_empty hs) fun s x _ hs => by
      rw [ScopeStack.declare, hs]
      exact hs
  | .classDecl d =>
    have hmembers := h.walks_checkMembers d.members
      (fun m hm => Tree.mem_subtrees_of_mem_children htree (List.mem_map_of_mem hm))
      (fun m hm e he => hfunctions e (List.mem_flatMap.2 ⟨m, hm, he⟩)) [[]]
    intro done c hdone hc hp
    exact (h.walks_visit (p := (·.entries = [])) .typing d.place.id).after
      (h.walks_inScope (c.annotations.symbols.get? d.place.id) hmembers
        fun s _ => ScopeStack.shows_push (.inr rfl) d.place.id _) hdone hc hp

/-- What is true in front of the last phase is true behind it, with all checks done. -/
theorem checkBlock (h : b.Invariant row I) {c : Context} (hc : I [] c)
    (hscopes : c.scopes.entries = []) : I b.checks ((Analyzing.checkBlock b).run c).2 := by
  have hall : Walks b I (·.entries = []) (·.entries = []) b.checks (Analyzing.checkBlock b) := by
    refine (h.walks_visit .typing b.place.id).after ?_
    rw [checks]
    exact walks_forM b.declarations fun d hd => h.walks_checkDeclaration hd
  exact (hall (by simp) hc hscopes).1

end Block.Invariant

end Sable
