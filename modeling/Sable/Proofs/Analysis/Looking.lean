import Sable.Proofs.Analysis.Reporting
import Sable.Proofs.Analysis.Walking

/-!
# Looking up identifiers

An identifier in an expression means the local that its scopes show, or else what its name means in
the whole unit. If that is a variable or a function, its symbol is noted; otherwise, and only then,
the identifier is reported as unknown.

## Main definitions

* `Use`: an identifier in an expression, with the locals that it can name.
* `Context.meaning?`: the symbol of the variable or function that is meant.
* `Context.Looked`: what the last phase found out about some uses.
* `Expr.Apart`: what else can be unknown in an expression stands at other places.

## Main statements

* `Analyzing.looks_typeExpr`: the identifiers of an expression.
* `Block.invariant_hasLooked`: the identifiers of the checks that are done.
-/
namespace Sable

/-! ## Uses of names -/

/-- An identifier in an expression, with the locals that it can name. -/
structure Use where
  locals : Locals
  node : NodeId
  name : Ident

def Expr.use? (Γ : Locals) : Expr → Option Use
  | .value place (.identifier name) => some ⟨Γ, place.id, name⟩
  | _ => none

theorem Expr.use?_eq_some {Γ : Locals} {e : Expr} {u : Use} (h : e.use? Γ = some u) :
    ∃ place name, e = .value place (.identifier name) ∧ u = ⟨Γ, place.id, name⟩ := by
  unfold use? at h
  split at h
  · next place name => exact ⟨place, name, rfl, (Option.some.inj h).symm⟩
  · simp at h

theorem Expr.node_of_use? {Γ : Locals} {e : Expr} {u : Use} (h : e.use? Γ = some u) :
    u.node = e.id := by
  obtain ⟨place, name, rfl, rfl⟩ := use?_eq_some h
  rfl

/-- The identifiers of an expression, from left to right. -/
def Expr.uses (Γ : Locals) (e : Expr) : List Use := e.parts.filterMap (Expr.use? Γ)

def Check.uses (k : Check) : List Use := k.exprs.flatMap fun (Γ, e) => e.uses Γ

def Block.uses (b : Block) : List Use := b.checks.flatMap Check.uses

theorem Block.uses_eq (b : Block) : b.uses = b.exprs.filterMap fun e => e.2.use? e.1 := by
  simp only [uses, exprs, List.filterMap_flatMap, List.filterMap_map]
  rfl

theorem Block.mem_uses {b : Block} {u : Use} :
    u ∈ b.uses ↔ ∃ e ∈ b.exprs, e.2.use? e.1 = some u := by
  rw [uses_eq, List.mem_filterMap]

/-- No identifier is used twice. -/
theorem Block.Numbered.nodup_uses {b : Block} (hb : b.Numbered) : (b.uses.map Use.node).Nodup := by
  rw [uses_eq, List.Nodup, List.pairwise_map, List.pairwise_filterMap]
  refine (List.pairwise_map.1 hb.nodup_exprs).imp fun {e e'} hne u hu u' hu' => ?_
  rwa [Expr.node_of_use? hu, Expr.node_of_use? hu']

/-- Whether the symbol is that of a variable or of a function. -/
def Context.isNamed (c : Context) (x : SymbolId) : Bool := (c.symbol? x).any Symbol.isValue

/-- The variable or the function that a node declares. -/
def Context.declared? (c : Context) (n : NodeId) : Option SymbolId :=
  (c.annotations.symbols.get? n).filter c.isNamed

/-- The variable or the function that is meant. -/
def Context.meaning? (c : Context) (u : Use) : Option SymbolId :=
  match u.locals.lookup? u.name.name with
  | some l => c.declared? l.node
  | none => (c.globals.get? u.name.name).filter c.isNamed

def Use.unknown (u : Use) : SemanticError := .symbolNotFound u.name.name u.name.span

/-- The error is about an unknown name at one of these spans. -/
def SemanticError.isUnknownAt (spans : List Span) : SemanticError → Bool
  | .symbolNotFound _ span => decide (span ∈ spans)
  | _ => false

theorem SemanticError.IsOther.isUnknownAt_eq {spans : List Span} {e : SemanticError}
    (h : e.IsOther (· ∉ spans)) : e.isUnknownAt spans = false := by
  cases e with
  | symbolNotFound _ span => exact decide_eq_false h
  | _ => rfl

/-! ## What was looked up -/

namespace Context

variable {c₀ c c' : Context} {spans : List Span} {us : List Use}

/-- Behind `c₀`, these uses were looked up. -/
structure Looked (c₀ : Context) (spans : List Span) (us : List Use) (c : Context) : Prop where
  eq : ∃ library scopes visits errors symbols resolvedTypes members labels, c = { c₀ with
    library, scopes, visits, errors, annotations := { c₀.annotations with
      symbols, resolvedTypes, members, labels } }
  isApart : c₀.library.IsApart
  interns : c₀.library.Interns c.library
  symbols_eq : ∀ n ∉ us.map Use.node,
    c.annotations.symbols.get? n = c₀.annotations.symbols.get? n
  symbols_use : ∀ u ∈ us, c.annotations.symbols.get? u.node = c₀.meaning? u
  declared : ∀ u ∈ us, ∀ l, u.locals.lookup? u.name.name = some l → (c₀.declared? l.node).isSome
  errors_eq : c.errors.filter (·.isUnknownAt spans) = c₀.errors.filter (·.isUnknownAt spans) ++
    (us.filter fun u => (c₀.meaning? u).isNone).map Use.unknown

namespace Looked

theorem refl (hc : c₀.library.IsApart) : c₀.Looked spans [] c₀ :=
  ⟨⟨_, _, _, _, _, _, _, _, rfl⟩, hc, .refl _, fun _ _ => rfl, by simp, by simp, by simp⟩

theorem isApart_library (h : c₀.Looked spans us c) : c.library.IsApart :=
  h.interns.isApart h.isApart

theorem globals_eq (h : c₀.Looked spans us c) : c.globals = c₀.globals := by
  obtain ⟨_, _, _, _, _, _, _, _, rfl⟩ := h.eq
  rfl

theorem frame (h : c₀.Looked spans us c) (scopes : ScopeStack SymbolId) (visits : List Visit) :
    c₀.Looked spans us { c with scopes, visits } := by
  refine ⟨?_, h.isApart, h.interns, h.symbols_eq, h.symbols_use, h.declared,
    h.errors_eq⟩
  obtain ⟨_, _, _, _, _, _, _, _, rfl⟩ := h.eq
  exact ⟨_, _, _, _, _, _, _, _, rfl⟩

/-- What keeps the context has looked up nothing. -/
theorem keeps (h : c₀.Looked spans us c) (hkeeps : c.Keeps c')
    (herrors : ∃ es, c'.errors = c.errors ++ es ∧ ∀ e ∈ es, e.IsOther (· ∉ spans)) :
    c₀.Looked spans us c' := by
  have hsymbols : c'.annotations.symbols = c.annotations.symbols := by
    obtain ⟨_, _, _, _, _, _, rfl⟩ := hkeeps.eq
    rfl
  obtain ⟨es, heq, hes⟩ := herrors
  have hnone : es.filter (·.isUnknownAt spans) = [] :=
    List.filter_eq_nil_iff.2 fun e he => by simp [(hes e he).isUnknownAt_eq]
  refine ⟨?_, h.isApart, h.interns.trans hkeeps.interns, ?_, ?_, h.declared, ?_⟩
  · obtain ⟨_, _, _, _, _, _, _, _, rfl⟩ := h.eq
    obtain ⟨_, _, _, _, _, _, rfl⟩ := hkeeps.eq
    exact ⟨_, _, _, _, _, _, _, _, rfl⟩
  · rw [hsymbols]
    exact h.symbols_eq
  · rw [hsymbols]
    exact h.symbols_use
  · rw [heq, List.filter_append, hnone, List.append_nil, h.errors_eq]

theorem isNamed_eq (h : c₀.Looked spans us c) : c.isNamed = c₀.isNamed :=
  funext h.interns.any_isValue

theorem lookup?_eq {u : Use} (h : c₀.Looked spans us c)
    (hshows : c.scopes.Shows c₀.declared? u.locals) :
    (c.lookup? u.name.name).filter c.isNamed = c₀.meaning? u := by
  rw [meaning?, lookup?, hshows.lookup?_eq, h.globals_eq, h.isNamed_eq]
  cases hl : u.locals.lookup? u.name.name with
  | none => rfl
  | some l =>
    obtain ⟨x, hx⟩ := Option.isSome_iff_exists.1 (hshows.isSome _ l hl)
    have hnamed := (Option.filter_eq_some_iff.1 hx).2
    simp [hx, hnamed]

end Looked

end Context

namespace Analyzing

variable {α β : Type} {c₀ c : Context} {spans : List Span} {Γ : Locals} {us us' : List Use}

theorem run_typeIdentifier (node : NodeId) (name : Ident) (c : Context) :
    ((typeIdentifier node name).run c).2 =
      match (c.lookup? name.name).filter c.isNamed with
      | some x => { c with annotations := { c.annotations with
          symbols := c.annotations.symbols.insert node x } }
      | none => { c with errors := c.errors ++ [.symbolNotFound name.name name.span] } := by
  rw [typeIdentifier, run_get_bind]
  cases hx : c.lookup? name.name with
  | none => rfl
  | some x =>
    cases hs : c.symbol? x with
    | none =>
      rw [Option.bind_some, hs, Option.filter_some, Context.isNamed, hs]
      rfl
    | some s =>
      rw [Option.bind_some, hs, Option.filter_some, Context.isNamed, hs, Option.map_some,
        Option.any_some]
      dsimp only
      split
      · rfl
      · rfl

/-- Where the scopes show the locals, the step looks up these uses, and does not touch the
scopes. -/
def Looks (c₀ : Context) (spans : List Span) (Γ : Locals) (us : List Use) (m : Analyzing α) :
    Prop :=
  ∀ ⦃done c⦄, ((done ++ us).map Use.node).Nodup → c₀.Looked spans done c →
    c.scopes.Shows c₀.declared? Γ →
    c₀.Looked spans (done ++ us) (m.run c).2 ∧ (m.run c).2.scopes = c.scopes

theorem Quiet.looks {m : Analyzing α} (h : m.Quiet (· ∉ spans)) : Looks c₀ spans Γ [] m := by
  intro done c _ hc _
  rw [List.append_nil]
  have hkeeps := h.keeps c hc.isApart_library
  exact ⟨hc.keeps hkeeps (h.reports c), hkeeps.scopes_eq⟩

theorem Looks.bind {m : Analyzing α} {f : α → Analyzing β} (hm : Looks c₀ spans Γ us m)
    (hf : ∀ x, Looks c₀ spans Γ us' (f x)) : Looks c₀ spans Γ (us ++ us') (m >>= f) := by
  intro done c hnodup hc hshows
  rw [← List.append_assoc] at hnodup ⊢
  rw [List.map_append] at hnodup
  obtain ⟨hc', hscopes⟩ := hm hnodup.of_append_left hc hshows
  rw [← List.map_append] at hnodup
  obtain ⟨hc'', hscopes'⟩ := hf _ hnodup hc' (by rwa [hscopes])
  exact ⟨hc'', hscopes'.trans hscopes⟩

/-- A quiet step in front of the uses. -/
theorem Looks.after {m : Analyzing α} {f : α → Analyzing β} (hm : m.Quiet (· ∉ spans))
    (hf : ∀ x, Looks c₀ spans Γ us (f x)) : Looks c₀ spans Γ us (m >>= f) :=
  hm.looks.bind hf

/-- A quiet step behind the uses. -/
theorem Looks.before {m : Analyzing α} {f : α → Analyzing β} (hm : Looks c₀ spans Γ us m)
    (hf : ∀ x, (f x).Quiet (· ∉ spans)) : Looks c₀ spans Γ us (m >>= f) := by
  rw [← List.append_nil us]
  exact hm.bind fun x => (hf x).looks

theorem looks_typeIdentifier {u : Use} (hrow : c₀.annotations.symbols.get? u.node = none)
    (hspan : u.name.span ∈ spans) : Looks c₀ spans u.locals [u] (typeIdentifier u.node u.name) := by
  intro done c hnodup hc hshows
  have hnew : u.node ∉ done.map Use.node := by
    rw [List.map_append, List.nodup_append] at hnodup
    exact fun h => hnodup.2.2 _ h _ (by simp) rfl
  have hdeclared : ∀ v ∈ done ++ [u], ∀ l, v.locals.lookup? v.name.name = some l →
      (c₀.declared? l.node).isSome := by
    rw [List.forall_mem_append, List.forall_mem_singleton]
    exact ⟨hc.declared, hshows.isSome _⟩
  rw [run_typeIdentifier, hc.lookup?_eq hshows]
  cases hx : c₀.meaning? u with
  | none =>
    refine ⟨⟨?_, hc.isApart, hc.interns, fun n hn => hc.symbols_eq n ?_, ?_, hdeclared, ?_⟩, rfl⟩
    · obtain ⟨_, _, _, _, _, _, _, _, rfl⟩ := hc.eq
      exact ⟨_, _, _, _, _, _, _, _, rfl⟩
    · exact fun h => hn (by simp [List.mem_append, List.mem_map.1 h])
    · rw [List.forall_mem_append, List.forall_mem_singleton, hx]
      exact ⟨hc.symbols_use, (hc.symbols_eq _ hnew).trans hrow⟩
    · have hunknown : u.unknown.isUnknownAt spans = true := decide_eq_true hspan
      change (c.errors ++ [u.unknown]).filter _ = _
      simp [List.filter_append, hc.errors_eq, hunknown, hx]
  | some x =>
    refine ⟨⟨?_, hc.isApart, hc.interns, fun n hn => ?_, ?_, hdeclared, ?_⟩, rfl⟩
    · obtain ⟨_, _, _, _, _, _, _, _, rfl⟩ := hc.eq
      exact ⟨_, _, _, _, _, _, _, _, rfl⟩
    · rw [List.map_append, List.mem_append, not_or] at hn
      rw [OrderedMap.get?_insert, if_neg (by simpa using hn.2), hc.symbols_eq n hn.1]
    · rw [List.forall_mem_append, List.forall_mem_singleton]
      have hne : ∀ v ∈ done, v.node ≠ u.node := fun v hv h => hnew (h ▸ List.mem_map_of_mem hv)
      refine ⟨fun v hv => ?_, ?_⟩
      · rw [OrderedMap.get?_insert, if_neg (hne v hv)]
        exact hc.symbols_use v hv
      · rw [OrderedMap.get?_insert, if_pos rfl, hx]
    · simp [hc.errors_eq, hx]

end Analyzing

/-! ## Expressions -/

/-- Where names can be unknown: identifiers at the spans, and all else at other places. -/
def Expr.Apart (spans : List Span) : Expr → Prop
  | .value _ (.identifier name) => name.span ∈ spans
  | .value place _ | .unary place .. | .binary place .. => place.span ∉ spans
  | .access _ _ _ member => member.span ∉ spans
  | .call .. | .cast .. | .index .. => True

/-- A part of an expression that was not yet looked at. -/
def Context.IsAhead (c : Context) (spans : List Span) (e : Expr) : Prop :=
  e.Apart spans ∧ c.annotations.symbols.get? e.id = none

namespace Analyzing

variable {c₀ : Context} {spans : List Span}

/-- A rule, with the operands in front of it. -/
theorem Looks.noting {Γ : Locals} {us : List Use} {rule : Analyzing (Option SymbolId)}
    (h : Looks c₀ spans Γ us rule) (node : NodeId) : Looks c₀ spans Γ us (noting node rule) := by
  rw [noting_eq]
  exact Looks.after (quiet_visit _ _) fun _ => h.before fun type => quiet_noteType node type

mutual

theorem looks_typeExpr (Γ : Locals) : (e : Expr) → (∀ part ∈ e.parts, c₀.IsAhead spans part) →
    Looks c₀ spans Γ (e.uses Γ) (typeExpr e)
  | .value place v, h => by
    obtain ⟨hapart, hrow⟩ := h _ List.mem_cons_self
    refine Looks.noting ?_ place.id
    by_cases hv : ∃ name, v = .identifier name
    · obtain ⟨name, rfl⟩ := hv
      exact looks_typeIdentifier (u := ⟨Γ, place.id, name⟩) hrow hapart
    · have hv' : ∀ name, v ≠ .identifier name := fun name hname => hv ⟨name, hname⟩
      have huses : Expr.uses Γ (.value place v) = [] := by
        cases v with
        | identifier name => exact absurd rfl (hv' name)
        | _ => rfl
      rw [huses]
      refine (quiet_typeLiteral hv' ?_).looks
      cases v with
      | identifier name => exact absurd rfl (hv' name)
      | _ => exact hapart
  | .unary place op operand, h => by
    rw [Expr.parts, List.forall_mem_cons] at h
    exact Looks.noting ((looks_typeExpr Γ operand h.2).before fun type =>
      quiet_withType _ fun type => quiet_typeUnary op type h.1.1) place.id
  | .binary place op left right, h => by
    rw [Expr.parts, List.forall_mem_cons, List.forall_mem_append] at h
    have huses : Expr.uses Γ (.binary place op left right) = left.uses Γ ++ right.uses Γ :=
      List.filterMap_append
    rw [huses]
    exact Looks.noting ((looks_typeExpr Γ left h.2.1).bind fun _ =>
      (looks_typeExpr Γ right h.2.2).before fun _ => quiet_withType _ fun _ =>
        quiet_withType _ fun _ => quiet_typeBinary op _ _ h.1.1) place.id
  | .access place kind object member, h => by
    rw [Expr.parts, List.forall_mem_cons] at h
    exact Looks.noting ((looks_typeExpr Γ object h.2).before fun type =>
      quiet_withType _ fun type => quiet_typeAccess place kind type h.1.1) place.id
  | .call place callee arguments, h => by
    rw [Expr.parts, List.forall_mem_cons, List.forall_mem_append] at h
    have huses : Expr.uses Γ (.call place callee arguments) =
        callee.uses Γ ++ (Expr.listParts arguments).filterMap (Expr.use? Γ) :=
      List.filterMap_append
    rw [huses]
    exact Looks.noting ((looks_typeExpr Γ callee h.2.1).bind fun _ =>
      (looks_typeExprs Γ arguments h.2.2).before fun _ => quiet_withType _ fun _ =>
        quiet_typeCall _ _ _ _) place.id
  | .cast place operand target, h => by
    rw [Expr.parts, List.forall_mem_cons] at h
    exact Looks.noting ((looks_typeExpr Γ operand h.2).before fun type => quiet_get.bind fun _ =>
      quiet_withType _ fun _ => quiet_withType _ fun _ => quiet_typeCast _ _ _) place.id
  | .index place target subscript, h => by
    rw [Expr.parts, List.forall_mem_cons, List.forall_mem_append] at h
    have huses : Expr.uses Γ (.index place target subscript) =
        target.uses Γ ++ subscript.uses Γ := List.filterMap_append
    rw [huses]
    exact Looks.noting ((looks_typeExpr Γ target h.2.1).bind fun _ =>
      (looks_typeExpr Γ subscript h.2.2).before fun _ => quiet_withType _ fun _ =>
        quiet_withType _ fun _ => quiet_typeIndex _ _ _) place.id

theorem looks_typeExprs (Γ : Locals) : (es : List Expr) →
    (∀ part ∈ Expr.listParts es, c₀.IsAhead spans part) →
    Looks c₀ spans Γ ((Expr.listParts es).filterMap (Expr.use? Γ)) (typeExprs es)
  | [], _ => (quiet_pure []).looks
  | e :: es, h => by
    rw [Expr.listParts, List.forall_mem_append] at h
    rw [Expr.listParts, List.filterMap_append]
    exact (looks_typeExpr Γ e h.1).bind fun _ => (looks_typeExprs Γ es h.2).before fun _ =>
      quiet_pure _

end

end Analyzing

/-! ## Checks -/

namespace Block

open Analyzing

variable {b : Block} {c₀ : Context} {spans : List Span}

/-- What else can be unknown stands at other places than the identifiers. -/
structure Apart (b : Block) (spans : List Span) : Prop where
  exprs : ∀ e ∈ b.exprs, e.2.Apart spans
  jumps : ∀ n ∈ b.tree.preorder, ∀ label, n.head = .goto label → label.span ∉ spans

/-- The identifiers of these checks, the first ones of the unit, were looked up. -/
structure HasLooked (b : Block) (spans : List Span) (c₀ : Context) (ks : List Check) (c : Context) :
    Prop where
  isPrefix : ks <+: b.checks
  looked : c₀.Looked spans (ks.flatMap Check.uses) c

theorem nodup_uses_of_prefix (hb : b.Numbered) {ks : List Check} (h : ks <+: b.checks) :
    ((ks.flatMap Check.uses).map Use.node).Nodup := by
  obtain ⟨ks', hks⟩ := h
  have hnodup := hb.nodup_uses
  rw [uses, ← hks, List.flatMap_append, List.map_append] at hnodup
  exact hnodup.of_append_left

theorem does_of_looks (hb : b.Numbered) {k : Check} {Γ : Locals} {m : Analyzing Unit}
    (hm : k ∈ b.checks → Looks c₀ spans Γ k.uses m) :
    Does b (b.HasLooked spans c₀) (·.Shows c₀.declared? Γ) k m := by
  intro done c hdone hc hshows
  have huses : (done ++ [k]).flatMap Check.uses = done.flatMap Check.uses ++ k.uses := by
    rw [List.flatMap_append, List.flatMap_singleton]
  have hnodup := nodup_uses_of_prefix hb hdone
  rw [huses] at hnodup
  obtain ⟨hc', hscopes⟩ := hm (hdone.subset (by simp)) hnodup hc.looked hshows
  exact ⟨⟨hdone, huses ▸ hc'⟩, hscopes⟩

theorem does_of_quiet {k : Check} {p : ScopeStack SymbolId → Prop} {m : Analyzing Unit}
    (hm : m.Quiet (· ∉ spans)) (hk : k.uses = []) : Does b (b.HasLooked spans c₀) p k m := by
  intro done c hdone hc _
  have huses : (done ++ [k]).flatMap Check.uses = done.flatMap Check.uses := by
    rw [List.flatMap_append, List.flatMap_singleton, hk, List.append_nil]
  have hkeeps := hm.keeps c hc.looked.isApart_library
  refine ⟨⟨hdone, ?_⟩, hkeeps.scopes_eq⟩
  rw [huses]
  exact hc.looked.keeps hkeeps (hm.reports c)

/-- The identifiers of the checks that are done were looked up. -/
theorem invariant_hasLooked (hb : b.Numbered) (hapart : b.Apart spans)
    (hrows : ∀ n ∈ b.tree.preorder, n.kind.isValue = true → (c₀.declared? n.id).isSome)
    (hfree : ∀ e ∈ b.exprs, c₀.annotations.symbols.get? e.2.id = none) :
    b.Invariant c₀.declared? (b.HasLooked spans c₀) := by
  have hexpr : ∀ {k Γ e}, k ∈ b.checks → (Γ, e) ∈ k.exprs →
      Looks c₀ spans Γ (e.uses Γ) (typeExpr e) := by
    intro k Γ e hk he
    refine looks_typeExpr Γ e fun part hpart => ?_
    have hmem : (Γ, part) ∈ b.exprs :=
      List.mem_flatMap.2 ⟨k, hk, List.mem_flatMap.2 ⟨_, he, List.mem_map_of_mem hpart⟩⟩
    exact ⟨hapart.exprs _ hmem, hfree _ hmem⟩
  have huses : ∀ {k Γ e}, Check.exprs k = [(Γ, e)] → k.uses = e.uses Γ := fun h => by
    rw [Check.uses, h, List.flatMap_singleton]
  refine
    { frame := fun scopes visits h => ⟨h.isPrefix, h.looked.frame scopes visits⟩
      symbols_eq := fun {ks c} h n hn hkind => ?_
      isSome := hrows
      expr := fun Γ e _ => does_of_looks hb fun hk => ?_
      condition := fun Γ e _ => does_of_looks hb fun hk => ?_
      initializer := fun Γ _ e _ _ => does_of_looks hb fun hk => ?_
      returns := fun Γ place value _ d _ _ => does_of_looks hb fun hk => ?_
      loopControl := fun place inLoop => does_of_quiet (quiet_checkLoopControl place) rfl
      goto := fun place label d hd hnode => does_of_quiet (quiet_checkGoto place
        (hapart.jumps _ (Invariant.mem_preorder_of_mem_body hd hnode) label rfl)) rfl }
  · have hrow : c.annotations.symbols.get? n.id = c₀.annotations.symbols.get? n.id := by
      refine h.looked.symbols_eq _ fun hmem => ?_
      obtain ⟨u, hu, hid⟩ := List.mem_map.1 hmem
      obtain ⟨k, hk, hu⟩ := List.mem_flatMap.1 hu
      obtain ⟨e, he, hu⟩ := mem_uses.1 (List.mem_flatMap.2 ⟨k, h.isPrefix.subset hk, hu⟩)
      refine hb.id_notMem_bindings he ?_
      rw [← Expr.node_of_use? hu, hid]
      refine List.mem_map_of_mem (List.mem_filter.2 ⟨hn, ?_⟩)
      revert hkind
      cases n.kind <;> simp [NodeKind.isValue, NodeKind.isBinding]
    obtain ⟨x, hx⟩ := Option.isSome_iff_exists.1 (hrows n hn hkind)
    rw [hrow, hx, (Option.filter_eq_some_iff.1 hx).1]
  · rw [huses rfl]
    exact (hexpr hk List.mem_cons_self).before fun _ => quiet_pure ()
  · rw [huses rfl, checkCondition_eq]
    exact (hexpr hk List.mem_cons_self).before fun found => quiet_compareCondition e found
  · rw [huses rfl]
    exact Looks.after quiet_get fun c =>
      (hexpr hk List.mem_cons_self).before fun found => quiet_compareInitializer _ e found
  · rw [checkReturn_eq]
    refine Looks.after (quiet_visit _ _) fun _ => Looks.before ?_ fun found =>
      quiet_compareReturn place value found
    cases value with
    | none => exact (quiet_pure none).looks
    | some e =>
      rw [huses rfl]
      exact hexpr hk List.mem_cons_self

end Block

end Sable
