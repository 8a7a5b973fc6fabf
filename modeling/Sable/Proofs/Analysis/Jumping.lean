import Sable.Proofs.Analysis.Annotating
import Sable.Proofs.Analysis.Checking
import Sable.Proofs.Analysis.Integrity
import Sable.Proofs.Analysis.Lexical
import Sable.Proofs.Analysis.Looping
import Sable.Proofs.Typing.Inversion

/-!
# Jumps to labels

A `goto` leads to the first label of its name in the function around it, wherever this stands. The
third phase enters the labels of a function into its table, and the last phase looks there; nothing
else is reported or noted where a jump names its label.

## Main definitions

* `Node.isLabel`: a label of this name.
* `Expr.lookupSpan?`: where an expression can be reported as unknown.
* `Block.HasJumped`: what is known of jumps behind some checks.

## Main statements

* `Analyzing.reports_isOther_typeExpr`: where expressions are reported as unknown.
* `Block.Numbered.labels_eq`: the table of labels of a function.
* `Block.goto_analyze`: the jumps of a parsed unit.
-/
namespace Sable

open Library (HasLocals)

/-! ## Expressions do not jump -/

/-- Where it is reported if a name or a built-in type of the expression itself is unknown. -/
def Expr.lookupSpan? : Expr → Option Span
  | .value _ (.identifier name) => some name.span
  | .value place _ | .unary place .. | .binary place .. => some place.span
  | .access _ _ _ member => some member.span
  | .call .. | .cast .. | .index .. => none

namespace Analyzing

variable {P : Span → Prop}

theorem reports_typeIdentifier_isOther (node : NodeId) {name : Ident} (h : P name.span) :
    (typeIdentifier node name).Reports (·.IsOther P) := by
  have hfail : (do report (.symbolNotFound name.name name.span); return none :
      Analyzing (Option SymbolId)).Reports (·.IsOther P) :=
    (reports_report h).bind fun _ => reports_pure none
  refine reports_get.bind fun c => ?_
  split
  · split
    · exact (reports_annotate _).bind fun _ => reports_pure _
    · exact hfail
  · exact hfail

theorem reports_isOther_applyRule (e : Expr) (types : List (Option SymbolId))
    (h : ∀ span ∈ e.lookupSpan?, P span) : (applyRule e types).Reports (·.IsOther P) := by
  unfold applyRule
  split
  · next place v =>
    by_cases hv : ∃ name, v = .identifier name
    · obtain ⟨name, rfl⟩ := hv
      exact reports_typeIdentifier_isOther place.id (h _ rfl)
    · have hv' : ∀ name, v ≠ .identifier name := fun name hname => hv ⟨name, hname⟩
      refine (quiet_typeLiteral hv' (h _ ?_)).reports
      cases v with
      | identifier name => exact absurd rfl (hv' name)
      | _ => rfl
  · exact (quiet_withType _ fun _ => quiet_typeUnary _ _ (h _ rfl)).reports
  · exact (quiet_withType _ fun _ => quiet_withType _ fun _ =>
      quiet_typeBinary _ _ _ (h _ rfl)).reports
  · exact (quiet_withType _ fun _ => quiet_typeAccess _ _ _ (h _ rfl)).reports
  · exact (quiet_withType _ fun _ => quiet_typeCall _ _ _ _).reports
  · exact (quiet_get.bind fun _ => quiet_withType _ fun _ => quiet_withType _ fun _ =>
      quiet_typeCast _ _ _).reports
  · exact (quiet_withType _ fun _ => quiet_withType _ fun _ => quiet_typeIndex _ _ _).reports
  · exact reports_pure none

/-- Names and built-in types that are unknown are reported where they are looked up. -/
theorem reports_isOther_typeExpr (e : Expr) (h : ∀ part ∈ e.parts, ∀ span ∈ part.lookupSpan?, P span) :
    (typeExpr e).Reports (·.IsOther P) := by
  induction e using Expr.inductionOn with
  | h e ih =>
    have hoperands := reports_operands fun o ho => ih o ho fun part hpart =>
      h part (Expr.parts_subset_of_mem_operands ho hpart)
    have hrule := fun types => reports_isOther_applyRule e types (h e e.mem_parts)
    rw [typeExpr_eq]
    exact ((reports_visit _ _).bind fun _ => hoperands).bind fun types =>
      (hrule types).bind fun type => (quiet_noteType e.id type).reports

/-! ## Labels that are noted -/

theorem labels_applyRule (e : Expr) (types : List (Option SymbolId))
    (hlength : types.length = e.operands.length) (c : Context) :
    ((applyRule e types).run c).2.annotations.labels = c.annotations.labels := by
  obtain ⟨_, -, -, _, _, hnotes⟩ := addsAt_applyRule e types hlength (c := c)
  rw [hnotes]

theorem labels_noteType (node : NodeId) (type : Option SymbolId) (c : Context) :
    ((noteType node type).run c).2.annotations.labels = c.annotations.labels := by
  cases type <;> rfl

theorem labels_typeExprs (es : List Expr)
    (h : ∀ e ∈ es, ∀ c, ((typeExpr e).run c).2.annotations.labels = c.annotations.labels)
    (c : Context) : ((typeExprs es).run c).2.annotations.labels = c.annotations.labels := by
  induction es generalizing c with
  | nil => rfl
  | cons e es ih =>
    rw [List.forall_mem_cons] at h
    rw [typeExprs]
    exact (ih h.2 _).trans (h.1 c)

/-- An expression notes no labels. -/
theorem labels_typeExpr (e : Expr) (c : Context) :
    ((typeExpr e).run c).2.annotations.labels = c.annotations.labels := by
  induction e using Expr.inductionOn generalizing c with
  | h e ih =>
    have hrule := labels_applyRule e ((typeOperands e).run c).1 (length_typeExprs ..)
      ((typeOperands e).run c).2
    rw [run_typeExpr, labels_noteType, hrule]
    exact labels_typeExprs e.operands ih _

theorem Remarks.labels_eq {m : Analyzing Unit} (h : Remarks m) (c : Context) :
    (m.run c).2.annotations.labels = c.annotations.labels := by
  obtain ⟨_, _, hrun⟩ := h c
  rw [hrun]

end Analyzing

open Analyzing

def Check.isGoto : Check → Bool
  | .goto .. => true
  | _ => false

namespace Block.Step

variable {b : Block} {row : NodeId → Option SymbolId} {k : Check} {p : ScopeStack SymbolId → Prop}
  {m : Analyzing Unit}

/-- Only a jump notes a label. -/
theorem labels_eq (h : b.Step row k p m) (hk : k.isGoto = false) (c : Context) :
    (m.run c).2.annotations.labels = c.annotations.labels := by
  cases h with
  | expr Γ _ => exact labels_typeExpr _ c
  | condition Γ _ =>
    rw [checkCondition_eq]
    exact ((remarks_compareCondition _ _).labels_eq _).trans (labels_typeExpr _ c)
  | initializer Γ _ _ =>
    exact ((remarks_compareInitializer _ _ _).labels_eq _).trans (labels_typeExpr _ c)
  | returns Γ _ _ _ =>
    rw [checkReturn_eq]
    refine ((remarks_compareReturn _ _ _).labels_eq _).trans ?_
    split
    · exact labels_typeExpr _ _
    · rfl
  | loopControl place inLoop => exact (remarks_checkLoopControl place).labels_eq c
  | goto _ _ => simp [Check.isGoto] at hk

/-- What else is unknown is reported where it is looked up. -/
theorem reports_isOther {P : Span → Prop} (h : b.Step row k p m) (hk : k.isGoto = false)
    (hP : ∀ e : Expr, e.tree.root ∈ b.tree.preorder → ∀ span ∈ e.lookupSpan?, P span) :
    m.Reports (·.IsOther P) := by
  have hexpr : ∀ {e : Expr}, e.tree.preorder ⊆ b.tree.preorder →
      (typeExpr e).Reports (·.IsOther P) := fun {e} he =>
    reports_isOther_typeExpr e fun part hpart => hP part
      (he (e.preorder_subset_of_mem_parts part hpart part.tree.root_mem_preorder))
  cases h with
  | expr Γ he => exact (hexpr he).bind fun _ => reports_pure ()
  | condition Γ he =>
    rw [checkCondition_eq]
    exact (hexpr he).bind fun _ => (quiet_compareCondition _ _).reports
  | @initializer Γ d e hd he =>
    have hsubset := Tree.preorder_subset_of_mem_children hd (d.initializer_mem_children he)
    exact reports_get.bind fun _ => (hexpr hsubset).bind fun _ =>
      (quiet_compareInitializer _ _ _).reports
  | returns Γ hvalue _ _ =>
    rw [checkReturn_eq]
    refine (reports_visit _ _).bind fun _ => Reports.bind ?_ fun _ =>
      (quiet_compareReturn _ _ _).reports
    unfold typeOption
    split
    · exact hexpr (Tree.preorder_subset_of_mem_children hvalue (Expr.mem_optionTrees rfl))
    · exact reports_pure none
  | loopControl place inLoop => exact (quiet_checkLoopControl place).reports
  | goto _ _ => simp [Check.isGoto] at hk

end Block.Step

/-! ## Labels of functions -/

/-- Whether the node is a label of this name. -/
def Node.isLabel (name : String) (n : Node) : Bool :=
  match n.head with
  | .label label => label.name == name
  | _ => false

/-- The first label of a name in a function, wherever it stands. -/
def FunctionDecl.label? (d : FunctionDecl) (name : String) : Option Node :=
  d.body.tree.preorder.find? (·.isLabel name)

theorem Node.isBinding_of_isLabel {n : Node} {name : String} (h : n.isLabel name = true) :
    n.kind.isBinding = true := by
  unfold isLabel at h
  split at h
  · next hhead => simp [kind, hhead, Head.kind, NodeKind.isBinding]
  · simp at h

theorem LocalDecl.isLabel_node (l : LocalDecl) (name : String) :
    l.node.isLabel name = (l.isLabel && l.name.name == name) := by
  cases l <;> rfl

theorem LocalDecl.lookup_labelEntries (ls : List LocalDecl) (name : String) :
    (labelEntries ls).lookup name = ((ls.map node).find? (·.isLabel name)).map Node.id := by
  induction ls with
  | nil => rfl
  | cons l ls ih =>
    rw [List.map_cons, List.find?_cons, isLabel_node, labelEntries, List.filter_cons]
    cases l.isLabel with
    | false => exact ih
    | true =>
      rw [if_pos rfl, List.map_cons, OrderedMap.lookup_cons, Bool.true_and]
      by_cases h : l.name.name = name
      · rw [if_pos h.symm, beq_iff_eq.2 h, Option.map_some, l.id_node]
      · rw [if_neg (Ne.symm h), beq_eq_false_iff_ne.2 h]
        exact ih

/-- The labels of a function stand in its body. -/
theorem FunctionDecl.lookup_labelEntries (d : FunctionDecl) (name : String) :
    (LocalDecl.labelEntries d.locals).lookup name = (d.label? name).map Node.id := by
  have hparameters : LocalDecl.labelEntries (d.parameters.map .parameter) = [] := by
    simp [LocalDecl.labelEntries, LocalDecl.isLabel]
  have hfilter : (fun n : Node => decide (n.kind.isBinding = true ∧ n.isLabel name = true)) =
      (·.isLabel name) := by
    funext n
    cases h : n.isLabel name with
    | false => simp
    | true => simp [n.isBinding_of_isLabel h]
  rw [locals, LocalDecl.labelEntries_append, hparameters, List.nil_append,
    LocalDecl.lookup_labelEntries, ← d.body.declarations_tree, Tree.declarations, List.find?_filter,
    hfilter, label?]

/-! ## Where jumps stand -/

theorem Check.isExpression_of_mem_nodes {k : Check} (hk : k.isGoto = false) {n : Node}
    (hn : n ∈ k.nodes) : n.kind.isExpression = true := by
  have hnodes : k.nodes = k.exprs.flatMap fun p => p.2.parts.map fun e => e.tree.root := by
    cases k <;> simp_all [isGoto, nodes]
  rw [hnodes, ← filter_nodes] at hn
  exact (List.mem_filter.1 hn).2

theorem FunctionDecl.mem_body_of_mem_checks {d : FunctionDecl} {k : Check} (hk : k ∈ d.checks)
    {n : Node} (hn : n ∈ k.nodes) : n ∈ d.body.tree.preorder := by
  have hmem : n ∈ d.body.tree.checked := by
    rw [← d.body.flatMap_nodes_checks]
    exact List.mem_flatMap.2 ⟨k, hk, hn⟩
  exact (List.mem_filter.1 hmem).1

theorem VariableDecl.isGoto_of_mem_checks {Γ : Locals} {d : VariableDecl} {k : Check}
    (hk : k ∈ d.checks Γ) : k.isGoto = false := by
  obtain ⟨e, -, rfl⟩ := List.mem_map.1 hk
  rfl

theorem Member.exists_function_of_isGoto {Γ : Locals} {ms : List Member} {k : Check}
    (hk : k ∈ Member.listChecks Γ ms) (hgoto : k.isGoto = true) :
    ∃ d ∈ ms.flatMap Member.functions, k ∈ d.checks := by
  induction ms generalizing Γ with
  | nil => simp [listChecks] at hk
  | cons m ms ih =>
    obtain d | d := m
    · rcases List.mem_append.1 hk with hk | hk
      · simp [VariableDecl.isGoto_of_mem_checks hk] at hgoto
      · exact ih hk
    · rcases List.mem_append.1 hk with hk | hk
      · exact ⟨d, List.mem_cons_self, hk⟩
      · obtain ⟨d', hd', hk⟩ := ih hk
        exact ⟨d', List.mem_cons_of_mem _ hd', hk⟩

namespace Block

variable {b : Block} {deps : List Library} {target : Library} {place : Place} {label : Ident}

/-- A jump stands in the body of a function. -/
theorem exists_function_of_goto (h : ⟨place, .goto label⟩ ∈ b.tree.preorder) :
    ∃ d ∈ b.allFunctions, ⟨place, .goto label⟩ ∈ d.body.tree.preorder := by
  obtain ⟨labels, hk⟩ := exists_goto_mem_checks h
  obtain ⟨e, he, hk⟩ := List.mem_flatMap.1 hk
  suffices hd : ∃ d ∈ e.functions, .goto place labels label ∈ d.checks by
    obtain ⟨d, hd, hk⟩ := hd
    exact ⟨d, List.mem_flatMap.2 ⟨e, he, hd⟩,
      FunctionDecl.mem_body_of_mem_checks hk (List.mem_singleton_self _)⟩
  match e with
  | .classDecl e => exact Member.exists_function_of_isGoto hk rfl
  | .function d => exact ⟨d, List.mem_singleton_self d, hk⟩
  | .variable d => exact absurd (VariableDecl.isGoto_of_mem_checks hk) (by simp [Check.isGoto])

/-! ## Labels that are found -/

/-- The table of labels of a function. -/
theorem Numbered.labels_eq (hb : b.Numbered) (h : IsFresh deps target) {d : FunctionDecl}
    (hd : d ∈ b.allFunctions) : ∃ x s g,
      (b.withSymbols deps target).declared? d.place.id = some x ∧
      (b.withSymbols deps target).library.symbol? x = some s ∧ s.function? = some g ∧
      ∀ name, g.labels.get? name = (d.label? name).bind fun n =>
        (b.withSymbols deps target).annotations.symbols.get? n.id := by
  obtain ⟨x, hx, hlocals⟩ := hb.holdsLocals h hd
  obtain ⟨y, hy⟩ := Option.isSome_iff_exists.1
    (hb.isSome_declared? h (node_mem_preorder hd) rfl)
  obtain rfl : x = y :=
    Option.some.inj (hx.symm.trans (Option.filter_eq_some_iff.1 hy).1)
  obtain ⟨s, g, hs, hkind, -, hlabels⟩ := hlocals.locals.entries
  have hrows : ∀ e ∈ LocalDecl.labelEntries d.locals,
      ((b.withSymbols deps target).annotations.symbols.get? e.2).isSome := fun e he => by
    obtain ⟨l, hl, -, hid⟩ := LocalDecl.exists_of_mem_labelEntries he
    obtain ⟨y, -, hy, -⟩ := hb.boundLocal h hd hl
    rw [← hid, hy]
    rfl
  refine ⟨x, s, g, hy, hs, by rw [Symbol.function?, hkind], fun name => ?_⟩
  rw [hlabels, Context.denoted?_eq_bind hrows, d.lookup_labelEntries, Option.bind_map]
  rfl

end Block

/-! ## The analysis of jumps -/

theorem labels_checkGoto (place : Place) (label : Ident) (c : Context) (n : NodeId) :
    ((checkGoto place label).run c).2.annotations.labels.get? n =
      if n = place.id then (c.jump? label.name).or (c.annotations.labels.get? n)
      else c.annotations.labels.get? n := by
  change ((noteLabel place label (c.jump? label.name)).run
    { c with visits := ⟨.typing, place.id, c.scopes.entries⟩ :: c.visits
      }).2.annotations.labels.get? n = _
  cases c.jump? label.name with
  | none => simp; rfl
  | some x =>
    rw [Option.some_or]
    exact OrderedMap.get?_insert _ _ _ _

theorem errors_checkGoto (place : Place) (label : Ident) (c : Context) :
    ((checkGoto place label).run c).2.errors = c.errors ++
      if (c.jump? label.name).isSome then [] else [.symbolNotFound label.name label.span] := by
  change ((noteLabel place label (c.jump? label.name)).run
    { c with visits := ⟨.typing, place.id, c.scopes.entries⟩ :: c.visits }).2.errors = _
  cases c.jump? label.name with
  | none => rfl
  | some x => exact (List.append_nil _).symm

namespace Block

variable {b : Block} {deps : List Library} {target : Library} {place : Place} {label : Ident}
  {d : FunctionDecl} {c₀ c : Context}

/-- What is known of a jump in a function behind some checks: nothing if it is not among them. -/
structure HasJumped (c₀ : Context) (d : FunctionDecl) (place : Place) (label : Ident)
    (ks : List Check) (c : Context) : Prop where
  labels_eq : c.annotations.labels.get? place.id =
    if ⟨place, .goto label⟩ ∈ ks.flatMap Check.nodes then
      (d.label? label.name).bind fun n => c₀.annotations.symbols.get? n.id
    else none
  errors_eq : c.errors.filter (·.isUnknownAt [label.span]) =
    if ⟨place, .goto label⟩ ∈ ks.flatMap Check.nodes ∧ ((d.label? label.name).bind fun n =>
      c₀.annotations.symbols.get? n.id) = none then [.symbolNotFound label.name label.span]
    else []

/-- In its function a jump leads to the first label of the name. -/
theorem Numbered.jump?_eq (hb : b.Numbered) (h : IsFresh deps target) (hd : d ∈ b.allFunctions)
    {ks : List Check} {spans : List Span}
    (hc : b.HasLooked spans (b.withSymbols deps target) ks c)
    (hnearest : c.scopes.nearestFunction? = (b.withSymbols deps target).declared? d.place.id)
    (name : String) : c.jump? name = (d.label? name).bind fun n =>
      (b.withSymbols deps target).annotations.symbols.get? n.id := by
  obtain ⟨x, s, g, hx, hs, hfunction, hlabels⟩ := hb.labels_eq h hd
  have hs' : c.symbol? x = some s := hc.looked.interns.symbol?_mono hs
  rw [Context.jump?, hnearest, hx, Option.bind_some, hs', Option.bind_some, hfunction,
    Option.bind_some, hlabels]

/-- Expressions look up nothing where a jump names its label. -/
theorem Spelled.lookupSpan_ne (hs : b.Spelled) (hmem : ⟨place, .goto label⟩ ∈ b.tree.preorder)
    {e : Expr} (he : e.tree.root ∈ b.tree.preorder) :
    ∀ span ∈ e.lookupSpan?, span ∉ [label.span] := by
  have hne : e.tree.root ≠ ⟨place, .goto label⟩ := fun heq => by
    have hkind := e.isExpression_root
    simp [heq, Node.kind, Head.kind, NodeKind.isExpression] at hkind
  have hlabel : label ∈ (⟨place, .goto label⟩ : Node).head.names := List.mem_singleton_self _
  have hname : ∀ name ∈ e.tree.root.head.names, name.span ∉ [label.span] := fun name hname hspan =>
    hs.span_ne he hmem hne hname hlabel (List.mem_singleton.1 hspan)
  have hbuiltin : e.tree.root.head.isBuiltin = true → e.tree.root.span ∉ [label.span] :=
    fun hbuiltin hspan => hs.ne_builtin _ he e.isExpression_root hbuiltin label
      (List.mem_flatMap.2 ⟨_, hmem, hlabel⟩) (List.mem_singleton.1 hspan).symm
  rintro span hspan
  match e with
  | .value _ (.identifier name) =>
    exact Option.some.inj hspan ▸ hname name (List.mem_singleton_self _)
  | .value _ (.integer _) | .value _ (.float _) | .value _ (.string _) | .value _ (.character _)
  | .value _ (.boolean _) | .value _ .null | .unary .. | .binary .. =>
    exact Option.some.inj hspan ▸ hbuiltin rfl
  | .access _ _ _ member =>
    exact Option.some.inj hspan ▸ hname member (List.mem_singleton_self _)
  | .call .. | .cast .. | .index .. => simp [Expr.lookupSpan?] at hspan

/-- The nodes of the checks that are done are not met again. -/
theorem Numbered.notMem_nodes_of_prefix (hb : b.Numbered) {ks : List Check} {k : Check}
    (hks : ks ++ [k] <+: b.checks) {n : Node} (hn : n ∈ k.nodes) :
    n ∉ ks.flatMap Check.nodes := by
  have hnodup : (b.checks.flatMap Check.nodes).Nodup := by
    rw [b.flatMap_nodes_checks]
    exact hb.nodup_ids.of_map.filter _
  obtain ⟨ks', hks⟩ := hks
  rw [← hks, List.flatMap_append, List.flatMap_append, List.flatMap_singleton] at hnodup
  exact fun hmem => List.disjoint_of_nodup_append hnodup.of_append_left hmem hn

theorem hasJumped_concat (hb : b.Numbered) (hs : b.Spelled) (h : IsFresh deps target)
    (hd : d ∈ b.allFunctions) (hnode : ⟨place, .goto label⟩ ∈ d.body.tree.preorder)
    {k : Check} {p : ScopeStack SymbolId → Prop} {m : Analyzing Unit}
    (hm : b.Step (b.withSymbols deps target).declared? k p m) {ks : List Check}
    (hks : ks ++ [k] <+: b.checks)
    (hc : b.HasLooked b.useSpans (b.withSymbols deps target) ks c)
    (hjumped : HasJumped (b.withSymbols deps target) d place label ks c) (hp : p c.scopes) :
    HasJumped (b.withSymbols deps target) d place label (ks ++ [k]) (m.run c).2 := by
  have hmem : ⟨place, .goto label⟩ ∈ b.tree.preorder :=
    Invariant.mem_preorder_of_mem_body hd hnode
  have hother (hnot : ⟨place, .goto label⟩ ∉ k.nodes)
      (hlabels : (m.run c).2.annotations.labels.get? place.id = c.annotations.labels.get? place.id)
      (herrors : (m.run c).2.errors.filter (·.isUnknownAt [label.span]) =
        c.errors.filter (·.isUnknownAt [label.span])) :
      HasJumped (b.withSymbols deps target) d place label (ks ++ [k]) (m.run c).2 := by
    have hiff : ⟨place, .goto label⟩ ∈ (ks ++ [k]).flatMap Check.nodes ↔
        ⟨place, .goto label⟩ ∈ ks.flatMap Check.nodes := by simp [hnot]
    exact ⟨by simp only [hlabels, hiff, hjumped.labels_eq],
      by simp only [herrors, hiff, hjumped.errors_eq]⟩
  by_cases hk : k.isGoto = true
  · cases hm with
    | @goto place' label' d' hd' hnode' =>
      have hmem' := Invariant.mem_preorder_of_mem_body hd' hnode'
      by_cases heq : (⟨place', .goto label'⟩ : Node) = ⟨place, .goto label⟩
      · obtain ⟨rfl, hlabel⟩ := Node.mk.inj heq
        obtain rfl := Head.goto.inj hlabel
        have hfunction : d'.node = d.node := Option.some.inj
          ((hb.enclosingFunction? hd' hnode').symm.trans (hb.enclosingFunction? hd hnode))
        have hid : d'.place.id = d.place.id := congrArg Node.id hfunction
        have hjump := hb.jump?_eq h hd hc (hid ▸ hp) label'.name
        have hnot := hb.notMem_nodes_of_prefix hks (List.mem_singleton_self _)
        have hmem : ⟨place', .goto label'⟩ ∈
            (ks ++ [Check.goto place' d'.labels label']).flatMap Check.nodes := by simp
        refine ⟨?_, ?_⟩
        · rw [labels_checkGoto, if_pos rfl, hjumped.labels_eq, if_neg hnot, if_pos hmem, hjump,
            Option.or_none]
        · rw [errors_checkGoto, List.filter_append, hjumped.errors_eq, if_neg (hnot ·.1), hjump]
          cases (d.label? label'.name).bind fun n =>
            (b.withSymbols deps target).annotations.symbols.get? n.id <;>
            simp [SemanticError.isUnknownAt]
      · have hid : place.id ≠ place'.id := fun hid => heq (hb.node_inj hmem' hmem hid.symm)
        have hspan : label'.span ≠ label.span := hs.span_ne hmem' hmem heq
          (List.mem_singleton_self _) (List.mem_singleton_self _)
        refine hother (by simpa using Ne.symm heq) (by rw [labels_checkGoto, if_neg hid]) ?_
        rw [errors_checkGoto, List.filter_append]
        split <;> simp [SemanticError.isUnknownAt, hspan]
    | _ => simp [Check.isGoto] at hk
  · rw [Bool.not_eq_true] at hk
    refine hother (fun hn => ?_) (by rw [hm.labels_eq hk]) ?_
    · have hkind := Check.isExpression_of_mem_nodes hk hn
      simp [Node.kind, Head.kind, NodeKind.isExpression] at hkind
    · exact ((hm.reports_isOther hk fun e he => hs.lookupSpan_ne hmem he).mono
        fun e he => he.isUnknownAt_eq).filter_errors c

/-- A `goto` in a parsed unit stands in a function, and this alone is searched for its label. If it
has labels of the name, the jump leads to the symbol of the first one, and it is not reported.
Otherwise it leads nowhere, and it is reported once. -/
theorem goto_analyze {lexer : Lexer} {source : String}
    (hparse : Block.parse (lexer.tokenize source) source = .ok b) (h : IsFresh deps target)
    (hnode : ⟨place, .goto label⟩ ∈ b.tree.preorder) :
    let c := b.analyze deps target
    let errors := c.errors.filter (·.isUnknownAt [label.span])
    ∃ d ∈ b.allFunctions, c.parents.enclosingFunction? place.id = some d.node ∧
      match d.label? label.name with
      | some n => errors = [] ∧ ∃ x, c.annotations.symbols.get? n.id = some x ∧
          c.annotations.labels.get? place.id = some x
      | none => errors = [.symbolNotFound label.name label.span] ∧
          c.annotations.labels.get? place.id = none := by
  intro c errors
  have hb := numbered_of_parse hparse
  have hs := spelled_of_parse hparse
  obtain ⟨d, hd, hbody⟩ := exists_function_of_goto hnode
  have hchecked : ⟨place, .goto label⟩ ∈ b.tree.checked := List.mem_filter.2 ⟨hnode, rfl⟩
  have hnil : HasJumped (b.withSymbols deps target) d place label [] (b.withSymbols deps target) :=
    { labels_eq := by simp [(hb.annotations_withSymbols h).2.2]
      errors_eq := by
        have hspans : ∀ span ∈ [label.span], ∃ n ∈ b.tree.checked, ∃ name ∈ n.head.names,
            name.span = span := fun span hspan =>
          ⟨_, hchecked, label, List.mem_singleton_self _, (List.mem_singleton.1 hspan).symm⟩
        simpa using hs.filter_unknown_withSymbols hb h hspans }
  have hall : HasJumped (b.withSymbols deps target) d place label b.checks c :=
    hs.analyze_of_steps hb h hnil (fun _ _ hc => ⟨hc.labels_eq, hc.errors_eq⟩)
      fun _ _ _ hm _ _ hks hc hjumped hp => hasJumped_concat hb hs h hd hbody hm hks hc hjumped hp
  have hlabels := hall.labels_eq
  have herrors := hall.errors_eq
  rw [b.flatMap_nodes_checks] at hlabels herrors
  rw [if_pos hchecked] at hlabels
  refine ⟨d, hd, (hs.parents_analyze hb h).symm ▸ hb.enclosingFunction? hd hbody, ?_⟩
  cases hlabel : d.label? label.name with
  | none => exact ⟨by simpa [hlabel, hchecked] using herrors, by simpa [hlabel] using hlabels⟩
  | some n =>
    have hn : n ∈ b.tree.preorder :=
      Invariant.mem_preorder_of_mem_body hd (List.mem_of_find?_eq_some hlabel)
    have hbinding := n.isBinding_of_isLabel (List.find?_some hlabel)
    have hkind : n.kind.isExpression = false := by
      revert hbinding
      cases n.kind <;> simp [NodeKind.isBinding, NodeKind.isExpression]
    obtain ⟨x, hx⟩ := Option.isSome_iff_exists.1
      (hb.isSome_symbol h (List.mem_filter.2 ⟨hn, hbinding⟩) :
        ((b.withSymbols deps target).annotations.symbols.get? n.id).isSome)
    exact ⟨herrors.trans (if_neg (by simp [hlabel, hx])), x,
      (hs.symbols_analyze hb h hn hkind).trans hx, by simpa [hlabel, hx] using hlabels⟩

/-- Of two labels with the name of a parameter the first one is found, but not from the other
function. -/
theorem goto_analyze_duplicate :
    let source := "fn f(a: Byte) { goto a; if (a) { label a; } label a; } fn g() { goto a; }"
    ∃ b, Block.parse ((Lexer.ofVocabulary .standard).tokenize source) source = .ok b ∧
      (b.tree.preorder.filter (·.kind == .goto)).map Node.id = [2, 10] ∧
      b.allFunctions.map (fun d => (d.label? "a").map Node.id) = [some 4, none] ∧
      ∀ place label, ⟨place, .goto label⟩ ∈ b.tree.preorder →
        let c := b.analyze [.core 0] (.new 1 "unit")
        let errors := c.errors.filter (·.isUnknownAt [label.span])
        ∃ d ∈ b.allFunctions, c.parents.enclosingFunction? place.id = some d.node ∧
          match d.label? label.name with
          | some n => errors = [] ∧ ∃ x, c.annotations.symbols.get? n.id = some x ∧
              c.annotations.labels.get? place.id = some x
          | none => errors = [.symbolNotFound label.name label.span] ∧
              c.annotations.labels.get? place.id = none := by
  intro source
  have hrun : (Block.parse ((Lexer.ofVocabulary .standard).tokenize source) source).toOption.map
      (fun b => (decide ((b.tree.preorder.filter (·.kind == .goto)).map Node.id = [2, 10]) &&
        decide (b.allFunctions.map (fun d => (d.label? "a").map Node.id) = [some 4, none]) :
          Bool)) = some true := by
    decide +kernel
  obtain ⟨b, hparse, hrun⟩ := exists_of_toOption_map hrun
  simp only [Bool.and_eq_true, decide_eq_true_eq] at hrun
  exact ⟨b, hparse, hrun.1, hrun.2, fun place label hnode =>
    goto_analyze hparse (isFresh_core (by decide) "unit") hnode⟩

end Block

end Sable
