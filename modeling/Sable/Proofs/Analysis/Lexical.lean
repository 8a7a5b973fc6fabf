import Sable.Proofs.Analysis.Looking
import Sable.Proofs.Typing.Parsed
import Sable.Proofs.Typing.Placed
import Sable.Proofs.Typing.Spelling

/-!
# Identifiers mean what stands around them

What an identifier in an expression means is told by its place in the tree: the latest declaration
of its name in the innermost scope, loop, function or class around it that has one in front of it,
up to the first function or class, and otherwise what the name means in the whole unit.

## Main definitions

* `Context.denotes?`: the symbol that a name denotes among given declarations.

## Main statements

* `Block.identifiers_analyze`: the identifiers of a parsed unit.
-/
namespace Sable

/-- The symbol that a name denotes where the declarations of `frames` are known. A name of the whole
unit is that of a dependency, or else of a class, or else of a variable or a function; of several
the first counts. -/
def Context.denotes? (c : Context) (deps : List Library) (b : Block) (frames : List Frame)
    (name : String) : Option SymbolId :=
  match Frame.find? frames name with
  | some node => c.annotations.symbols.get? node
  | none => (deps.findSome? (·.global? name)).or
      ((c.denoted? (b.classes.map ClassDecl.entry) name).or
        (c.denoted? (b.values.map Member.entry) name))

theorem Declaration.preorder_subset_of_mem {d : Declaration} {m : Member} (hm : m ∈ d.members) :
    m.tree.preorder ⊆ d.tree.preorder := by
  match d with
  | .classDecl d =>
    intro n hn
    rw [Declaration.tree, ClassDecl.tree, Tree.preorder, List.mem_cons, Tree.mem_preorders]
    exact .inr ⟨_, List.mem_map_of_mem hm, hn⟩
  | .function d | .variable d =>
    obtain rfl := List.mem_singleton.1 hm
    exact List.Subset.refl _

namespace Block

open Context

variable {b : Block} {deps : List Library} {target : Library}

/-! ## In front of the last phase -/

/-- Every variable and every function has its symbol. -/
theorem Numbered.isSome_declared? (hb : b.Numbered) (h : IsFresh deps target) {n : Node}
    (hn : n ∈ b.tree.preorder) (hkind : n.kind.isValue = true) :
    ((b.withSymbols deps target).declared? n.id).isSome := by
  have hbound : ∀ {name type}, (b.withSymbols deps target).Bound n.id name true type →
      ((b.withSymbols deps target).declared? n.id).isSome := by
    rintro name type ⟨x, s, hx, -, hs, -, hvalue, -⟩
    simp [declared?, isNamed, symbol?, hx, hs, hvalue]
  have hmem : n ∈ b.tree.declarations := by
    refine List.mem_filter.2 ⟨hn, ?_⟩
    revert hkind
    cases n.kind <;> simp [NodeKind.isValue, NodeKind.isBinding]
  rw [b.declarations_tree] at hmem
  obtain ⟨d, hd, hmem⟩ := List.mem_flatMap.1 hmem
  rw [d.declarations_tree] at hmem
  obtain ⟨m, hm, hmem⟩ := List.mem_flatMap.1 hmem
  have hmember := hb.hasMember_withSymbols h d hd m hm
  obtain d | d := m
  · obtain rfl : n = ⟨d.place, .variable d.name⟩ := by simpa [Member.tree] using hmem
    exact hbound hmember
  · rw [Member.tree, d.declarations_tree, List.mem_cons] at hmem
    rcases hmem with rfl | hmem
    · exact hbound hmember.bound
    · obtain ⟨l, hl, rfl⟩ := List.mem_map.1 hmem
      obtain ⟨x, -, hx, -⟩ := hmember.bound
      have hlocal := (hmember.holds x hx).bound l hl
      have hlabel : l.isLabel = false := by
        revert hkind
        cases l <;> simp [LocalDecl.node, Node.kind, Head.kind, NodeKind.isValue, LocalDecl.isLabel]
      rw [BoundLocal, hlabel, ← l.id_node] at hlocal
      exact hbound hlocal

/-- No expression has a symbol yet. -/
theorem Numbered.symbols_expr (hb : b.Numbered) (h : IsFresh deps target) {e : Locals × Expr}
    (he : e ∈ b.exprs) : (b.withSymbols deps target).annotations.symbols.get? e.2.id = none := by
  have hbindings := hb.id_notMem_bindings he
  rw [b.bindings_tree] at hbindings
  rw [(hb.binds_withSymbols h).binds.symbols _ hbindings, (hb.finds_withTypes h).symbols_eq]
  refine (hb.withClasses_spec h).2.2.1 _ fun hmem => ?_
  obtain ⟨d, hd, hid⟩ := List.mem_map.1 hmem
  obtain ⟨hroot, hkind⟩ := root_mem_preorder he
  rw [← Expr.id_root] at hid
  rw [hb.node_inj hroot (classNode_mem_preorder hd) hid.symm] at hkind
  simp [Node.kind, Head.kind, NodeKind.isExpression] at hkind

/-! ## Where identifiers stand -/

/-- The places of the identifiers in expressions. -/
def useSpans (b : Block) : List Span := b.uses.map fun u => u.name.span

/-- An identifier is a node of the tree. -/
theorem exists_node_of_mem_uses {u : Use} (hu : u ∈ b.uses) :
    ∃ place, place.id = u.node ∧ ⟨place, .value (.identifier u.name)⟩ ∈ b.tree.preorder := by
  obtain ⟨⟨Γ, e⟩, he, heq⟩ := mem_uses.1 hu
  obtain ⟨place, name, rfl, rfl⟩ := Expr.use?_eq_some heq
  exact ⟨place, rfl, (Numbered.root_mem_preorder he).1⟩

theorem Spelled.span_ne (hs : b.Spelled) {n m : Node} (hn : n ∈ b.tree.preorder)
    (hm : m ∈ b.tree.preorder) (hne : n ≠ m) {x y : Ident} (hx : x ∈ n.head.names)
    (hy : y ∈ m.head.names) : x.span ≠ y.span := by
  have hnodup := hs.nodup_spans
  rw [Tree.names, List.map_flatMap, List.nodup_flatMap] at hnodup
  have : Std.Symm (Function.onFun List.Disjoint fun n : Node => n.head.names.map Ident.span) :=
    ⟨fun _ _ h => h.symm⟩
  have hdisjoint := hnodup.2.forall hn hm hne
  exact fun heq => hdisjoint (List.mem_map_of_mem hx) (heq ▸ List.mem_map_of_mem hy)

/-- Only identifiers are where identifiers are. -/
theorem Spelled.notMem_useSpans (hs : b.Spelled) {n : Node} (hn : n ∈ b.tree.preorder)
    (hhead : ∀ name, n.head ≠ .value (.identifier name)) {x : Ident} (hx : x ∈ n.head.names) :
    x.span ∉ b.useSpans := by
  intro hmem
  obtain ⟨u, hu, heq⟩ := List.mem_map.1 hmem
  obtain ⟨place, -, hplace⟩ := exists_node_of_mem_uses hu
  refine hs.span_ne hn hplace ?_ hx (by simp [Head.names]) heq.symm
  rintro rfl
  exact hhead u.name rfl

theorem Spelled.apart (hs : b.Spelled) : b.Apart b.useSpans := by
  refine ⟨fun e he => ?_, fun n hn label hhead => ?_⟩
  · obtain ⟨Γ, e⟩ := e
    obtain ⟨hroot, hkind⟩ := Numbered.root_mem_preorder he
    have hbuiltin : e.tree.root.head.isBuiltin = true → e.tree.root.span ∉ b.useSpans := by
      intro hbuiltin hmem
      obtain ⟨u, hu, heq⟩ := List.mem_map.1 hmem
      obtain ⟨place, -, hplace⟩ := exists_node_of_mem_uses hu
      exact hs.ne_builtin _ hroot hkind hbuiltin u.name
        (List.mem_flatMap.2 ⟨_, hplace, by simp [Head.names]⟩) heq
    match e with
    | .value place (.identifier name) =>
      exact List.mem_map.2 ⟨⟨Γ, place.id, name⟩, mem_uses.2 ⟨_, he, rfl⟩, rfl⟩
    | .value _ (.integer _) | .value _ (.float _) | .value _ (.character _) | .value _ (.string _)
    | .value _ (.boolean _) | .value _ .null | .unary .. | .binary .. => exact hbuiltin rfl
    | .access _ _ _ member =>
      exact hs.notMem_useSpans hroot (by simp [Expr.tree]) (by simp [Expr.tree, Head.names])
    | .call .. | .cast .. | .index .. => trivial
  · exact hs.notMem_useSpans hn (by simp [hhead]) (by simp [hhead, Head.names])

/-- The first three phases report no unknown names where expressions and jumps name something. -/
theorem Spelled.filter_unknown_withSymbols (hs : b.Spelled) (hb : b.Numbered)
    (h : IsFresh deps target) {spans : List Span}
    (hspans : ∀ span ∈ spans, ∃ n ∈ b.tree.checked, ∃ name ∈ n.head.names, name.span = span) :
    (b.withSymbols deps target).errors.filter (·.isUnknownAt spans) = [] := by
  have hspan : ∀ {e : SemanticError}, e.span ∉ spans → e.isUnknownAt spans = false := by
    intro e he
    cases e with
    | symbolNotFound _ span => exact decide_eq_false he
    | _ => rfl
  have hname : ∀ {n : Node} {name : Ident}, n ∈ b.tree.preorder → n.kind.isChecked = false →
      name ∈ n.head.names → ∀ e : SemanticError, e.span = name.span → e.isUnknownAt spans = false := by
    intro n name hn hkind hx e he
    refine hspan fun hmem => ?_
    obtain ⟨m, hm, y, hy, heq⟩ := hspans _ hmem
    obtain ⟨hm, hchecked⟩ := List.mem_filter.1 hm
    refine hs.span_ne hn hm ?_ hx hy (he.symm.trans heq.symm)
    rintro rfl
    exact Bool.false_ne_true (hkind.symm.trans hchecked)
  have hdummy : Span.dummy ∉ spans := fun hmem => by
    obtain ⟨m, hm, y, hy, heq⟩ := hspans _ hmem
    exact hs.ne_dummy y (List.mem_flatMap.2 ⟨m, (List.mem_filter.1 hm).1, hy⟩) heq
  have hclasses : (Analyzing.declareClasses b).Reports (·.isUnknownAt spans = false) := by
    refine Analyzing.reports_forM _ fun d hd => Analyzing.reports_declareClass d (fun _ _ => rfl)
      (fun _ => hspan hdummy) ?_
    exact hname (classNode_mem_preorder hd) rfl (by simp [Head.names])
  have htypes : (Analyzing.resolveTypes b.tree).Reports (·.isUnknownAt spans = false) := by
    refine Block.reports_resolveTypes (fun t ht _ => ?_) fun d hd _ => ?_
    · obtain ⟨n, hn, hhead⟩ := mem_writtenTypes.1 ht
      exact hname hn (by simp [Node.kind, hhead, Head.kind, NodeKind.isChecked])
        (by simp [hhead, Head.names]) _ rfl
    · exact hname (node_mem_preorder hd) rfl (by simp [FunctionDecl.node, Head.names]) _ rfl
  obtain ⟨es, heq, hes⟩ := (hb.binds_withSymbols h).errors
  have hsymbols : es.filter (·.isUnknownAt spans) = [] := by
    refine List.filter_eq_nil_iff.2 fun e he => ?_
    obtain ⟨n, hn, name, hname', hspan'⟩ := hes e he
    rw [← b.declarations_tree, Tree.declarations, List.mem_filter] at hn
    rw [Bool.not_eq_true]
    refine hname hn.1 ?_ hname' e hspan'
    revert hn
    cases n.kind <;> simp [NodeKind.isBinding, NodeKind.isChecked]
  rw [heq, List.filter_append, hsymbols, List.append_nil, withTypes, htypes.filter_errors,
    withClasses, hclasses.filter_errors]
  rfl

/-! ## Behind the last phase -/

/-- The identifiers of the checks that are done were looked up. -/
theorem Spelled.invariant_hasLooked (hs : b.Spelled) (hb : b.Numbered) (h : IsFresh deps target) :
    b.Invariant (b.withSymbols deps target).declared?
      (b.HasLooked b.useSpans (b.withSymbols deps target)) :=
  Block.invariant_hasLooked hb hs.apart (fun _ hn hkind => hb.isSome_declared? h hn hkind)
    fun _ he => hb.symbols_expr h he

theorem Numbered.hasLooked_nil (hb : b.Numbered) (h : IsFresh deps target) (spans : List Span) :
    b.HasLooked spans (b.withSymbols deps target) [] (b.withSymbols deps target) :=
  ⟨List.nil_prefix, .refl (hb.isApart_withSymbols h)⟩

/-- All identifiers of the unit are looked up. -/
theorem Spelled.looked (hs : b.Spelled) (hb : b.Numbered) (h : IsFresh deps target) :
    (b.withSymbols deps target).Looked b.useSpans b.uses (b.analyze deps target) :=
  ((hs.invariant_hasLooked hb h).checkBlock (hb.hasLooked_nil h _) (hb.scopes_withSymbols h)).looked

/-- What is true in front of the last phase, and stays true while identifiers are looked up, is true
behind it. -/
theorem Spelled.analyze_of_steps (hs : b.Spelled) (hb : b.Numbered) (h : IsFresh deps target)
    {J : List Check → Context → Prop} (hnil : J [] (b.withSymbols deps target))
    (hframe : ∀ {ks c} scopes visits, J ks c → J ks { c with scopes, visits })
    (hstep : ∀ ⦃k p m⦄, b.Step (b.withSymbols deps target).declared? k p m →
      ∀ ⦃done c⦄, done ++ [k] <+: b.checks →
        b.HasLooked b.useSpans (b.withSymbols deps target) done c → J done c → p c.scopes →
        J (done ++ [k]) (m.run c).2) : J b.checks (b.analyze deps target) := by
  have hinvariant := (hs.invariant_hasLooked hb h).and hframe
    fun _ _ _ hm _ _ hdone hc hJ hp _ => hstep hm hdone hc hJ hp
  exact (hinvariant.checkBlock ⟨hb.hasLooked_nil h _, hnil⟩ (hb.scopes_withSymbols h)).2

/-- What is no expression keeps its symbol. -/
theorem Spelled.symbols_analyze (hs : b.Spelled) (hb : b.Numbered) (h : IsFresh deps target)
    {n : Node} (hn : n ∈ b.tree.preorder) (hkind : n.kind.isExpression = false) :
    (b.analyze deps target).annotations.symbols.get? n.id =
      (b.withSymbols deps target).annotations.symbols.get? n.id := by
  refine (hs.looked hb h).symbols_eq _ fun hmem => ?_
  obtain ⟨u, hu, hid⟩ := List.mem_map.1 hmem
  obtain ⟨place, hplace, hnode⟩ := exists_node_of_mem_uses hu
  rw [hb.node_inj hn hnode (hid.symm.trans hplace.symm)] at hkind
  simp [Node.kind, Head.kind, NodeKind.isExpression] at hkind

/-- What an identifier means is told by its place. -/
theorem Spelled.denotes?_eq (hs : b.Spelled) (hb : b.Numbered) (h : IsFresh deps target) {u : Use}
    (hu : u ∈ b.uses) :
    ((b.analyze deps target).denotes? deps b u.locals.frames u.name.name).filter
      (b.analyze deps target).isNamed = (b.withSymbols deps target).meaning? u := by
  have hlooked := hs.looked hb h
  rw [denotes?, meaning?, Locals.find?_frames, hlooked.isNamed_eq]
  cases hl : u.locals.lookup? u.name.name with
  | some l =>
    -- a local has a symbol in front of the last phase, and no expression has
    have hdeclared := hlooked.declared u hu l hl
    have hrow : (b.analyze deps target).annotations.symbols.get? l.node =
        (b.withSymbols deps target).annotations.symbols.get? l.node := by
      refine hlooked.symbols_eq _ fun hmem => ?_
      obtain ⟨v, hv, hid⟩ := List.mem_map.1 hmem
      obtain ⟨e, he, heq⟩ := mem_uses.1 hv
      rw [declared?, ← hid, Expr.node_of_use? heq, hb.symbols_expr h he] at hdeclared
      simp at hdeclared
    exact congrArg _ hrow
  | none =>
    have hclasses : (b.analyze deps target).denoted? (b.classes.map ClassDecl.entry) u.name.name =
        (b.withSymbols deps target).denoted? (b.classes.map ClassDecl.entry) u.name.name := by
      refine denoted?_congr (fun d hd => ?_) _
      obtain ⟨e, he, rfl⟩ := List.mem_map.1 hd
      exact hs.symbols_analyze hb h (classNode_mem_preorder he) rfl
    have hvalues : (b.analyze deps target).denoted? (b.values.map Member.entry) u.name.name =
        (b.withSymbols deps target).denoted? (b.values.map Member.entry) u.name.name := by
      refine denoted?_congr (fun d hd => ?_) _
      obtain ⟨m, hm, rfl⟩ := List.mem_map.1 hd
      obtain ⟨d, hd, hm⟩ := List.mem_flatMap.1 hm
      have hnode := Declaration.preorder_subset_of_mem (d.values_subset hm) m.node_mem_preorder
      rw [Member.entry, ← m.id_node]
      exact hs.symbols_analyze hb h (preorder_subset_of_mem hd hnode) (by cases m <;> rfl)
    rw [hb.globals_withSymbols h]
    simp only [Option.map_none, hclasses, hvalues]

/-- Identifiers are at places of their own. -/
theorem Spelled.nodup_useSpans (hs : b.Spelled) (hb : b.Numbered) : b.useSpans.Nodup := by
  rw [useSpans, List.Nodup, List.pairwise_map]
  refine (List.pairwise_map.1 hb.nodup_uses).imp_of_mem fun {u v} hu hv hne => ?_
  obtain ⟨place, hid, hu⟩ := exists_node_of_mem_uses hu
  obtain ⟨place', hid', hv⟩ := exists_node_of_mem_uses hv
  refine hs.span_ne hu hv (fun heq => hne ?_) (by simp [Head.names]) (by simp [Head.names])
  rw [← hid, ← hid', (Node.mk.inj heq).1]

/-- What is reported of an identifier. -/
theorem Spelled.filter_errors_analyze (hs : b.Spelled) (hb : b.Numbered) (h : IsFresh deps target)
    {u : Use} (hu : u ∈ b.uses) :
    (b.analyze deps target).errors.filter (·.isUnknownAt [u.name.span]) =
      if ((b.withSymbols deps target).meaning? u).isSome then [] else [u.unknown] := by
  have hmem : u.name.span ∈ b.useSpans := List.mem_map_of_mem hu
  have hsub : (b.analyze deps target).errors.filter (·.isUnknownAt [u.name.span]) =
      ((b.analyze deps target).errors.filter (·.isUnknownAt b.useSpans)).filter
        (·.isUnknownAt [u.name.span]) := by
    rw [List.filter_filter]
    refine List.filter_congr fun e _ => ?_
    cases e with
    | symbolNotFound _ span =>
      by_cases heq : span = u.name.span
      · simp [SemanticError.isUnknownAt, heq, hmem]
      · simp [SemanticError.isUnknownAt, heq]
    | _ => rfl
  have hself : b.uses.filter (fun v => decide (v.name.span = u.name.span)) = [u] := by
    have hnodup := hs.nodup_useSpans hb
    obtain ⟨us, vs, huses⟩ := List.append_of_mem hu
    rw [useSpans, huses, List.map_append, List.map_cons, List.nodup_middle, List.nodup_cons,
      ← List.map_append, List.mem_map] at hnodup
    have hnone : ∀ ws ⊆ us ++ vs, ws.filter (fun v => decide (v.name.span = u.name.span)) = [] :=
      fun ws hws => List.filter_eq_nil_iff.2 fun v hv => by
        simpa using fun heq => hnodup.1 ⟨v, hws hv, heq⟩
    rw [huses, List.filter_append, List.filter_cons, hnone us (List.subset_append_left _ _),
      hnone vs (List.subset_append_right _ _)]
    simp
  have huses : ∀ span ∈ b.useSpans, ∃ n ∈ b.tree.checked, ∃ name ∈ n.head.names,
      name.span = span := by
    intro span hspan
    obtain ⟨v, hv, rfl⟩ := List.mem_map.1 hspan
    obtain ⟨place, -, hplace⟩ := exists_node_of_mem_uses hv
    exact ⟨_, List.mem_filter.2 ⟨hplace, rfl⟩, v.name, List.mem_singleton_self _, rfl⟩
  rw [hsub, (hs.looked hb h).errors_eq, hs.filter_unknown_withSymbols hb h huses, List.nil_append,
    List.filter_map, List.filter_filter]
  have hfilter : (fun v : Use => ((·.isUnknownAt [u.name.span]) ∘ Use.unknown) v &&
      ((b.withSymbols deps target).meaning? v).isNone) = fun v =>
        ((b.withSymbols deps target).meaning? v).isNone && decide (v.name.span = u.name.span) := by
    funext v
    simp [Use.unknown, SemanticError.isUnknownAt, Bool.and_comm]
  rw [hfilter, ← List.filter_filter, hself]
  cases hmeaning : (b.withSymbols deps target).meaning? u <;> simp [hmeaning]

/-- The identifiers in the expressions of a parsed unit. If what is denoted at the place of an
identifier is a variable or a function, this is the symbol of the identifier. Otherwise it has no
symbol, and it is reported once as unknown. -/
theorem identifiers_analyze {lexer : Lexer} {source : String}
    (hparse : Block.parse (lexer.tokenize source) source = .ok b) (h : IsFresh deps target)
    {place : Place} {name : Ident} {frames : List Frame}
    (hplaced : (⟨place, .value (.identifier name)⟩, frames) ∈ b.tree.placed []) :
    let c := b.analyze deps target
    let found := (c.denotes? deps b frames name.name).filter c.isNamed
    c.annotations.symbols.get? place.id = found ∧
      c.errors.filter (·.isUnknownAt [name.span]) =
        if found.isSome then [] else [.symbolNotFound name.name name.span] := by
  have hb := numbered_of_parse hparse
  have hs := spelled_of_parse hparse
  obtain ⟨⟨Γ, e⟩, he, hroot, rfl⟩ := exists_mem_exprs hplaced rfl
  obtain rfl : e = .value place (.identifier name) := by
    cases e <;> simp_all [Expr.tree]
  have hu : ⟨Γ, place.id, name⟩ ∈ b.uses := mem_uses.2 ⟨_, he, rfl⟩
  have hfound := hs.denotes?_eq hb h hu
  dsimp only at hfound ⊢
  rw [hfound]
  exact ⟨(hs.looked hb h).symbols_use _ hu, hs.filter_errors_analyze hb h hu⟩

/-- A variable is not yet known in its own initializer, where its name is that of a parameter; the
last name is unknown. -/
theorem identifiers_analyze_shadowed :
    let source := "fn f(x: Byte) { for (var x: Byte = x; ; ) { x; } y; }"
    ∃ b, Block.parse ((Lexer.ofVocabulary .standard).tokenize source) source = .ok b ∧
      (b.tree.placed []).filterMap (fun p => match p.1.head with
        | .value (.identifier name) => some (name.name, Frame.find? p.2 name.name)
        | _ => none) = [("x", some 1), ("x", some 4), ("y", none)] ∧
      ∀ place name frames, (⟨place, .value (.identifier name)⟩, frames) ∈ b.tree.placed [] →
        let c := b.analyze [.core 0] (.new 1 "unit")
        let found := (c.denotes? [.core 0] b frames name.name).filter c.isNamed
        c.annotations.symbols.get? place.id = found ∧
          c.errors.filter (·.isUnknownAt [name.span]) =
            if found.isSome then [] else [.symbolNotFound name.name name.span] := by
  intro source
  have hfound : (Block.parse ((Lexer.ofVocabulary .standard).tokenize source) source).toOption.map
      (fun b => (b.tree.placed []).filterMap (fun p => match p.1.head with
        | .value (.identifier name) => some (name.name, Frame.find? p.2 name.name)
        | _ => none)) = some [("x", some 1), ("x", some 4), ("y", none)] := by
    decide +kernel
  obtain ⟨b, hparse, hfound⟩ := exists_of_toOption_map hfound
  exact ⟨b, hparse, hfound, fun place name frames =>
    identifiers_analyze hparse (isFresh_core (by decide) "unit")⟩

end Block

end Sable
