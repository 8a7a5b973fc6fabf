import Mathlib.Data.Set.Function
import Sable.Proofs.Analysis.Checking
import Sable.Proofs.Analysis.Enrolling
import Sable.Proofs.Analysis.Leading
import Sable.Proofs.Analysis.Lexical
import Sable.Proofs.Analysis.Pointing
import Sable.Proofs.Symbol.Tables

/-!
# Declarations and symbols correspond

Behind an analysis, the nodes that declare a name and the symbols that a node declares correspond to
each other one to one. All other symbols of the library are types that were interned. This does not
depend on whether there are errors.

## Main definitions

* `Block.owner?`: the function or the class that a node stands in.
* `Context.Ledger`: the symbols of nodes, and no others but interned types.

## Main statements

* `Block.Regular.ledger_analyze`: the symbols behind an analysis.
* `Block.declarations_analyze`: the correspondence, for parsed units.
-/
namespace Sable

open Sable.Symbol (Record Parents)

/-! ## Interned types -/

namespace Library

variable {lib lib' : Library} {x : SymbolId} {r : Record}

theorem Interns.record (h : lib.Interns lib') (hr : lib.record? x = some r) :
    lib'.record? x = some r := by
  obtain ⟨s, hs, hrecord⟩ := record?_eq_some.1 hr
  exact record?_eq_some.2 ⟨s, h.symbol?_mono hs, hrecord⟩

/-- What is new is a type that no node declares. -/
theorem Interns.record_cases (h : lib.Interns lib') (hr : lib'.record? x = some r) :
    lib.record? x = some r ∨
      r.declaration = none ∧ ∃ form, r.sort = .type form ∧ form.IsMade := by
  obtain ⟨s, hs, rfl⟩ := record?_eq_some.1 hr
  cases hold : lib.symbol? x with
  | some t =>
    rw [h.symbol?_mono hold] at hs
    exact .inl (record?_eq_some.2 ⟨t, hold, congrArg Symbol.record (Option.some.inj hs)⟩)
  | none =>
    have hne : lib.symbol? x ≠ some s := by simp [hold]
    obtain ⟨n, form, hform, hmade⟩ := (h.isMade hs).resolve_left hne
    obtain ⟨s', t, hs', hkind, -, rfl⟩ := form?_eq_some.1 hform
    obtain rfl := Option.some.inj (hs'.symm.trans hs)
    refine .inr ⟨(h.undeclared hs).resolve_left hne, t.form, ?_, hmade⟩
    rw [Symbol.record, Symbol.sort, hkind, SymbolKind.sort]

end Library

/-! ## The symbols of a context -/

namespace Context

variable {c c' : Context} {ns ns' : List Node} {owner : NodeId → Option Node}

/-- These nodes have symbols of their own, and all other symbols of the library's own are types that
no node declares. -/
structure Ledger (owner : NodeId → Option Node) (ns : List Node) (c : Context) : Prop where
  enrolled : ∀ n ∈ ns, c.Enrolled owner n
  own : ∀ {x r}, c.library.record? x = some r → x.library = c.library.id →
    (∃ n ∈ ns, c.annotations.symbols.get? n.id = some x) ∨
      r.declaration = none ∧ ∃ form, r.sort = .type form ∧ form.IsMade

theorem Ledger.enrolls (h : c.Ledger owner ns) (henrolls : c.Enrolls owner ns' c')
    (hnodup : ((ns ++ ns').map Node.id).Nodup) : c'.Ledger owner (ns ++ ns') := by
  rw [List.map_append, List.nodup_append] at hnodup
  have hrow : ∀ n ∈ ns, c'.annotations.symbols.get? n.id = c.annotations.symbols.get? n.id :=
    fun n hn => henrolls.symbols_eq _ fun hn' => hnodup.2.2 _ (List.mem_map_of_mem hn) _ hn' rfl
  refine ⟨fun n hn => ?_, fun {x r} hr hlibrary => ?_⟩
  · rcases List.mem_append.1 hn with hn | hn
    · exact (h.enrolled n hn).mono henrolls.persists (hrow n hn) (fun hr _ => henrolls.record hr)
        henrolls.errors
    · exact henrolls.enrolled n hn
  · rcases henrolls.new hr with hr | ⟨n, hn, hx⟩
    · refine (h.own hr (hlibrary.trans henrolls.id_eq)).imp_left ?_
      rintro ⟨n, hn, hx⟩
      exact ⟨n, List.mem_append_left _ hn, (hrow n hn).trans hx⟩
    · exact .inl ⟨n, List.mem_append_right _ hn, hx⟩

/-- Types may be interned, and other nodes may get the symbols of these nodes. -/
theorem Ledger.interns (h : c.Ledger owner ns) (hinterns : c.library.Interns c'.library)
    (hrows : ∀ n ∈ ns, c'.annotations.symbols.get? n.id = c.annotations.symbols.get? n.id)
    (herrors : c.errors ⊆ c'.errors) : c'.Ledger owner ns := by
  have hpersists : c.Persists c' :=
    ⟨hinterns.id_eq, fun hr => ⟨_, hinterns.record hr, rfl, rfl⟩⟩
  refine ⟨fun n hn => ?_, fun {x r} hr hlibrary => ?_⟩
  · exact (h.enrolled n hn).mono hpersists (hrows n hn) (fun hr _ => hinterns.record hr) herrors
  · rcases hinterns.record_cases hr with hr | hnew
    · refine (h.own hr (hlibrary.trans hinterns.id_eq)).imp_left ?_
      rintro ⟨n, hn, hx⟩
      exact ⟨n, hn, (hrows n hn).trans hx⟩
    · exact .inr hnew

/-- The parents of what stands in this function or this class, if in any. -/
def parentsOf (c : Context) : Option Node → Parents
  | none => {}
  | some m =>
    if m.kind = .function then ⟨c.annotations.symbols.get? m.id, none⟩
    else ⟨none, c.annotations.symbols.get? m.id⟩

/-- A symbol that a node declares is the symbol of this node. -/
theorem Ledger.symbols_of_declared (h : c.Ledger owner ns) {n : Node} {sort : SymbolSort}
    {x : SymbolId} (hx : c.Declared n sort x) : c.annotations.symbols.get? n.id = some x := by
  obtain ⟨hlibrary, r, hr, -, hdeclaration⟩ := hx
  rcases h.own hr hlibrary with ⟨m, hm, hx⟩ | ⟨hnone, -⟩
  · obtain ⟨y, r', -, hy, -, hr', hof, -⟩ := h.enrolled m hm
    obtain rfl := Option.some.inj (hx.symm.trans hy)
    obtain rfl := Option.some.inj (hr.symm.trans hr')
    rw [hof.declaration_eq] at hdeclaration
    rwa [← Option.some.inj hdeclaration]
  · rw [hnone] at hdeclaration
    cases hdeclaration

theorem Ledger.parents_eq (h : c.Ledger owner ns) {o : Option Node} {p : Parents}
    (hp : c.Belongs o p) : p = c.parentsOf o := by
  cases hp with
  | unit => rfl
  | function hf hx => rw [parentsOf, if_pos hf, h.symbols_of_declared hx]
  | classBody hd hy => rw [parentsOf, if_neg (by simp [hd]), h.symbols_of_declared hy]

end Context

/-! ## Where declarations stand -/

theorem FunctionDecl.isInner_children (d : FunctionDecl) :
    ∀ n ∈ Tree.preorders (d.parameters.map Parameter.tree ++ d.returns.toList.map WrittenType.tree ++
      [d.body.tree]), n.IsInner := by
  intro n hn
  obtain ⟨t, ht, hn⟩ := Tree.mem_preorders.1 hn
  simp only [List.mem_append, List.mem_map, List.mem_singleton] at ht
  rcases ht with (⟨p, -, rfl⟩ | ⟨t, -, rfl⟩) | rfl
  · exact p.isInner n hn
  · exact t.isInner n hn
  · exact d.body.isInner n hn

namespace Block

/-- The function or the class that a node stands in, if any. -/
def owner? (b : Block) (n : NodeId) : Option Node :=
  ((ParentMap.build b.tree).ancestors n).find? fun m => m.kind == .function || m.kind == .classDecl

/-- The node of a class. -/
def classNodes (b : Block) : List Node := b.classes.map fun d => ⟨d.place, .classDecl d.name⟩

variable {b : Block} {deps : List Library} {target : Library}

/-- A member stands in a declaration, whatever this is. -/
theorem paths_subset_of_mem {d : Declaration} (hd : d ∈ b.declarations) :
    d.tree.paths [⟨b.place, .block⟩] ⊆ b.tree.paths [] :=
  Tree.paths_subset_of_mem_children (t := b.tree) [] (List.mem_map_of_mem hd)

namespace Numbered

variable (hb : b.Numbered)
include hb

theorem owner?_eq {n : Node} {above : List Node} (hn : (n, above) ∈ b.tree.paths []) :
    b.owner? n.id = above.find? fun m => m.kind == .function || m.kind == .classDecl := by
  rw [owner?, ParentMap.ancestors_build hb.nodup_ids hn]

/-- A declaration of the unit stands in nothing. -/
theorem owner?_root {d : Declaration} (hd : d ∈ b.declarations) : b.owner? d.tree.root.id = none := by
  rw [hb.owner?_eq (paths_subset_of_mem hd (d.tree.root_mem_paths _))]
  rfl

theorem owner?_member {d : ClassDecl} (hd : d ∈ b.classes) {m : Member} (hm : m ∈ d.members) :
    b.owner? m.place.id = some ⟨d.place, .classDecl d.name⟩ := by
  have hpath : (m.node, [⟨d.place, .classDecl d.name⟩, ⟨b.place, .block⟩]) ∈
      d.tree.paths [⟨b.place, .block⟩] := by
    have hmember : m.tree ∈ d.tree.children := List.mem_map_of_mem hm
    refine Tree.paths_subset_of_mem_children _ hmember ?_
    cases m <;> exact List.mem_cons_self
  rw [← m.id_node, hb.owner?_eq (paths_subset_of_mem (mem_classes.1 hd) hpath)]
  rfl

/-- What is declared in a function stands in no other function. -/
theorem owner?_local {d : FunctionDecl} (hd : d ∈ b.allFunctions) {l : LocalDecl}
    (hl : l ∈ d.locals) : b.owner? l.place.id = some d.node := by
  obtain ⟨above, hsubset⟩ := exists_paths_subset hd
  have hmem : l.node ∈ d.tree.declarations := by
    rw [d.declarations_tree]
    exact List.mem_cons_of_mem _ (List.mem_map_of_mem hl)
  have hinner : l.node ≠ d.node := by
    rintro heq
    cases l <;> simp [LocalDecl.node, FunctionDecl.node] at heq
  have hnode := (List.mem_filter.1 hmem).1
  obtain ⟨as, hpath⟩ := (Tree.mem_preorder_iff above).1 hnode
  rw [← l.id_node, hb.owner?_eq (hsubset hpath)]
  rw [FunctionDecl.tree, Tree.paths, List.mem_cons] at hpath
  rcases hpath with heq | hpath
  · exact absurd (Prod.mk.inj heq).1 hinner
  · rw [Tree.find?_of_mem_allPaths _ (fun m hm => ?_) hpath]
    · rfl
    · have hm := d.isInner_children m hm
      simp [hm.1, hm.2.1]

/-! ## The phases -/

theorem nodup_declaring : ((b.classNodes ++ b.tree.declarations).map Node.id).Nodup := by
  rw [List.map_append, List.nodup_append]
  refine ⟨?_, hb.nodup_bindings, ?_⟩
  · rw [classNodes, List.map_map]
    exact hb.nodup_classes
  · rintro n hn m hm rfl
    rw [classNodes, List.map_map] at hn
    obtain ⟨d, hd, rfl⟩ := List.mem_map.1 hn
    exact hb.class_notMem_bindings hd hm

end Numbered

/-- What declares a name is a class or is bound behind the classes. -/
theorem mem_declaring {n : Node} :
    n ∈ b.classNodes ++ b.tree.declarations ↔ n ∈ b.tree.preorder ∧ n.head.declared?.isSome := by
  rw [List.mem_append]
  constructor
  · rintro (hn | hn)
    · obtain ⟨d, hd, rfl⟩ := List.mem_map.1 hn
      exact ⟨classNode_mem_preorder hd, rfl⟩
    · obtain ⟨hn, hkind⟩ := List.mem_filter.1 hn
      refine ⟨hn, ?_⟩
      rw [Node.kind] at hkind
      cases hhead : n.head <;> simp_all [Head.kind, NodeKind.isBinding, Head.declared?]
  · rintro ⟨hn, hsome⟩
    by_cases hkind : n.kind = .classDecl
    · obtain ⟨d, hd, rfl⟩ := exists_class_of_mem_preorder hn hkind
      exact .inl (List.mem_map_of_mem hd)
    · refine .inr (List.mem_filter.2 ⟨hn, ?_⟩)
      rw [Node.kind] at hkind ⊢
      cases hhead : n.head <;> simp_all [Head.kind, NodeKind.isBinding, Head.declared?]

/-- Nothing is there at the beginning. -/
theorem ledger_atStart (owner : NodeId → Option Node) (h : IsFresh deps target)
    (hblank : target.IsBlank) : (b.atStart deps target).Ledger owner [] := by
  refine ⟨by simp, fun {x r} hr hlibrary => ?_⟩
  obtain ⟨dependencies, -, heq, -⟩ := Library.library_start deps hblank
  obtain ⟨s, hs, -⟩ := Library.record?_eq_some.1 hr
  have hapart : (b.atStart deps target).library.IsApart := Context.isApart_start h
  rw [hapart.symbol?, if_pos hlibrary] at hs
  have hempty : (b.atStart deps target).library.symbols = #[] := by
    change (Context.start deps target).library.symbols = #[]
    rw [heq]
    rfl
  simp [hempty] at hs

variable (b deps) in
/-- What is interned by an analysis is in the tables of its library. -/
theorem hasTables_analyze (hblank : target.IsBlank) :
    (b.analyze deps target).library.HasTables := by
  refine (b.steps_analyze deps target).keeps ?_ fun lib s _ h => h.step s
  obtain ⟨dependencies, -, heq, -⟩ := Library.library_start deps hblank
  rw [heq]
  exact .of_symbols rfl

/-- The classes have symbols of their own. -/
def HasClasses (b : Block) (c : Context) : Prop :=
  ∀ d ∈ b.classes, ∃ y, c.annotations.symbols.get? d.place.id = some y ∧
    c.Declared ⟨d.place, .classDecl d.name⟩ (.type .classType) y

namespace Regular

variable (hb : b.Regular) (h : IsFresh deps target)
include hb h

theorem enrolls_withClasses :
    (b.atStart deps target).Enrolls b.owner? b.classNodes (b.withClasses deps target) := by
  have hnodes : b.classNodes = b.classes.flatMap fun d => [⟨d.place, .classDecl d.name⟩] :=
    List.map_eq_flatMap ..
  have hnodup := hb.nodup_declaring
  rw [List.map_append, List.nodup_append, hnodes] at hnodup
  rw [hnodes]
  have hapart : (b.atStart deps target).library.IsApart := Context.isApart_start h
  refine Analyzing.enrolls_forM (P := fun c => c.library.IsApart) b.classes hapart hnodup.1
    (fun _ _ _ _ hc henrolls => henrolls.isApart hc) fun d hd c hc _ => ?_
  exact Analyzing.enrolls_declareClass d hc (hb.isPlainName_class hd)
    (hb.owner?_root (mem_classes.1 hd))

theorem hasClasses_withTypes : b.HasClasses (b.withTypes deps target) := by
  have hfinds := hb.finds_withTypes h
  intro d hd
  obtain ⟨x, r, -, hx, hlibrary, hr, hof, -⟩ :=
    (hb.enrolls_withClasses h).enrolled _ (List.mem_map_of_mem hd)
  have hsort := (Prod.mk.inj (Option.some.inj hof.declared?_eq)).2
  refine ⟨x, ?_, hlibrary.trans hfinds.interns.id_eq.symm, r, hfinds.interns.record hr,
    hsort.symm, hof.declaration_eq⟩
  rw [hfinds.symbols_eq]
  exact hx

theorem enrolls_withSymbols : (b.withTypes deps target).Enrolls b.owner? b.tree.declarations
    (b.withSymbols deps target) := by
  have hnodup := hb.nodup_declaring
  rw [List.map_append, List.nodup_append] at hnodup
  have hscopes := hb.scopes_withTypes h
  have hinside : (b.withTypes deps target).Inside none {} :=
    ⟨hb.isApart_withTypes h, .unit, by
      change List.find? _ _ = none
      rw [hscopes, List.find?_nil]⟩
  have hvisits : (b.withTypes deps target).Enrolls b.owner? [] _ :=
    .of_visits (⟨.binding, b.place.id, (b.withTypes deps target).scopes.entries⟩ ::
      (b.withTypes deps target).visits)
  rw [b.declarations_tree]
  rw [b.declarations_tree] at hnodup
  refine hvisits.trans (Analyzing.enrolls_forM
    (P := fun c => c.Inside none {} ∧ b.HasClasses c) b.declarations
    ⟨hinside.enrolls hvisits, hb.hasClasses_withTypes h⟩ hnodup.2.1
    (fun d hd c c' hc henrolls => ?_) fun d hd c hc hnodup => ?_) hnodup.2.1
  · refine ⟨hc.1.enrolls henrolls, fun e he => ?_⟩
    obtain ⟨y, hy, hdeclared⟩ := hc.2 e he
    refine ⟨y, (henrolls.symbols_eq _ fun hmem => ?_).trans hy, henrolls.persists.declared hdeclared⟩
    exact hb.class_notMem_bindings he ((bindings_sublist_of_mem hd).subset hmem)
  · match d with
    | .variable e =>
      rw [Declaration.tree, e.declarations_tree]
      exact Analyzing.enrolls_bindVariable e hc.1 (hb.owner?_root hd)
    | .function e =>
      refine Analyzing.enrolls_bindFunction e hc.1 hnodup (hb.owner?_root hd) fun l hl =>
        hb.owner?_local (List.mem_flatMap.2 ⟨_, hd, ?_⟩) hl
      simp [Declaration.functions]
    | .classDecl e =>
      obtain ⟨y, hy, hdeclared⟩ := hc.2 e (mem_classes.2 hd)
      refine Analyzing.enrolls_bindClass e hc.1.isApart hdeclared hy hnodup
        (fun m hm => hb.owner?_member (mem_classes.2 hd) hm) fun m hm f hf l hl =>
        hb.owner?_local (List.mem_flatMap.2 ⟨_, hd, List.mem_flatMap.2 ⟨m, hm, hf⟩⟩) hl

/-- The symbols behind an analysis. -/
theorem ledger_analyze (hs : b.Spelled) (hblank : target.IsBlank) :
    (b.analyze deps target).Ledger b.owner? (b.classNodes ++ b.tree.declarations) := by
  have hnodup := hb.nodup_declaring
  have hclasses := (ledger_atStart (b := b) b.owner? h hblank).enrolls (hb.enrolls_withClasses h) (by
    rw [List.map_append, List.nodup_append] at hnodup
    exact hnodup.1)
  have hfinds := hb.finds_withTypes h
  have htypes : (Analyzing.resolveTypes b.tree).Grows :=
    reports_resolveTypes (fun _ _ _ => trivial) fun _ _ _ => trivial
  have hchecks : (Analyzing.checkBlock b).Grows :=
    Analyzing.reports_checkBlock (Tree.liesIn_of_forall (fun _ _ _ _ => trivial) _)
  obtain ⟨es, heq, -⟩ := htypes (b.withClasses deps target)
  obtain ⟨es', heq', -⟩ := hchecks (b.withSymbols deps target)
  have hfound : (b.withTypes deps target).Ledger b.owner? b.classNodes := by
    refine hclasses.interns hfinds.interns (fun n _ => by rw [hfinds.symbols_eq]) ?_
    exact heq ▸ List.subset_append_left _ _
  have hbound := hfound.enrolls (hb.enrolls_withSymbols h) hnodup
  refine hbound.interns (hs.looked hb.toNumbered h).interns (fun n hn => ?_)
    (heq' ▸ List.subset_append_left _ _)
  obtain ⟨hn, hsome⟩ := mem_declaring.1 hn
  refine hs.symbols_analyze hb.toNumbered h hn ?_
  rw [Node.kind]
  cases hhead : n.head <;> simp_all [Head.kind, NodeKind.isExpression, Head.declared?]

end Regular

/-- Behind an analysis, the nodes that declare a name and the symbols that a node declares correspond
one to one. A symbol says what its node says. If no error says that its name is taken, its parent is
the symbol of the function or the class that the node stands in, and it has no other. All other
symbols of the library are types that were interned. -/
theorem declarations_analyze {lexer : Lexer} (hlexer : lexer.vocabulary = .standard)
    {source : String} (hparse : Block.parse (lexer.tokenize source) source = .ok b)
    (h : IsFresh deps target) (hblank : target.IsBlank) :
    let c := b.analyze deps target
    Set.BijOn (fun n => c.annotations.symbols.get? n.id)
        {n | n ∈ b.tree.preorder ∧ n.head.declared?.isSome}
        {x | ∃ y s, x = some y ∧ c.library.owned? y = some s ∧ s.declaration.isSome} ∧
      (∀ n ∈ b.tree.preorder, ∀ name sort, n.head.declared? = some (name, sort) →
        ∃ x s, c.annotations.symbols.get? n.id = some x ∧ c.library.owned? x = some s ∧
          s.declaration = some n.id ∧ s.name = name.name ∧ s.span = name.span ∧ s.sort = sort ∧
          (.sameName s.name s.span ∉ c.errors → s.parents = c.parentsOf (b.owner? n.id))) ∧
      ∀ x s, c.library.owned? x = some s → s.declaration = none →
        ∃ form, s.sort = .type form ∧ form.IsMade ∧ c.library.cached? form = some x := by
  have hb := regular_of_parse hlexer hparse
  have hs := spelled_of_parse hparse
  have hledger := hb.ledger_analyze h hs hblank
  have hapart : (b.analyze deps target).library.IsApart :=
    (hs.looked hb.toNumbered h).isApart_library
  intro c
  have hnode : ∀ n ∈ b.tree.preorder, ∀ name sort, n.head.declared? = some (name, sort) →
      ∃ x s, c.annotations.symbols.get? n.id = some x ∧ c.library.owned? x = some s ∧
        s.declaration = some n.id ∧ s.name = name.name ∧ s.span = name.span ∧ s.sort = sort ∧
        (.sameName s.name s.span ∉ c.errors → s.parents = c.parentsOf (b.owner? n.id)) := by
    intro n hn name sort hdeclared
    obtain ⟨x, r, p, hx, hlibrary, hr, hof, hp, hparents⟩ :=
      hledger.enrolled n (mem_declaring.2 ⟨hn, by rw [hdeclared]; rfl⟩)
    obtain ⟨s, hs, rfl⟩ := Library.record?_eq_some.1 hr
    obtain ⟨rfl, rfl⟩ := Prod.mk.inj (Option.some.inj (hdeclared.symm.trans hof.declared?_eq))
    refine ⟨x, s, hx, (hapart.owned?_eq hlibrary).trans hs, hof.declaration_eq, rfl, rfl, rfl,
      fun herror => ?_⟩
    exact (hparents.resolve_right herror).trans (hledger.parents_eq hp)
  have hsymbol : ∀ x s, c.library.owned? x = some s →
      (∃ n ∈ b.classNodes ++ b.tree.declarations, c.annotations.symbols.get? n.id = some x) ∨
        s.declaration = none ∧ ∃ form, s.sort = .type form ∧ form.IsMade := by
    intro x s hx
    have hlibrary := (Library.owned?_eq_some.1 hx).1.symm
    rw [hapart.owned?_eq hlibrary] at hx
    exact hledger.own (Library.record?_eq_some.2 ⟨s, hx, rfl⟩) hlibrary
  refine ⟨⟨?_, ?_, ?_⟩, hnode, fun x s hx hnone => ?_⟩
  · rintro n ⟨hn, hsome⟩
    obtain ⟨⟨name, sort⟩, hdeclared⟩ := Option.isSome_iff_exists.1 hsome
    obtain ⟨x, s, hx, hs, hdeclaration, -⟩ := hnode n hn name sort hdeclared
    exact ⟨x, s, hx, hs, by rw [hdeclaration]; rfl⟩
  · rintro n ⟨hn, hsome⟩ m ⟨hm, hsome'⟩ heq
    obtain ⟨⟨name, sort⟩, hdeclared⟩ := Option.isSome_iff_exists.1 hsome
    obtain ⟨⟨name', sort'⟩, hdeclared'⟩ := Option.isSome_iff_exists.1 hsome'
    obtain ⟨x, s, hx, hs, hdeclaration, -⟩ := hnode n hn name sort hdeclared
    obtain ⟨y, t, hy, ht, hdeclaration', -⟩ := hnode m hm name' sort' hdeclared'
    obtain rfl := Option.some.inj (hx.symm.trans (heq.trans hy))
    obtain rfl := Option.some.inj (hs.symm.trans ht)
    exact hb.node_inj hn hm (Option.some.inj (hdeclaration.symm.trans hdeclaration'))
  · rintro _ ⟨x, s, rfl, hx, hsome⟩
    rcases hsymbol x s hx with ⟨n, hn, hrow⟩ | ⟨hnone, -⟩
    · exact ⟨n, mem_declaring.1 hn, hrow⟩
    · simp [hnone] at hsome
  · rcases hsymbol x s hx with ⟨n, hn, hrow⟩ | ⟨-, form, hsort, hmade⟩
    · obtain ⟨hn, hsome⟩ := mem_declaring.1 hn
      obtain ⟨⟨name, sort⟩, hdeclared⟩ := Option.isSome_iff_exists.1 hsome
      obtain ⟨y, t, hy, ht, hdeclaration, -⟩ := hnode n hn name sort hdeclared
      obtain rfl := Option.some.inj (hrow.symm.trans hy)
      obtain rfl := Option.some.inj (hx.symm.trans ht)
      simp [hnone] at hdeclaration
    · exact ⟨form, hsort, hmade, hasTables_analyze b deps hblank ⟨s, hx, hsort⟩ hmade⟩

/-- A class with a variable and a function, in which a local has the name of a parameter. -/
theorem declarations_analyze_nested :
    let source := "class A { var x: A*; fn f(p: A): A { var p: A; label l; return p; } } var y: A;"
    ∃ b, Block.parse ((Lexer.ofVocabulary .standard).tokenize source) source = .ok b ∧
      (b.tree.preorder.filterMap fun n => n.head.declared?.map fun d =>
        (d.1.name, (b.owner? n.id).map Node.kind)) =
        [("A", none), ("x", some .classDecl), ("f", some .classDecl), ("p", some .function),
          ("p", some .function), ("l", some .function), ("y", none)] ∧
      let c := b.analyze [.core 0] (.new 1 "unit")
      Set.BijOn (fun n => c.annotations.symbols.get? n.id)
          {n | n ∈ b.tree.preorder ∧ n.head.declared?.isSome}
          {x | ∃ y s, x = some y ∧ c.library.owned? y = some s ∧ s.declaration.isSome} ∧
        (∀ n ∈ b.tree.preorder, ∀ name sort, n.head.declared? = some (name, sort) →
          ∃ x s, c.annotations.symbols.get? n.id = some x ∧ c.library.owned? x = some s ∧
            s.declaration = some n.id ∧ s.name = name.name ∧ s.span = name.span ∧ s.sort = sort ∧
            (.sameName s.name s.span ∉ c.errors → s.parents = c.parentsOf (b.owner? n.id))) ∧
        ∀ x s, c.library.owned? x = some s → s.declaration = none →
          ∃ form, s.sort = .type form ∧ form.IsMade ∧ c.library.cached? form = some x := by
  intro source
  have hfound : (Block.parse ((Lexer.ofVocabulary .standard).tokenize source) source).toOption.map
      (fun b => b.tree.preorder.filterMap fun n => n.head.declared?.map fun d =>
        (d.1.name, (b.owner? n.id).map Node.kind)) =
      some [("A", none), ("x", some .classDecl), ("f", some .classDecl), ("p", some .function),
        ("p", some .function), ("l", some .function), ("y", none)] := by
    decide +kernel
  obtain ⟨b, hparse, hfound⟩ := exists_of_toOption_map hfound
  exact ⟨b, hparse, hfound, declarations_analyze rfl hparse (isFresh_core (by decide) "unit")
    (Library.isBlank_new 1 "unit")⟩

end Block

end Sable
