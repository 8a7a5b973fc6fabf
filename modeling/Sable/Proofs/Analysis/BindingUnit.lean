import Sable.Proofs.Analysis.Binding
import Sable.Proofs.Analysis.Classing

/-!
# Binding of whole units

A function registers behind its body, in the class around it or with the whole unit. So after the
third phase every declaration of a unit has its symbol, and the names of the unit are those of
before and then those of its variables and functions, of which the first counts.

## Main definitions

* `Context.HasMember`: a variable or a function is bound, with all that is declared in it.
* `Context.BindsMembers`, `Context.BindsDeclarations`: members of a class or of the unit are bound.
* `Context.Awaits`: the classes have symbols of their own and no members yet.

## Main statements

* `Analyzing.bindsDeclarations`: the third phase.
* `Analyzing.fills`: the third phase, if the classes have symbols of their own.
-/
namespace Sable

open Library (Owner HasMembers withName)
open LocalDecl (names labelEntries)

/-! ## Members -/

namespace Member

def place : Member → Place
  | .variable d => d.place
  | .function d => d.place

/-- The name of a member and its node. -/
def entry (m : Member) : String × NodeId := (m.name.name, m.place.id)

def node : Member → Node
  | .variable d => ⟨d.place, .variable d.name⟩
  | .function d => d.node

theorem node_mem_preorder (m : Member) : m.node ∈ m.tree.preorder := by
  match m with
  | .variable d => simp [node, tree, VariableDecl.tree, Tree.preorder]
  | .function d => simp [node, tree, FunctionDecl.tree, FunctionDecl.node, Tree.preorder]

theorem id_node (m : Member) : m.node.id = m.place.id := by
  cases m <;> rfl

theorem name_mem_names (m : Member) : m.name ∈ m.node.head.names := by
  cases m <;> simp [node, FunctionDecl.node, Head.names, name]

end Member

/-- The names of locals that are taken when their turn comes. -/
def FunctionDecl.takenLocals (d : FunctionDecl) : List Ident :=
  takenNames (fun _ => false) (d.locals.map LocalDecl.name)

def Member.takenLocals (m : Member) : List Ident := m.functions.flatMap FunctionDecl.takenLocals

/-- The names of members that are taken when their turn comes. What is inside of a function comes in
front of its name. -/
def Member.listTaken (taken : String → Bool) : List Member → List Ident
  | [] => []
  | m :: ms => m.takenLocals ++ takenNames taken [m.name] ++
      listTaken (fun n => taken n || decide (n ∈ [m.name.name])) ms

theorem Member.listTaken_append (taken : String → Bool) (ms ms' : List Member) :
    listTaken taken (ms ++ ms') = listTaken taken ms ++
      listTaken (fun n => taken n || decide (n ∈ (ms.map Member.name).map Ident.name)) ms' := by
  induction ms generalizing taken with
  | nil => simp [listTaken]
  | cons m ms ih =>
    simp only [List.cons_append, listTaken, ih, List.append_assoc, List.map_cons, List.mem_cons,
      List.not_mem_nil, or_false, Bool.decide_or, Bool.or_assoc]

theorem perm_append_append {α : Type} (xs ys zs ws : List α) :
    (xs ++ ys ++ (zs ++ ws)).Perm (xs ++ zs ++ (ys ++ ws)) := by
  rw [List.append_assoc, List.append_assoc]
  exact (List.perm_append_comm_assoc ys zs ws).append_left xs

theorem Member.listTaken_perm (taken : String → Bool) (ms : List Member) :
    (listTaken taken ms).Perm
      (takenNames taken (ms.map Member.name) ++ ms.flatMap Member.takenLocals) := by
  induction ms generalizing taken with
  | nil => exact .refl _
  | cons m ms ih =>
    have hnames : takenNames taken ((m :: ms).map Member.name) = takenNames taken [m.name] ++
        takenNames (fun n => taken n || decide (n ∈ [m.name.name])) (ms.map Member.name) :=
      takenNames_append taken [m.name] (ms.map Member.name)
    rw [listTaken, hnames, List.flatMap_cons]
    refine (List.perm_append_comm.append (ih _)).trans ?_
    exact perm_append_append _ _ _ _

/-- What goes wrong with the members of a class that is named by a star: there is no class to enter
them into, or it belongs to another library, or else it has the members of all such classes. -/
def Member.starErrors (star : StarClass) (taken : String → Bool) (ms : List Member) :
    List SemanticError :=
  match star with
  | .missing => ms.flatMap fun m => sameNames m.takenLocals
  | .foreign name => ms.flatMap fun m =>
      sameNames m.takenLocals ++ [.symbolNotFound name m.name.span]
  | .own _ => sameNames (listTaken taken ms)

theorem Member.starErrors_append (star : StarClass) (taken : String → Bool) (ms ms' : List Member) :
    starErrors star taken (ms ++ ms') = starErrors star taken ms ++
      starErrors star (fun n => taken n || decide (n ∈ (ms.map Member.name).map Ident.name)) ms' := by
  cases star with
  | missing => exact List.flatMap_append
  | foreign => exact List.flatMap_append
  | own => rw [starErrors, starErrors, starErrors, listTaken_append, sameNames_append]

theorem Member.place_mem_bindings (m : Member) : m.place.id ∈ m.tree.bindings := by
  match m with
  | .variable d => simp [Member.tree, Member.place]
  | .function d => simp [Member.tree, Member.place, d.bindings_tree]

namespace Context

variable {c c' c'' : Context} {ns : List NodeId} {owner : Owner} {m : Member}

/-- A function is bound, with all that is declared in it. -/
structure HasFunction (c : Context) (d : FunctionDecl) : Prop where
  bound : c.Bound d.place.id d.name.name true (c.annotations.signatures.get? d.place.id)
  holds : ∀ x, c.annotations.symbols.get? d.place.id = some x → c.HoldsLocals x d.locals

/-- A variable or a function is bound. -/
def HasMember (c : Context) : Member → Prop
  | .variable d => c.BoundLocal (.variable d)
  | .function d => c.HasFunction d

theorem HasMember.binds (h : c.HasMember m) (hbinds : c.Binds ns owner c')
    (hns : ∀ n ∈ m.tree.bindings, n ∉ ns) (howner : ∀ x, ¬owner x true) : c'.HasMember m := by
  match m with
  | .variable d =>
    refine BoundLocal.binds h hbinds (hns _ ?_)
    exact Member.place_mem_bindings (.variable d)
  | .function d =>
    rw [Member.tree, d.bindings_tree, List.forall_mem_cons] at hns
    refine ⟨?_, fun x hx => ?_⟩
    · rw [hbinds.signatures_eq]
      exact h.bound.binds hbinds hns.1
    · rw [hbinds.symbols _ hns.1] at hx
      exact (h.holds x hx).binds hbinds (fun l hl => hns.2 _ (List.mem_map_of_mem hl)) (howner x)

theorem HasMember.congr {scopes : ScopeStack SymbolId} (h : c.HasMember m) :
    { c with scopes }.HasMember m := by
  match m with
  | .variable d => exact h
  | .function d => exact ⟨h.bound, fun x hx => ⟨(h.holds x hx).locals, (h.holds x hx).bound⟩⟩

/-- A symbol is made for a member, which is left to register. -/
structure Prepares (c : Context) (m : Member) (x : SymbolId) (c' : Context) : Prop where
  binds : c.Binds m.tree.bindings .nobody c'
  keepsNames : c.KeepsNames c'
  hasMember : c'.HasMember m
  symbols_get? : c'.annotations.symbols.get? m.place.id = some x
  fresh : c.library.symbol? x = none
  symbol : ∃ s, c'.library.symbol? x = some s ∧ s.name = m.name.name ∧ s.span = m.name.span
  errors_eq : c'.errors = c.errors ++ sameNames m.takenLocals

end Context

namespace Analyzing

variable {c c' : Context} {m : Member}

/-- The locals of a function are bound behind its symbol. -/
theorem prepares_function {d : FunctionDecl} {x : SymbolId} {s : Symbol} (hlib : c.library.IsApart)
    (hnodup : d.tree.bindings.Nodup) (hmakes : c.Makes d.place.id x s c')
    (hname : s.name = d.name.name) (hspan : s.span = d.name.span) (hkind : s.kind = .function {})
    (htype : s.type = c.annotations.signatures.get? d.place.id) :
    c.Prepares (.function d) x ((inScope .function d.place.id (some x) do
      d.parameters.forM (bindParameter x)
      bindScope d.body).run c').2 := by
  rw [d.bindings_tree, List.nodup_cons] at hnodup
  have hmade : c.Binds [d.place.id] (.function x) c' := hmakes.binds
  have hbinding :
      { c' with scopes := c'.scopes.push .function d.place.id (some x) }.Binding x [] := by
    refine ⟨⟨⟨?_, s, {}, hmakes.creates.symbol, hkind, ⟨by simp, by simp [names]⟩, fun _ => rfl⟩,
      by simp⟩, hmade.library.isApart hlib, ⟨_, rfl, rfl, rfl⟩, rfl⟩
    exact hmakes.creates.library_eq.trans hmade.library.id_eq.symm
  have hbody := bindsLocals_body (f := x) d hbinding hnodup.2
  obtain ⟨c'', hc''⟩ : ∃ c'', c'' = ((do
      d.parameters.forM (bindParameter x)
      bindScope d.body : Analyzing Unit).run
        { c' with scopes := c'.scopes.push .function d.place.id (some x) }).2 := ⟨_, rfl⟩
  rw [← hc''] at hbody
  change c.Prepares (.function d) x
    { ((do
      d.parameters.forM (bindParameter x)
      bindScope d.body : Analyzing Unit).run
        { c' with scopes := c'.scopes.push .function d.place.id (some x) }).2 with
      scopes := ScopeStack.pop (((do
        d.parameters.forM (bindParameter x)
        bindScope d.body : Analyzing Unit).run
          { c' with scopes := c'.scopes.push .function d.place.id (some x) }).2.scopes) }
  rw [← hc'']
  have hbinds := hbody.binds.pop
  have hboth := hmade.trans hbinds
  have hrow := (hbinds.symbols _ hnodup.1).trans hmakes.symbols_get?
  have hbound : c'.Bound d.place.id d.name.name true
      (c'.annotations.signatures.get? d.place.id) := by
    have hbound := hmakes.bound
    rwa [hname, htype, Symbol.isValue, hkind, ← hmade.signatures_eq] at hbound
  refine ⟨⟨hboth.declares, hboth.library.of_fresh hmakes.creates.fresh, ?_, hboth.differs⟩, ?_,
    ⟨?_, ?_⟩, hrow, hmakes.creates.fresh, ?_, ?_⟩
  · rw [Member.tree, d.bindings_tree]
    exact hboth.symbols
  · exact hmakes.keepsNames.trans ⟨hbody.keepsNames.globals_eq, hbody.keepsNames.library_eq⟩
  · rw [hbinds.signatures_eq]
    exact hbound.binds hbinds hnodup.1
  · intro y hy
    obtain rfl := Option.some.inj (hrow.symm.trans hy)
    exact ⟨hbody.binding.locals, hbody.binding.bound⟩
  · obtain ⟨s', hs', hkeeps, -⟩ := hbinds.library.symbol hmakes.creates.symbol
    exact ⟨s', hs', hkeeps.name_eq.trans hname, hkeeps.span_eq.trans hspan⟩
  · have herrors : c''.errors = c'.errors ++ sameNames d.takenLocals := hbody.errors_eq
    rw [herrors, hmakes.errors_eq, Member.takenLocals, Member.functions, List.flatMap_singleton]

/-- A member is made before it is registered. -/
theorem run_bindMember (hlib : c.library.IsApart) (hnodup : m.tree.bindings.Nodup) :
    ∃ c' x, (bindMember m).run c = (register m.name.name x m.name.span).run c' ∧
      c.Prepares m x c' := by
  match m with
  | .variable d =>
    obtain ⟨c', x, s, hrun, hmakes, hname, hspan, hvalue, htype⟩ := run_bindVariable hlib d
    have hbinds : c.Binds [d.place.id] .nobody c' := hmakes.binds
    refine ⟨c', x, hrun, ?_, hmakes.keepsNames, ?_, hmakes.symbols_get?, hmakes.creates.fresh,
      ⟨s, hmakes.creates.symbol, hname, hspan⟩, ?_⟩
    · rwa [Member.tree, d.bindings_tree]
    · have hbound := hmakes.bound
      rwa [hname, hvalue, htype, Context.localType?, ← hbinds.declaredTypes_eq] at hbound
    · rw [hmakes.errors_eq]
      exact (List.append_nil _).symm
  | .function d =>
    have hmakes := makes_place hlib (.function {}) (by simp) d.name d.place.id
      (c.annotations.signatures.get? d.place.id)
      (⟨.binding, d.place.id, c.scopes.entries⟩ :: c.visits)
    exact ⟨_, _, rfl, prepares_function hlib hnodup hmakes rfl rfl rfl rfl⟩

end Analyzing

/-! ## Classes -/

/-- The error is about a name of one of these nodes. -/
def SemanticError.IsAbout (e : SemanticError) (ns : List Node) : Prop :=
  ∃ n ∈ ns, ∃ name ∈ n.head.names, e.span = name.span

theorem SemanticError.IsAbout.mono {e : SemanticError} {ns ns' : List Node} (h : e.IsAbout ns)
    (hsubset : ns ⊆ ns') : e.IsAbout ns' := by
  obtain ⟨n, hn, h⟩ := h
  exact ⟨n, hsubset hn, h⟩

namespace Member

variable {m : Member}

theorem node_mem_declarations (m : Member) : m.node ∈ m.tree.declarations :=
  List.mem_filter.2 ⟨m.node_mem_preorder, by cases m <;> rfl⟩

/-- Errors about the locals of a member. -/
theorem isAbout_takenLocals : ∀ e ∈ sameNames m.takenLocals, e.IsAbout m.tree.declarations := by
  rw [sameNames, List.forall_mem_map]
  intro name hname
  obtain d | d := m
  · simp [takenLocals, functions] at hname
  · rw [takenLocals, functions, List.flatMap_singleton] at hname
    obtain ⟨l, hl, rfl⟩ := List.mem_map.1 (takenNames_subset _ _ hname)
    refine ⟨l.node, ?_, l.name, by cases l <;> exact List.mem_singleton_self _, rfl⟩
    rw [tree, d.declarations_tree]
    exact List.mem_cons_of_mem _ (List.mem_map_of_mem hl)

theorem isAbout_name {e : SemanticError} (h : e.span = m.name.span) :
    e.IsAbout m.tree.declarations :=
  ⟨m.node, m.node_mem_declarations, m.name, m.name_mem_names, h⟩

end Member

namespace Context

variable {c c' c'' : Context}

/-- The innermost function or class is a class with this symbol. -/
def InClass (c : Context) (y : Option SymbolId) : Prop :=
  ∃ e, c.scopes.registrationTarget? = some e ∧ e.kind = .classBody ∧ e.symbol = y

/-- These members of a class are bound. If the class has a symbol, they are found in its table, and
each name that was taken is an error. -/
structure BindsMembers (c : Context) (y : Option SymbolId) (ms : List Member) (c' : Context) :
    Prop where
  binds : c.Binds (ms.flatMap fun m => m.tree.bindings) (.classes [y]) c'
  keepsNames : c.KeepsNames c'
  hasMember : ∀ m ∈ ms, c'.HasMember m
  errors : ∃ es, c'.errors = c.errors ++ es ∧
    ∀ e ∈ es, e.IsAbout (ms.flatMap fun m => m.tree.declarations)
  fills : ∀ x members, y = some x → c.library.HasMembers x members →
    c'.library.HasMembers x (fun n => (members n).or (c'.denoted? (ms.map Member.entry) n)) ∧
      c'.errors = c.errors ++ sameNames (Member.listTaken (fun n => (members n).isSome) ms)
  missing : y = none → ∀ taken, c'.errors = c.errors ++ Member.starErrors .missing taken ms
  foreign : ∀ x s, y = some x → x.library ≠ c.library.id → c.library.symbol? x = some s →
    ∀ taken, c'.errors = c.errors ++ Member.starErrors (.foreign s.name) taken ms

end Context

namespace Analyzing

variable {c c' : Context} {m : Member} {y : Option SymbolId}

/-- A symbol is registered with a class, if that has a symbol. -/
theorem run_register_member (hc : c.InClass y) (hlib : c.library.IsApart) {x : SymbolId}
    {s : Symbol} (hs : c.library.symbol? x = some s) (name : String) (span : Span) :
    ∃ lib es, ((register name x span).run c).2 =
        { c with library := lib, errors := c.errors ++ es } ∧
      c.library.Binds (.classes [y]) lib ∧ lib.globals = c.library.globals ∧
      (∀ e ∈ es, e.span = s.span) ∧
      (∀ z members, y = some z → c.library.HasMembers z members → x ≠ z →
        lib.HasMembers z (withName members s.name x) ∧
        es = if (members s.name).isSome then [.sameName s.name s.span] else []) ∧
      (y = none → es = []) ∧
      ∀ z t, y = some z → z.library ≠ c.library.id → c.library.symbol? z = some t →
        es = [.symbolNotFound t.name s.span] := by
  obtain ⟨e, he, hkind, hsymbol⟩ := hc
  rw [register, run_get_bind]
  simp only [he, hkind, hsymbol]
  cases y with
  | none =>
    refine ⟨c.library, [], ?_, .refl _, rfl, by simp, by simp, fun _ => rfl, by simp⟩
    rw [List.append_nil]
    rfl
  | some owner =>
    obtain ⟨hbinds, hglobals, hspan⟩ := hlib.addMember hs owner
    refine ⟨_, failure (c.library.addMember owner x).1, ?_, hbinds, hglobals, ?_, ?_, by simp, ?_⟩
    · change ((reporting (·.addMember owner x)).run c).2 = _
      rw [run_reporting]
    · intro e he
      cases hadd : (c.library.addMember owner x).1 with
      | ok _ => simp [hadd, failure] at he
      | error e' =>
        rw [hadd, failure, List.mem_singleton] at he
        exact he ▸ hspan e' hadd
    · rintro z members ⟨⟩ hmembers hne
      obtain ⟨hadd, hmembers'⟩ := hmembers.addMember hlib hs hne
      refine ⟨hmembers', ?_⟩
      rw [hadd]
      split <;> rfl
    · rintro z t ⟨⟩ hne ht
      rw [Library.addMember, hs]
      simp only [Library.owned?, if_neg hne, Option.bind_none, Library.nameOf, ht]
      rfl

theorem bindsMembers_singleton (hc : c.InClass y) (hlib : c.library.IsApart)
    (hnodup : m.tree.bindings.Nodup) : c.BindsMembers y [m] ((bindMember m).run c).2 := by
  obtain ⟨c', x, hrun, hprepares⟩ := run_bindMember hlib hnodup
  have hbinds := hprepares.binds
  have hlib' := hbinds.library.isApart hlib
  have hc' : c'.InClass y := by
    rw [Context.InClass, hbinds.scopes_eq]
    exact hc
  obtain ⟨s, hs, hname, hspan⟩ := hprepares.symbol
  obtain ⟨lib, es, hrun', hregisters, hglobals, hspans, hfills, hmissing, hforeign⟩ :=
    run_register_member hc' hlib' hs m.name.name m.name.span
  have hlast : c'.Binds [] (.classes [y]) { c' with library := lib, errors := c'.errors ++ es } :=
    .registered (.of_visits c'.visits) hregisters
  rw [hrun, hrun']
  refine ⟨?_, ?_, ?_, ?_, ?_, fun hy _ => ?_, fun z t hy hne ht _ => ?_⟩
  · have hboth := (hbinds.mono fun _ _ => False.elim).trans hlast
    simpa using hboth
  · exact hprepares.keepsNames.trans ⟨rfl, hglobals⟩
  · simpa using hprepares.hasMember.binds hlast (by simp) (by simp [Owner.classes])
  · refine ⟨sameNames m.takenLocals ++ es, ?_, ?_⟩
    · rw [hprepares.errors_eq, List.append_assoc]
    · rw [List.forall_mem_append, List.flatMap_singleton]
      exact ⟨Member.isAbout_takenLocals, fun e he =>
        Member.isAbout_name ((hspans e he).trans hspan)⟩
  · intro z members hz hmembers
    have hne : x ≠ z := by
      rintro rfl
      obtain ⟨t, _, ht, -⟩ := hmembers.entries
      rw [hprepares.fresh] at ht
      exact absurd ht (by simp)
    obtain ⟨hmembers', hes⟩ := hfills z members hz (hbinds.library.hasMembers hmembers id) hne
    refine ⟨?_, ?_⟩
    · convert hmembers' using 1
      funext n
      simp only [withName, hname, Context.denoted?, List.map_singleton, List.findSome?_singleton,
        Member.entry, hprepares.symbols_get?, eq_comm]
    · have hes' : es = sameNames (takenNames (fun n => (members n).isSome) [m.name]) := by
        rw [hes, hname, hspan]
        by_cases htaken : (members m.name.name).isSome <;> simp [takenNames, sameNames, htaken]
      rw [hprepares.errors_eq, List.append_assoc, hes', ← sameNames_append, Member.listTaken,
        Member.listTaken, List.append_nil]
  · rw [hprepares.errors_eq, hmissing hy, List.append_nil, Member.starErrors, List.flatMap_singleton]
  · obtain ⟨t', ht', hkeeps, -⟩ := hbinds.library.symbol ht
    rw [hprepares.errors_eq, hforeign z t' hy (hbinds.library.id_eq ▸ hne) ht', hkeeps.name_eq, hspan,
      List.append_assoc, Member.starErrors, List.flatMap_singleton]

end Analyzing

namespace Context

variable {c c' c'' : Context} {y : Option SymbolId} {m : Member} {ms ms' : List Member}

theorem denoted?_binds {ns : List NodeId} {owner : Owner} (h : c.Binds ns owner c')
    (hms : ∀ m ∈ ms, ∀ n ∈ m.tree.bindings, n ∉ ns) (name : String) :
    c'.denoted? (ms.map Member.entry) name = c.denoted? (ms.map Member.entry) name := by
  refine h.denoted? ?_ name
  rintro _ hd
  obtain ⟨m, hm, rfl⟩ := List.mem_map.1 hd
  exact hms m hm _ m.place_mem_bindings

theorem HasMember.isSome_symbol (h : c.HasMember m) :
    (c.annotations.symbols.get? m.place.id).isSome := by
  match m with
  | .variable d =>
    obtain ⟨x, -, hx, -⟩ := h
    exact Option.isSome_iff_exists.2 ⟨x, hx⟩
  | .function d =>
    obtain ⟨x, -, hx, -⟩ := h.bound
    exact Option.isSome_iff_exists.2 ⟨x, hx⟩

/-- If all members have symbols, their names denote something. -/
theorem isSome_denoted? (h : ∀ m ∈ ms, c.HasMember m) (name : String) :
    (c.denoted? (ms.map Member.entry) name).isSome =
      decide (name ∈ (ms.map Member.name).map Ident.name) := by
  induction ms with
  | nil => rfl
  | cons m ms ih =>
    rw [List.forall_mem_cons] at h
    obtain ⟨x, hx⟩ := Option.isSome_iff_exists.1 h.1.isSome_symbol
    rw [List.map_cons, denoted?_cons, Option.isSome_or, ih h.2, Member.entry, hx]
    by_cases hname : m.name.name = name <;> simp [hname, eq_comm, Ne.symm]

theorem BindsMembers.append (h : c.BindsMembers y ms c') (h' : c'.BindsMembers y ms' c'')
    (hdisjoint : ∀ m ∈ ms, ∀ n ∈ m.tree.bindings, n ∉ ms'.flatMap fun m => m.tree.bindings) :
    c.BindsMembers y (ms ++ ms') c'' := by
  refine ⟨?_, h.keepsNames.trans h'.keepsNames, ?_, ?_, ?_, fun hy taken => ?_,
    fun x s hy hne hs taken => ?_⟩
  · rw [List.flatMap_append]
    exact h.binds.trans h'.binds
  · rw [List.forall_mem_append]
    exact ⟨fun m hm => (h.hasMember m hm).binds h'.binds (hdisjoint m hm) (by simp [Owner.classes]),
      h'.hasMember⟩
  · obtain ⟨es, heq, hes⟩ := h.errors
    obtain ⟨es', heq', hes'⟩ := h'.errors
    refine ⟨es ++ es', by rw [heq', heq, List.append_assoc], ?_⟩
    rw [List.forall_mem_append, List.flatMap_append]
    exact ⟨fun e he => (hes e he).mono (List.subset_append_left _ _),
      fun e he => (hes' e he).mono (List.subset_append_right _ _)⟩
  · intro x members hy hmembers
    obtain ⟨hfilled, heq⟩ := h.fills x members hy hmembers
    obtain ⟨hfilled', heq'⟩ := h'.fills x _ hy hfilled
    refine ⟨?_, ?_⟩
    · convert hfilled' using 1
      funext n
      rw [List.map_append, denoted?_append, denoted?_binds h'.binds hdisjoint, Option.or_assoc]
    · simp only [Option.isSome_or, isSome_denoted? h.hasMember] at heq'
      rw [heq', heq, List.append_assoc, ← sameNames_append, Member.listTaken_append]
  · rw [h'.missing hy, h.missing hy taken, List.append_assoc, ← Member.starErrors_append]
  · obtain ⟨s', hs', hkeeps, -⟩ := h.binds.library.symbol hs
    rw [h'.foreign x s' hy (h.binds.library.id_eq ▸ hne) hs', h.foreign x s hy hne hs taken,
      hkeeps.name_eq, List.append_assoc, ← Member.starErrors_append]

theorem BindsMembers.refl (c : Context) (y : Option SymbolId) : c.BindsMembers y [] c := by
  refine ⟨.of_visits c.visits, ⟨rfl, rfl⟩, by simp, ⟨[], by simp, by simp⟩,
    fun x members _ hmembers => ⟨?_, by simp [Member.listTaken, sameNames]⟩,
    fun _ _ => (List.append_nil _).symm, fun _ _ _ _ _ _ => (List.append_nil _).symm⟩
  convert hmembers using 1
  funext n
  exact Option.or_none ..

/-- The members belong to the class whose scope is closed. -/
theorem BindsMembers.pop {kind : ScopeKind} {node : NodeId} {symbol : Option SymbolId}
    {visits : List Visit}
    (h : { c with visits, scopes := c.scopes.push kind node symbol }.BindsMembers y ms c') :
    c.BindsMembers y ms { c' with scopes := c'.scopes.pop } where
  binds := by
    have hvisits : c.Binds [] (.classes [y]) { c with visits } := .of_visits visits
    exact hvisits.trans h.binds.pop
  keepsNames := ⟨h.keepsNames.globals_eq, h.keepsNames.library_eq⟩
  hasMember m hm := (h.hasMember m hm).congr
  errors := h.errors
  fills := h.fills
  missing := h.missing
  foreign := h.foreign

end Context

namespace Analyzing

variable {c : Context} {y : Option SymbolId}

theorem bindsMembers_forM (hc : c.InClass y) (hlib : c.library.IsApart) (ms : List Member)
    (hnodup : (ms.flatMap fun m => m.tree.bindings).Nodup) :
    c.BindsMembers y ms ((ms.forM bindMember).run c).2 := by
  induction ms generalizing c with
  | nil => exact .refl c y
  | cons m ms ih =>
    rw [List.flatMap_cons, List.nodup_append] at hnodup
    obtain ⟨hm, hms, hdisjoint⟩ := hnodup
    have hfirst := bindsMembers_singleton hc hlib hm
    have hc' : ((bindMember m).run c).2.InClass y := by
      rw [Context.InClass, hfirst.binds.scopes_eq]
      exact hc
    have hrest := ih hc' (hfirst.binds.library.isApart hlib) hms
    refine hfirst.append hrest ?_
    rw [List.forall_mem_singleton]
    exact fun n hn hn' => hdisjoint n hn n hn' rfl

/-- The members of a class are registered with the symbol that the class has. -/
theorem bindsMembers_bindClass (hlib : c.library.IsApart) (d : ClassDecl)
    (hnodup : d.tree.bindings.Nodup) :
    c.BindsMembers (c.annotations.symbols.get? d.place.id) d.members ((bindClass d).run c).2 := by
  rw [d.bindings_tree] at hnodup
  have hclass : Context.InClass { c with
      visits := ⟨.binding, d.place.id, c.scopes.entries⟩ :: c.visits
      scopes := c.scopes.push .classBody d.place.id (c.annotations.symbols.get? d.place.id) }
      (c.annotations.symbols.get? d.place.id) := ⟨_, rfl, rfl, rfl⟩
  exact (bindsMembers_forM hclass hlib d.members hnodup).pop

end Analyzing

/-! ## Declarations -/

namespace Declaration

def class? : Declaration → Option ClassDecl
  | .classDecl d => some d
  | .function _ | .variable _ => none

/-- What is a value of the whole unit. -/
def values : Declaration → List Member
  | .classDecl _ => []
  | .function d => [.function d]
  | .variable d => [.variable d]

/-- The variables and functions that are no locals. -/
def members : Declaration → List Member
  | .classDecl d => d.members
  | .function d => [.function d]
  | .variable d => [.variable d]

theorem values_subset (d : Declaration) : d.values ⊆ d.members := by
  cases d <;> simp [values, members]

theorem mem_of_mem_classes {ds : List Declaration} {d : ClassDecl}
    (h : d ∈ ds.filterMap Declaration.class?) : .classDecl d ∈ ds := by
  obtain ⟨e, he, h⟩ := List.mem_filterMap.1 h
  match e with
  | .classDecl e => exact Option.some.inj h ▸ he
  | .function e | .variable e => simp [class?] at h

theorem declarations_tree (d : Declaration) :
    d.tree.declarations = d.members.flatMap fun m => m.tree.declarations := by
  match d with
  | .classDecl d => exact d.declarations_tree
  | .function d | .variable d => simp [tree, members, Member.tree]

theorem bindings_tree (d : Declaration) :
    d.tree.bindings = d.members.flatMap fun m => m.tree.bindings := by
  rw [Tree.bindings_eq, d.declarations_tree, List.map_flatMap]
  rfl

/-- The names inside of a declaration that are taken when their turn comes. -/
def takenInside (d : Declaration) : List Ident :=
  (d.class?.toList.flatMap fun d => takenNames (fun _ => false) (d.members.map Member.name)) ++
    d.functions.flatMap FunctionDecl.takenLocals

/-- The names in a declaration that are taken when their turn comes; those of members are the
business of their class. -/
def taken (taken : String → Bool) : Declaration → List Ident
  | .classDecl d => Member.listTaken (fun _ => false) d.members
  | .function d => Member.listTaken taken [.function d]
  | .variable d => Member.listTaken taken [.variable d]

def listTaken (taken : String → Bool) : List Declaration → List Ident
  | [] => []
  | d :: ds => d.taken taken ++
      listTaken (fun n => taken n || decide (n ∈ (d.values.map Member.name).map Ident.name)) ds

theorem listTaken_append (taken : String → Bool) (ds ds' : List Declaration) :
    listTaken taken (ds ++ ds') = listTaken taken ds ++ listTaken (fun n => taken n ||
      decide (n ∈ ((ds.flatMap values).map Member.name).map Ident.name)) ds' := by
  induction ds generalizing taken with
  | nil => simp [listTaken]
  | cons d ds ih =>
    simp only [List.cons_append, listTaken, ih, List.append_assoc, List.flatMap_cons,
      List.map_append, List.mem_append, Bool.decide_or, Bool.or_assoc]

/-- The members of a class that is named by a star. -/
def starMembers : Declaration → List Member
  | .classDecl d => if d.name.name = "*" then d.members else []
  | .function _ | .variable _ => []

/-- The errors of the third phase in a declaration, if these names of the unit and of members of
classes that are named by a star are taken. -/
def errors (star : StarClass) (taken members : String → Bool) : Declaration → List SemanticError
  | .classDecl d =>
    if d.name.name = "*" then Member.starErrors star members d.members
    else sameNames (Declaration.taken taken (.classDecl d))
  | d => sameNames (d.taken taken)

/-- The errors of the third phase. -/
def listErrors (star : StarClass) (taken members : String → Bool) :
    List Declaration → List SemanticError
  | [] => []
  | d :: ds => d.errors star taken members ++ listErrors star
      (fun n => taken n || decide (n ∈ (d.values.map Member.name).map Ident.name))
      (fun n => members n || decide (n ∈ (d.starMembers.map Member.name).map Ident.name)) ds

theorem listErrors_append (star : StarClass) (taken members : String → Bool)
    (ds ds' : List Declaration) : listErrors star taken members (ds ++ ds') =
      listErrors star taken members ds ++ listErrors star
        (fun n => taken n || decide (n ∈ ((ds.flatMap values).map Member.name).map Ident.name))
        (fun n => members n ||
          decide (n ∈ ((ds.flatMap starMembers).map Member.name).map Ident.name)) ds' := by
  induction ds generalizing taken members with
  | nil => simp [listErrors]
  | cons d ds ih =>
    simp only [List.cons_append, listErrors, ih, List.append_assoc, List.flatMap_cons,
      List.map_append, List.mem_append, Bool.decide_or, Bool.or_assoc]

theorem errors_of_class?_eq_none {star : StarClass} {taken members : String → Bool} {d : Declaration}
    (h : d.class? = none) : d.errors star taken members = sameNames (d.taken taken) := by
  cases d with
  | classDecl => simp [class?] at h
  | function | «variable» => rfl

/-- Without a star, the errors are about names that are taken. -/
theorem listErrors_of_ne {star : StarClass} {taken members : String → Bool} {ds : List Declaration}
    (h : ∀ d ∈ ds.filterMap class?, d.name.name ≠ "*") :
    listErrors star taken members ds = sameNames (listTaken taken ds) := by
  induction ds generalizing taken members with
  | nil => rfl
  | cons d ds ih =>
    have hrest := fun e he => h e (List.mem_filterMap.2 (by
      obtain ⟨e', he', heq⟩ := List.mem_filterMap.1 he
      exact ⟨e', List.mem_cons_of_mem d he', heq⟩))
    rw [listErrors, ih hrest, listTaken, sameNames_append]
    match d with
    | .classDecl d =>
      have hne : d.name.name ≠ "*" := h d (by simp [class?])
      rw [errors, if_neg hne]
    | .function _ | .variable _ => rfl

theorem taken_perm (p : String → Bool) (d : Declaration) :
    (d.taken p).Perm (takenNames p (d.values.map Member.name) ++ d.takenInside) := by
  match d with
  | .classDecl d =>
    have hlocals : (Declaration.classDecl d).functions.flatMap FunctionDecl.takenLocals =
        d.members.flatMap Member.takenLocals := by
      rw [functions, List.flatMap_assoc]
      rfl
    rw [taken, takenInside, hlocals, class?, Option.toList_some, List.flatMap_singleton]
    exact Member.listTaken_perm _ d.members
  | .function d =>
    simpa [taken, takenInside, class?, functions, Member.takenLocals, Member.functions, values] using
      Member.listTaken_perm p [.function d]
  | .variable d =>
    simpa [taken, takenInside, class?, functions, Member.takenLocals, Member.functions, values] using
      Member.listTaken_perm p [.variable d]

theorem listTaken_perm (p : String → Bool) (ds : List Declaration) :
    (listTaken p ds).Perm (takenNames p ((ds.flatMap values).map Member.name) ++
      ds.flatMap takenInside) := by
  induction ds generalizing p with
  | nil => exact .refl _
  | cons d ds ih =>
    rw [listTaken, List.flatMap_cons, List.map_append, takenNames_append, List.flatMap_cons]
    exact ((taken_perm p d).append (ih _)).trans (perm_append_append _ _ _ _)

end Declaration

namespace Context

variable {c c' c'' : Context} {ds ds' : List Declaration}

/-- The symbols of classes. -/
def classSymbols (c : Context) (ds : List Declaration) : List (Option SymbolId) :=
  (ds.filterMap Declaration.class?).map fun d => c.annotations.symbols.get? d.place.id

/-- The symbols of classes that are not named by a star. -/
def ownSymbols (c : Context) (ds : List Declaration) : List (Option SymbolId) :=
  ((ds.filterMap Declaration.class?).filter fun d => d.name.name != "*").map fun d =>
    c.annotations.symbols.get? d.place.id

/-- What the classes that are named by a star stand for, and the names of their members. -/
def HoldsStar (c : Context) (star : StarClass) (members : String → Bool) (y : Option SymbolId) :
    Prop :=
  match star with
  | .missing => y = none
  | .foreign name => ∃ x s, y = some x ∧ x.library ≠ c.library.id ∧
      c.library.symbol? x = some s ∧ s.name = name
  | .own _ => ∃ x table, y = some x ∧ c.library.HasMembers x table ∧
      ∀ n, (table n).isSome = members n

/-- The classes have symbols of their own and no members yet, except for those that are named by a
star, and the names of the unit are covered. -/
structure Awaits (c : Context) (covered : String → Prop) (star : StarClass)
    (members : String → Bool) (y : Option SymbolId) (ds : List Declaration) : Prop where
  covers : c.Covers covered
  names : ∀ d ∈ ds, ∀ m ∈ d.values, covered m.name.name
  hasMembers : ∀ d ∈ ds.filterMap Declaration.class?, d.name.name ≠ "*" →
    ∃ x, c.annotations.symbols.get? d.place.id = some x ∧ c.library.HasMembers x fun _ => none
  nodup : (c.ownSymbols ds).Nodup
  star : ∀ d ∈ ds.filterMap Declaration.class?, d.name.name = "*" →
    c.annotations.symbols.get? d.place.id = y ∧ c.HoldsStar star members y
  apart : (∃ d ∈ ds.filterMap Declaration.class?, d.name.name = "*") → y ∉ c.ownSymbols ds

/-- The classes have their members. -/
structure Fills (c : Context) (covered : String → Prop) (star : StarClass)
    (members : String → Bool) (y : Option SymbolId) (ds : List Declaration) (c' : Context) :
    Prop where
  covers : c'.Covers covered
  publishes : ∀ {others}, c.Publishes others → c'.Publishes others
  hasMembers : ∀ d ∈ ds.filterMap Declaration.class?, d.name.name ≠ "*" →
    ∃ x, c'.annotations.symbols.get? d.place.id = some x ∧
      c'.library.HasMembers x (c'.denoted? (d.members.map Member.entry))
  holdsStar : y ∉ c.ownSymbols ds → c.HoldsStar star members y → c'.HoldsStar star
    (fun n => members n || decide (n ∈ ((ds.flatMap Declaration.starMembers).map Member.name).map
      Ident.name)) y
  errors_eq : c'.errors = c.errors ++
    Declaration.listErrors star (fun n => (c.globals.get? n).isSome) members ds

/-- Declarations of the unit are bound. -/
structure BindsDeclarations (c : Context) (ds : List Declaration) (c' : Context) : Prop where
  binds : c.Binds (ds.flatMap fun d => d.tree.bindings) (.classes (c.classSymbols ds)) c'
  hasMember : ∀ d ∈ ds, ∀ m ∈ d.members, c'.HasMember m
  globals : ∀ n, c'.globals.get? n =
    (c.globals.get? n).or (c'.denoted? ((ds.flatMap Declaration.values).map Member.entry) n)
  errors : ∃ es, c'.errors = c.errors ++ es ∧
    ∀ e ∈ es, e.IsAbout (ds.flatMap fun d => d.tree.declarations)
  fills : ∀ {covered star members y}, c.Awaits covered star members y ds →
    c.Fills covered star members y ds c'

theorem BindsDeclarations.hasValues (h : c.BindsDeclarations ds c') :
    ∀ m ∈ ds.flatMap Declaration.values, c'.HasMember m := by
  intro m hm
  obtain ⟨d, hd, hm⟩ := List.mem_flatMap.1 hm
  exact h.hasMember d hd m (d.values_subset hm)

theorem classSymbols_append (c : Context) (ds ds' : List Declaration) :
    c.classSymbols (ds ++ ds') = c.classSymbols ds ++ c.classSymbols ds' := by
  simp [classSymbols]

theorem classSymbols_binds {ns : List NodeId} {owner : Owner} (h : c.Binds ns owner c')
    (hds : ∀ d ∈ ds.filterMap Declaration.class?, d.place.id ∉ ns) :
    c'.classSymbols ds = c.classSymbols ds :=
  List.map_congr_left fun d hd => h.symbols _ (hds d hd)

theorem ownSymbols_append (c : Context) (ds ds' : List Declaration) :
    c.ownSymbols (ds ++ ds') = c.ownSymbols ds ++ c.ownSymbols ds' := by
  simp [ownSymbols]

theorem ownSymbols_binds {ns : List NodeId} {owner : Owner} (h : c.Binds ns owner c')
    (hds : ∀ d ∈ ds.filterMap Declaration.class?, d.place.id ∉ ns) :
    c'.ownSymbols ds = c.ownSymbols ds :=
  List.map_congr_left fun d hd => h.symbols _ (hds d (List.mem_filter.1 hd).1)

theorem mem_ownSymbols {d : ClassDecl} (hd : d ∈ ds.filterMap Declaration.class?)
    (hne : d.name.name ≠ "*") : c.annotations.symbols.get? d.place.id ∈ c.ownSymbols ds :=
  List.mem_map_of_mem (List.mem_filter.2 ⟨hd, by simpa using hne⟩)

/-- The symbol of a class is its own, or else it is what a star stands for. -/
theorem mem_classSymbols {covered : String → Prop} {star : StarClass} {members : String → Bool}
    {x y : Option SymbolId} (h : c.Awaits covered star members y ds) (hx : x ∈ c.classSymbols ds) :
    x ∈ c.ownSymbols ds ∨ x = y ∧ ∃ d ∈ ds.filterMap Declaration.class?, d.name.name = "*" := by
  obtain ⟨d, hd, rfl⟩ := List.mem_map.1 hx
  by_cases hname : d.name.name = "*"
  · exact .inr ⟨(h.star d hd hname).1, d, hd, hname⟩
  · exact .inl (mem_ownSymbols hd hname)

theorem HoldsStar.interns {star : StarClass} {members : String → Bool} {y : Option SymbolId}
    (h : c.HoldsStar star members y) (hinterns : c.library.Interns c'.library) :
    c'.HoldsStar star members y := by
  cases star with
  | missing => exact h
  | foreign name =>
    obtain ⟨x, s, hx, hne, hs, hname⟩ := h
    exact ⟨x, s, hx, hinterns.id_eq ▸ hne, hinterns.symbol?_mono hs, hname⟩
  | own name =>
    obtain ⟨x, table, hx, hmembers, htable⟩ := h
    exact ⟨x, table, hx, hinterns.hasMembers hmembers, htable⟩

/-- What is not an owner has the members that it had. -/
theorem HoldsStar.binds {star : StarClass} {members : String → Bool} {y : Option SymbolId}
    {ns : List NodeId} {owner : Owner} (h : c.HoldsStar star members y) (hbinds : c.Binds ns owner c')
    (hy : ∀ x name, star = .own name → y = some x → ¬owner x false) : c'.HoldsStar star members y := by
  cases star with
  | missing => exact h
  | foreign name =>
    obtain ⟨x, s, hx, hne, hs, hname⟩ := h
    obtain ⟨s', hs', hkeeps, -⟩ := hbinds.library.symbol hs
    exact ⟨x, s', hx, hbinds.library.id_eq ▸ hne, hs', hkeeps.name_eq.trans hname⟩
  | own name =>
    obtain ⟨x, table, hx, hmembers, htable⟩ := h
    exact ⟨x, table, hx, hbinds.library.hasMembers hmembers (hy x name rfl hx), htable⟩

/-- What a class has is not touched by declarations whose classes have other symbols. -/
theorem hasMembers_binds {ns : List NodeId} {d : ClassDecl} {ys : List (Option SymbolId)}
    {members : String → Option SymbolId}
    (h : ∃ x, c.annotations.symbols.get? d.place.id = some x ∧ c.library.HasMembers x members)
    (hbinds : c.Binds ns (.classes ys) c') (hd : d.place.id ∉ ns)
    (hys : c.annotations.symbols.get? d.place.id ∉ ys) :
    ∃ x, c'.annotations.symbols.get? d.place.id = some x ∧ c'.library.HasMembers x members := by
  obtain ⟨x, hx, hmembers⟩ := h
  rw [hx] at hys
  exact ⟨x, (hbinds.symbols _ hd).trans hx,
    hbinds.library.hasMembers hmembers fun howner => hys howner.1⟩

section Append

variable (h : c.BindsDeclarations ds c') (h' : c'.BindsDeclarations ds' c'')
  (hdisjoint : ∀ d ∈ ds, ∀ n ∈ d.tree.bindings, n ∉ ds'.flatMap fun d => d.tree.bindings)
  (hclasses : ∀ d ∈ (ds ++ ds').filterMap Declaration.class?,
    d.place.id ∉ (ds ++ ds').flatMap fun d => d.tree.bindings)

include h h' hdisjoint hclasses

theorem Fills.append {covered : String → Prop} {star : StarClass} {members : String → Bool}
    {y : Option SymbolId} (hawaits : c.Awaits covered star members y (ds ++ ds')) :
    c.Fills covered star members y (ds ++ ds') c'' := by
  have hnodup := hawaits.nodup
  have hmembers := hawaits.hasMembers
  have hnames := hawaits.names
  have hstar := hawaits.star
  have happart := hawaits.apart
  simp only [List.filterMap_append, List.forall_mem_append] at hmembers hnames hstar hclasses
  simp only [List.flatMap_append, List.mem_append, not_or] at hclasses
  simp only [List.filterMap_append, ownSymbols_append, List.mem_append, not_or] at happart
  rw [ownSymbols_append, List.nodup_append] at hnodup
  obtain ⟨hnodup, hnodup', hne⟩ := hnodup
  have hsymbols : c'.ownSymbols ds' = c.ownSymbols ds' :=
    ownSymbols_binds h.binds fun d hd => (hclasses.2 d hd).1
  have hfirst : c.Awaits covered star members y ds :=
    ⟨hawaits.covers, hnames.1, hmembers.1, hnodup, hstar.1,
      fun ⟨d, hd, hname⟩ => (happart ⟨d, .inl hd, hname⟩).1⟩
  have hfilled := h.fills hfirst
  have hawaits' : c'.Awaits covered star (fun n => members n || decide (n ∈
      ((ds.flatMap Declaration.starMembers).map Member.name).map Ident.name)) y ds' := by
    refine ⟨hfilled.covers, hnames.2, fun d hd hname => ?_, hsymbols ▸ hnodup', fun d hd hname => ?_,
      fun ⟨d, hd, hname⟩ => hsymbols ▸ (happart ⟨d, .inr hd, hname⟩).2⟩
    · refine hasMembers_binds (hmembers.2 d hd hname) h.binds (hclasses.2 d hd).1 fun hmem => ?_
      have hown := mem_ownSymbols (c := c) hd hname
      rcases mem_classSymbols hfirst hmem with hmem | ⟨heq, e, he, hstar⟩
      · exact hne _ hmem _ hown rfl
      · exact (happart ⟨e, .inl he, hstar⟩).2 (heq ▸ hown)
    · obtain ⟨hrow, hholds⟩ := hstar.2 d hd hname
      exact ⟨(h.binds.symbols _ (hclasses.2 d hd).1).trans hrow,
        hfilled.holdsStar (happart ⟨d, .inr hd, hname⟩).1 hholds⟩
  have hfilled' := h'.fills hawaits'
  refine ⟨hfilled'.covers, fun h => hfilled'.publishes (hfilled.publishes h), ?_, fun hy hholds => ?_,
    ?_⟩
  · rw [List.filterMap_append, List.forall_mem_append]
    refine ⟨fun d hd hname => ?_, hfilled'.hasMembers⟩
    have hrow := h.binds.symbols _ (hclasses.1 d hd).1
    have hown := mem_ownSymbols (c := c) hd hname
    have hmembers' := hasMembers_binds (hfilled.hasMembers d hd hname) h'.binds (hclasses.1 d hd).2 (by
      rw [hrow]
      intro hmem
      rcases mem_classSymbols hawaits' hmem with hmem | ⟨heq, e, he, hstar⟩
      · exact hne _ hown _ (hsymbols ▸ hmem) rfl
      · exact (happart ⟨e, .inr he, hstar⟩).1 (heq ▸ hown))
    have hdenoted : c''.denoted? (d.members.map Member.entry) =
        c'.denoted? (d.members.map Member.entry) := by
      funext name
      refine denoted?_binds h'.binds (fun m hm n hn => ?_) name
      refine hdisjoint _ (Declaration.mem_of_mem_classes hd) n ?_
      rw [Declaration.bindings_tree]
      exact List.mem_flatMap.2 ⟨m, hm, hn⟩
    rwa [hdenoted]
  · rw [ownSymbols_append, List.mem_append, not_or] at hy
    have hholds' := hfilled'.holdsStar (hsymbols ▸ hy.2) (hfilled.holdsStar hy.1 hholds)
    simpa only [Bool.or_assoc, ← Bool.decide_or, ← List.mem_append, ← List.map_append,
      ← List.flatMap_append] using hholds'
  · have heq := hfilled'.errors_eq
    simp only [h.globals, Option.isSome_or, isSome_denoted? h.hasValues] at heq
    rw [heq, hfilled.errors_eq, List.append_assoc, Declaration.listErrors_append]

theorem BindsDeclarations.append : c.BindsDeclarations (ds ++ ds') c'' := by
  refine ⟨?_, ?_, fun n => ?_, ?_, Fills.append h h' hdisjoint hclasses⟩
  · rw [List.flatMap_append, classSymbols_append]
    have hsymbols : c'.classSymbols ds' = c.classSymbols ds' := by
      refine classSymbols_binds h.binds fun d hd hmem => hclasses d ?_ ?_
      · rw [List.filterMap_append]
        exact List.mem_append_right _ hd
      · rw [List.flatMap_append]
        exact List.mem_append_left _ hmem
    have hbinds' := h'.binds
    rw [hsymbols] at hbinds'
    exact (h.binds.mono fun x _ hx => ⟨List.mem_append_left _ hx.1, hx.2⟩).trans
      (hbinds'.mono fun x _ hx => ⟨List.mem_append_right _ hx.1, hx.2⟩)
  · rw [List.forall_mem_append]
    refine ⟨fun d hd m hm => (h.hasMember d hd m hm).binds h'.binds (fun n hn => ?_)
      (by simp [Owner.classes]), h'.hasMember⟩
    refine hdisjoint d hd n ?_
    rw [Declaration.bindings_tree]
    exact List.mem_flatMap.2 ⟨m, hm, hn⟩
  · have hdenoted : c''.denoted? ((ds.flatMap Declaration.values).map Member.entry) n =
        c'.denoted? ((ds.flatMap Declaration.values).map Member.entry) n := ?_
    · rw [h'.globals, h.globals, List.flatMap_append, List.map_append, denoted?_append,
        Option.or_assoc, hdenoted]
    refine denoted?_binds h'.binds (fun m hm n hn => ?_) n
    obtain ⟨d, hd, hm⟩ := List.mem_flatMap.1 hm
    refine hdisjoint d hd n ?_
    rw [Declaration.bindings_tree]
    exact List.mem_flatMap.2 ⟨m, d.values_subset hm, hn⟩
  · obtain ⟨es, heq, hes⟩ := h.errors
    obtain ⟨es', heq', hes'⟩ := h'.errors
    refine ⟨es ++ es', by rw [heq', heq, List.append_assoc], ?_⟩
    rw [List.forall_mem_append, List.flatMap_append]
    exact ⟨fun e he => (hes e he).mono (List.subset_append_left _ _),
      fun e he => (hes' e he).mono (List.subset_append_right _ _)⟩

end Append

theorem BindsDeclarations.of_visits (visits : List Visit) :
    c.BindsDeclarations [] { c with visits } := by
  refine ⟨.of_visits visits, by simp, fun _ => (Option.or_none ..).symm, ⟨[], by simp, by simp⟩,
    fun hawaits => ⟨hawaits.covers, fun h => h, by simp, fun _ hholds => ?_,
      (List.append_nil _).symm⟩⟩
  have hbinds : c.Binds [] Owner.nobody { c with visits } := .of_visits visits
  simpa using hholds.binds hbinds fun _ _ _ _ => id

end Context

namespace Analyzing

variable {c : Context}

/-- The members of one class are bound. -/
theorem fills_class {c' : Context} {d : ClassDecl} {covered : String → Prop} {star : StarClass}
    {members : String → Bool} {y : Option SymbolId}
    (hbinds : c.BindsMembers (c.annotations.symbols.get? d.place.id) d.members c')
    (hrow : c'.annotations.symbols.get? d.place.id = c.annotations.symbols.get? d.place.id)
    (h : c.Awaits covered star members y [.classDecl d]) :
    c.Fills covered star members y [.classDecl d] c' := by
  have hclasses : [Declaration.classDecl d].filterMap Declaration.class? = [d] := rfl
  have hstar := h.star
  have hmembers := h.hasMembers
  rw [hclasses, List.forall_mem_singleton] at hstar hmembers
  have herrors (es : List SemanticError) (hes : c'.errors = c.errors ++ es)
      (heq : (Declaration.classDecl d).errors star (fun n => (c.globals.get? n).isSome) members = es) :
      c'.errors = c.errors ++ Declaration.listErrors star (fun n => (c.globals.get? n).isSome) members
        [.classDecl d] := by
    rw [hes, Declaration.listErrors, Declaration.listErrors, List.append_nil, heq]
  by_cases hname : d.name.name = "*"
  · obtain ⟨hy, hholds⟩ := hstar hname
    have hinside : [Declaration.classDecl d].flatMap Declaration.starMembers = d.members := by
      rw [List.flatMap_singleton, Declaration.starMembers, if_pos hname]
    have hdeclared : (Declaration.classDecl d).errors star (fun n => (c.globals.get? n).isSome)
        members = Member.starErrors star members d.members := if_pos hname
    rw [hy] at hbinds
    refine ⟨hbinds.keepsNames.covers h.covers, hbinds.keepsNames.publishes, ?_, fun _ hholds => ?_, ?_⟩
    · rw [hclasses, List.forall_mem_singleton]
      exact fun hne => absurd hname hne
    · rw [hinside]
      cases star with
      | missing => exact hholds
      | foreign name => exact Context.HoldsStar.binds hholds hbinds.binds (by simp)
      | own name =>
        obtain ⟨x, table, hx, htable, hsome⟩ := hholds
        refine ⟨x, _, hx, (hbinds.fills x table hx htable).1, fun n => ?_⟩
        rw [Option.isSome_or, hsome, Context.isSome_denoted? hbinds.hasMember]
    · refine herrors _ ?_ hdeclared
      cases star with
      | missing => exact hbinds.missing hholds members
      | foreign name =>
        obtain ⟨x, s, hx, hne, hs, rfl⟩ := hholds
        exact hbinds.foreign x s hx hne hs members
      | own name =>
        obtain ⟨x, table, hx, htable, hsome⟩ := hholds
        rw [(hbinds.fills x table hx htable).2, funext hsome]
        rfl
  · obtain ⟨x, hx, hnone⟩ := hmembers hname
    obtain ⟨hmembers', heq⟩ := hbinds.fills x _ hx hnone
    refine ⟨hbinds.keepsNames.covers h.covers, hbinds.keepsNames.publishes, ?_, fun hy hholds => ?_,
      herrors _ heq (if_neg hname)⟩
    · rw [hclasses, List.forall_mem_singleton]
      exact fun _ => ⟨x, hrow.trans hx, hmembers'⟩
    · have hinside : [Declaration.classDecl d].flatMap Declaration.starMembers = [] := by
        rw [List.flatMap_singleton, Declaration.starMembers, if_neg hname]
      rw [hinside]
      have hown := Context.mem_ownSymbols (c := c) (hclasses ▸ List.mem_singleton_self d) hname
      have hholds' := hholds.binds hbinds.binds fun z _ _ hz howner => by
        rw [hz, List.mem_singleton.1 howner.1] at hy
        exact hy hown
      simpa using hholds'

/-- A class has a scope of its own, so that its members are no names of the unit. -/
theorem bindsDeclarations_class (hlib : c.library.IsApart) (d : ClassDecl)
    (hnodup : d.tree.bindings.Nodup) (hd : d.place.id ∉ d.tree.bindings) :
    c.BindsDeclarations [.classDecl d] ((bindClass d).run c).2 := by
  have hbinds := bindsMembers_bindClass hlib d hnodup
  rw [d.bindings_tree] at hd
  have hrow := hbinds.binds.symbols _ hd
  refine ⟨?_, by simpa [Declaration.members] using hbinds.hasMember, fun n => ?_, ?_, fun h => ?_⟩
  · simpa [Context.classSymbols, Declaration.class?, Declaration.tree, d.bindings_tree] using
      hbinds.binds
  · rw [hbinds.keepsNames.globals_eq]
    exact (Option.or_none ..).symm
  · rw [List.flatMap_singleton, Declaration.declarations_tree]
    exact hbinds.errors
  · exact fills_class hbinds hrow h

/-- A variable or a function of the unit gets its name unless that is taken. -/
theorem bindsDeclarations_value {d : Declaration} {m : Member} (hlib : c.library.IsApart)
    (htarget : c.scopes.registrationTarget? = none) (hnodup : m.tree.bindings.Nodup)
    (hvalues : d.values = [m]) (hmembers : d.members = [m]) (hclass : d.class? = none)
    (htaken : ∀ p, d.taken p = Member.listTaken p [m]) :
    c.BindsDeclarations [d] ((bindMember m).run c).2 := by
  obtain ⟨c', x, hrun, hprepares⟩ := run_bindMember hlib hnodup
  have hregister : (register m.name.name x m.name.span).run c' =
      (declareGlobal m.name.name x m.name.span).run c' := by
    rw [register, run_get_bind]
    simp only [hprepares.binds.scopes_eq, htarget]
  rw [hrun, hregister]
  obtain ⟨library, globals, errors, hdeclare, hglobals, hlibrary⟩ :=
    run_declareGlobal c' m.name.name x m.name.span
  have hlast : c'.Binds [] (.classes (c.classSymbols [d])) { c' with library, globals, errors } := by
    have hlibrary' : c'.library.Binds (.classes (c.classSymbols [d])) library := by
      rcases hlibrary with rfl | ⟨name, rfl⟩
      · exact .refl _
      · exact Library.binds_publish _ _ _
    refine ⟨⟨_, _, _, _, _, rfl⟩, hlibrary', fun _ _ => rfl, fun hc => ⟨fun hn hx => ?_, hc.inj⟩⟩
    obtain ⟨s, hs⟩ := hc.isSome hn hx
    obtain ⟨s', hs', -⟩ := hlibrary'.symbol hs
    exact ⟨s', hs'⟩
  obtain ⟨s, hs, hname, hspan⟩ := hprepares.symbol
  obtain ⟨_, _, es, hrun', hspans, -⟩ := run_declareGlobal_of_symbol? hs m.name.name
  rw [hspan] at hrun' hspans
  refine ⟨?_, ?_, fun n => ?_, ⟨sameNames m.takenLocals ++ es, ?_, ?_⟩, fun hawaits => ?_⟩
  · rw [hdeclare, List.flatMap_singleton, d.bindings_tree, hmembers, List.flatMap_singleton,
      ← List.append_nil m.tree.bindings]
    exact (hprepares.binds.mono fun _ _ => False.elim).trans hlast
  · rw [hdeclare, List.forall_mem_singleton, hmembers, List.forall_mem_singleton]
    exact hprepares.hasMember.binds hlast (by simp) (by simp [Owner.classes])
  · rw [hdeclare, hglobals, hprepares.keepsNames.globals_eq, List.flatMap_singleton, hvalues]
    simp only [withName, Context.denoted?, List.map_singleton, List.findSome?_singleton,
      Member.entry, hprepares.symbols_get?, eq_comm]
  · rw [hrun', hprepares.errors_eq, List.append_assoc]
  · rw [List.forall_mem_append, List.flatMap_singleton, d.declarations_tree, hmembers,
      List.flatMap_singleton]
    exact ⟨Member.isAbout_takenLocals, fun e he => Member.isAbout_name (hspans e he)⟩
  · have hcovers := hprepares.keepsNames.covers hawaits.covers
    have hcovered := hawaits.names d (by simp) m (by simp [hvalues])
    have hstar {star members y} (hholds : c.HoldsStar star members y) :
        ((declareGlobal m.name.name x m.name.span).run c').2.HoldsStar star members y := by
      rw [hdeclare]
      refine (hholds.binds hprepares.binds fun _ _ _ _ => id).binds hlast fun _ _ _ _ howner => ?_
      simp [Context.classSymbols, hclass, Owner.classes] at howner
    have hinside : [d].flatMap Declaration.starMembers = [] := by
      cases d <;> simp_all [Declaration.class?, Declaration.starMembers]
    rw [run_declareGlobal_of_covers hcovers m.name.span hcovered hs hname] at hstar ⊢
    refine ⟨?_, fun {others} hothers => ?_, by simp [hclass], fun _ hholds => ?_, ?_⟩
    · split
      · exact hcovers
      · exact hcovers.declare _ _
    · have hothers' := hprepares.keepsNames.publishes hothers
      split
      · exact hothers'
      · next hname => exact hothers'.declare (Option.not_isSome_iff_eq_none.1 hname) x
    · rw [hinside]
      simpa using hstar hholds
    · rw [Declaration.listErrors, Declaration.listErrors, List.append_nil,
        Declaration.errors_of_class?_eq_none hclass, htaken, Member.listTaken,
        Member.listTaken, List.append_nil, sameNames_append, ← List.append_assoc,
        ← hprepares.errors_eq, hprepares.keepsNames.globals_eq]
      by_cases hname : (c.globals.get? m.name.name).isSome <;>
        simp [hname, takenNames, sameNames, Context.declare]

theorem bindsDeclarations_bindDeclaration (hlib : c.library.IsApart)
    (htarget : c.scopes.registrationTarget? = none) {d : Declaration}
    (hnodup : d.tree.bindings.Nodup)
    (hclass : ∀ e ∈ d.class?, e.place.id ∉ d.tree.bindings) :
    c.BindsDeclarations [d] ((bindDeclaration d).run c).2 := by
  match d with
  | .classDecl d => exact bindsDeclarations_class hlib d hnodup (hclass d rfl)
  | .function d =>
    exact bindsDeclarations_value (m := .function d) hlib htarget hnodup rfl rfl rfl fun _ => rfl
  | .variable d =>
    exact bindsDeclarations_value (m := .variable d) hlib htarget hnodup rfl rfl rfl fun _ => rfl

/-- The declarations of a unit, one after the other. -/
theorem bindsDeclarations_forM (hlib : c.library.IsApart)
    (htarget : c.scopes.registrationTarget? = none) (ds : List Declaration)
    (hnodup : (ds.flatMap fun d => d.tree.bindings).Nodup)
    (hclasses : ∀ d ∈ ds.filterMap Declaration.class?,
      d.place.id ∉ ds.flatMap fun d => d.tree.bindings) :
    c.BindsDeclarations ds ((ds.forM bindDeclaration).run c).2 := by
  induction ds generalizing c with
  | nil => exact .of_visits c.visits
  | cons d ds ih =>
    rw [List.flatMap_cons, List.nodup_append] at hnodup
    obtain ⟨hd, hds, hdisjoint⟩ := hnodup
    have hfirst : c.BindsDeclarations [d] ((bindDeclaration d).run c).2 := by
      refine bindsDeclarations_bindDeclaration hlib htarget hd fun e he hmem => ?_
      refine hclasses e (List.mem_filterMap.2 ⟨d, List.mem_cons_self, he⟩) ?_
      exact List.mem_flatMap.2 ⟨d, List.mem_cons_self, hmem⟩
    have hrest := ih (hfirst.binds.library.isApart hlib) (by rwa [hfirst.binds.scopes_eq]) hds
      fun e he hmem => by
        obtain ⟨d', hd', he⟩ := List.mem_filterMap.1 he
        obtain ⟨d'', hd'', hmem⟩ := List.mem_flatMap.1 hmem
        exact hclasses e (List.mem_filterMap.2 ⟨d', List.mem_cons_of_mem d hd', he⟩)
          (List.mem_flatMap.2 ⟨d'', List.mem_cons_of_mem d hd'', hmem⟩)
    refine Context.BindsDeclarations.append hfirst hrest ?_ hclasses
    rw [List.forall_mem_singleton]
    exact fun n hn hn' => hdisjoint n hn n hn' rfl

end Analyzing

namespace Block

variable {b : Block}

theorem classes_eq : b.classes = b.declarations.filterMap Declaration.class? := by
  unfold classes
  congr 1
  funext d
  cases d <;> rfl

/-- The third phase. -/
theorem Numbered.bindsDeclarations (hb : b.Numbered) {c : Context} (hlib : c.library.IsApart)
    (hscopes : c.scopes.entries = []) :
    c.BindsDeclarations b.declarations ((Analyzing.bindBlock b).run c).2 := by
  have htarget : c.scopes.registrationTarget? = none := by
    simp [ScopeStack.registrationTarget?, hscopes]
  have hnodup := hb.nodup_bindings
  rw [b.bindings_tree] at hnodup
  have hbinds := Analyzing.bindsDeclarations_forM (c := { c with
    visits := ⟨.binding, b.place.id, c.scopes.entries⟩ :: c.visits }) hlib htarget b.declarations
    hnodup fun d hd => by
      rw [← b.bindings_tree]
      exact hb.class_notMem_bindings (classes_eq ▸ hd)
  exact Context.BindsDeclarations.append (.of_visits _) hbinds (by simp) (by
    rw [List.nil_append, ← b.bindings_tree, ← classes_eq]
    exact fun d hd => hb.class_notMem_bindings hd)

end Block

end Sable
