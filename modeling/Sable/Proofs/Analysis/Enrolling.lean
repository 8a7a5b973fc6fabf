import Sable.Proofs.Analysis.BindingUnit
import Sable.Proofs.Symbol.Records

/-!
# Declarations and their symbols

Every node that declares a name gets a symbol of its own, whether or not the name is taken. What is
said of the symbol is what the node says, and its parent is the symbol of the function or class that
the node stands in, unless its name was taken there. No other symbols are declared.

## Main definitions

* `Head.declared?`: what a node declares.
* `Context.Belongs`: the parents of what stands in a function, in a class or in neither.
* `Context.Enrolled`: a node has a symbol that says what the node says.
* `Context.Enrolls`: a step that makes symbols for nodes and changes no others.

## Main statements

* `Analyzing.enrolls_bindScope`: the locals of a scope.
* `Analyzing.enrolls_bindDeclaration`: what is declared in a declaration.
* `Analyzing.enrolls_declareClass`: a class.
-/
namespace Sable

open Sable.Symbol (Record Parents)

/-- What a node declares, and of which sort that is. -/
def Head.declared? : Head → Option (Ident × SymbolSort)
  | .classDecl name => some (name, .type .classType)
  | .function name _ _ => some (name, .function)
  | .parameter name => some (name, .variable true)
  | .variable name => some (name, .variable false)
  | .label name => some (name, .label)
  | _ => none

/-- The symbol is that of the node. -/
structure Symbol.Record.IsOf (r : Record) (n : Node) : Prop where
  declared?_eq : n.head.declared? = some (⟨r.name, r.span⟩, r.sort)
  declaration_eq : r.declaration = some n.id

namespace Context

variable {c c' c'' : Context} {n m : Node} {o : Option Node} {p : Parents} {x : SymbolId}
  {r : Record} {ns ns' : List Node} {owner : NodeId → Option Node}

/-! ## Parents -/

/-- A symbol of the library's own that the node declares. -/
def Declared (c : Context) (n : Node) (sort : SymbolSort) (x : SymbolId) : Prop :=
  x.library = c.library.id ∧
    ∃ r, c.library.record? x = some r ∧ r.sort = sort ∧ r.declaration = some n.id

/-- The parents of what stands in a function, in a class or in neither of them. -/
inductive Belongs (c : Context) : Option Node → Parents → Prop
  | unit : Belongs c none {}
  | function {f : Node} {x : SymbolId} (hf : f.kind = .function) (hx : c.Declared f .function x) :
    Belongs c (some f) ⟨some x, none⟩
  | classBody {d : Node} {y : SymbolId} (hd : d.kind = .classDecl)
    (hy : c.Declared d (.type .classType) y) : Belongs c (some d) ⟨none, some y⟩

/-- Registration changes neither the sort of a symbol nor its declaration. -/
def Persists (c c' : Context) : Prop :=
  c'.library.id = c.library.id ∧ ∀ {x r}, c.library.record? x = some r →
    ∃ r', c'.library.record? x = some r' ∧ r'.sort = r.sort ∧ r'.declaration = r.declaration

theorem Persists.declared (h : c.Persists c') {sort : SymbolSort} (hx : c.Declared n sort x) :
    c'.Declared n sort x := by
  obtain ⟨hlibrary, r, hr, hsort, hdeclaration⟩ := hx
  obtain ⟨r', hr', hsort', hdeclaration'⟩ := h.2 hr
  exact ⟨hlibrary.trans h.1.symm, r', hr', hsort'.trans hsort, hdeclaration'.trans hdeclaration⟩

theorem Persists.belongs (h : c.Persists c') (hp : c.Belongs o p) : c'.Belongs o p := by
  cases hp with
  | unit => exact .unit
  | function hf hx => exact .function hf (h.declared hx)
  | classBody hd hy => exact .classBody hd (h.declared hy)

/-! ## Symbols of nodes -/

/-- The node has a symbol of the library's own that says what the node says. Its parent is that of
what stands there, unless its name was taken. -/
def Enrolled (owner : NodeId → Option Node) (c : Context) (n : Node) : Prop :=
  ∃ x r p, c.annotations.symbols.get? n.id = some x ∧ x.library = c.library.id ∧
    c.library.record? x = some r ∧ r.IsOf n ∧ c.Belongs (owner n.id) p ∧
    (r.parents = p ∨ .sameName r.name r.span ∈ c.errors)

/-- What is said of the symbols of other nodes does not matter. -/
theorem Enrolled.mono (h : c.Enrolled owner n) (hpersists : c.Persists c')
    (hsymbol : c'.annotations.symbols.get? n.id = c.annotations.symbols.get? n.id)
    (hrecord : ∀ {x r}, c.library.record? x = some r → r.declaration = some n.id →
      c'.library.record? x = some r) (herrors : c.errors ⊆ c'.errors) : c'.Enrolled owner n := by
  obtain ⟨x, r, p, hx, hlibrary, hr, hof, hp, hparents⟩ := h
  exact ⟨x, r, p, hsymbol.trans hx, hlibrary.trans hpersists.1.symm, hrecord hr hof.declaration_eq,
    hof, hpersists.belongs hp, hparents.imp_right (herrors ·)⟩

/-- These nodes get symbols. Nothing is said of the symbols that were there before, and no other
symbols are new. -/
structure Enrolls (owner : NodeId → Option Node) (ns : List Node) (c c' : Context) : Prop where
  declares : c.Declares c'
  id_eq : c'.library.id = c.library.id
  dependencies_eq : c'.library.dependencies = c.library.dependencies
  errors : c.errors ⊆ c'.errors
  record : ∀ {x r}, c.library.record? x = some r → c'.library.record? x = some r
  symbols_eq : ∀ n ∉ ns.map Node.id,
    c'.annotations.symbols.get? n = c.annotations.symbols.get? n
  enrolled : ∀ n ∈ ns, c'.Enrolled owner n
  new : ∀ {x r}, c'.library.record? x = some r → c.library.record? x = some r ∨
    ∃ n ∈ ns, c'.annotations.symbols.get? n.id = some x

namespace Enrolls

theorem of_visits (visits : List Visit) : c.Enrolls owner [] { c with visits } :=
  ⟨⟨_, _, _, _, _, rfl⟩, rfl, rfl, List.Subset.refl _, fun h => h, fun _ _ => rfl, by simp, .inl⟩

theorem persists (h : c.Enrolls owner ns c') : c.Persists c' :=
  ⟨h.id_eq, fun hr => ⟨_, h.record hr, rfl, rfl⟩⟩

theorem isApart (h : c.Enrolls owner ns c') (hlib : c.library.IsApart) : c'.library.IsApart :=
  hlib.congr h.id_eq h.dependencies_eq

theorem scopes_eq (h : c.Enrolls owner ns c') : c'.scopes = c.scopes := by
  obtain ⟨_, _, _, _, _, rfl⟩ := h.declares
  rfl

theorem trans (h : c.Enrolls owner ns c') (h' : c'.Enrolls owner ns' c'')
    (hnodup : ((ns ++ ns').map Node.id).Nodup) : c.Enrolls owner (ns ++ ns') c'' := by
  rw [List.map_append, List.nodup_append] at hnodup
  have hne : ∀ n ∈ ns, n.id ∉ ns'.map Node.id := fun n hn hn' =>
    hnodup.2.2 _ (List.mem_map_of_mem hn) _ hn' rfl
  refine ⟨h.declares.trans h'.declares, h'.id_eq.trans h.id_eq,
    h'.dependencies_eq.trans h.dependencies_eq, List.Subset.trans h.errors h'.errors,
    fun hr => h'.record (h.record hr), fun n hn => ?_, fun n hn => ?_, fun hr => ?_⟩
  · rw [List.map_append, List.mem_append, not_or] at hn
    exact (h'.symbols_eq n hn.2).trans (h.symbols_eq n hn.1)
  · rcases List.mem_append.1 hn with hn | hn
    · exact (h.enrolled n hn).mono h'.persists (h'.symbols_eq _ (hne n hn))
        (fun hr _ => h'.record hr) h'.errors
    · exact h'.enrolled n hn
  · rcases h'.new hr with hr | ⟨n, hn, hx⟩
    · refine (h.new hr).imp_right ?_
      rintro ⟨n, hn, hx⟩
      exact ⟨n, List.mem_append_left _ hn, (h'.symbols_eq _ (hne n hn)).trans hx⟩
    · exact .inr ⟨n, List.mem_append_right _ hn, hx⟩

/-- A scope that was open during the steps is closed. -/
theorem pop {kind : ScopeKind} {node : NodeId} {symbol : Option SymbolId} {visits : List Visit}
    (h : { c with visits, scopes := c.scopes.push kind node symbol }.Enrolls owner ns c') :
    c.Enrolls owner ns { c' with scopes := c'.scopes.pop } where
  declares := by
    obtain ⟨_, _, _, _, _, rfl⟩ := h.declares
    exact ⟨_, _, _, _, _, rfl⟩
  id_eq := h.id_eq
  dependencies_eq := h.dependencies_eq
  errors := h.errors
  record := h.record
  symbols_eq := h.symbols_eq
  enrolled n hn := by
    obtain ⟨x, r, p, hx, hlibrary, hr, hof, hp, hparents⟩ := h.enrolled n hn
    have hpersists : c'.Persists { c' with scopes := c'.scopes.pop } :=
      ⟨rfl, fun hr => ⟨_, hr, rfl, rfl⟩⟩
    exact ⟨x, r, p, hx, hlibrary, hr, hof, hpersists.belongs hp, hparents⟩
  new := h.new

end Enrolls

/-! ## New symbols -/

/-- A symbol is made for the node, which is left to register. -/
structure Drafts (c : Context) (n : Node) (x : SymbolId) (r : Record) (c' : Context) : Prop where
  declares : c.Declares c'
  id_eq : c'.library.id = c.library.id
  dependencies_eq : c'.library.dependencies = c.library.dependencies
  errors_eq : c'.errors = c.errors
  symbols_eq : c'.annotations.symbols = c.annotations.symbols.insert n.id x
  record?_eq : ∀ y, c'.library.record? y = if y = x then some r else c.library.record? y
  fresh : c.library.record? x = none
  library_eq : x.library = c.library.id
  isOf : r.IsOf n
  parents_eq : r.parents = {}

/-- The symbol gets these parents, unless its name is taken. -/
structure Registers (c : Context) (x : SymbolId) (r : Record) (p : Parents) (c' : Context) :
    Prop where
  declares : c.Declares c'
  id_eq : c'.library.id = c.library.id
  dependencies_eq : c'.library.dependencies = c.library.dependencies
  errors : c.errors ⊆ c'.errors
  symbols_eq : c'.annotations.symbols = c.annotations.symbols
  others : ∀ y, y ≠ x → c'.library.record? y = c.library.record? y
  own : c'.library.record? x = some { r with parents := p } ∨
    .sameName r.name r.span ∈ c'.errors ∧ c'.library.record? x = some r

theorem Makes.drafts {s : Symbol} (h : c.Makes n.id x s c') (hof : s.record.IsOf n)
    (hparents : s.parents = {}) : c.Drafts n x s.record c' := by
  have hbinds : c.Binds [n.id] .nobody c' := h.binds
  refine ⟨hbinds.declares, hbinds.library.id_eq, hbinds.library.dependencies_eq, h.errors_eq,
    h.symbols_eq, fun y => ?_, ?_, h.creates.library_eq, hof, hparents⟩
  · rw [Library.record?, h.creates.symbol?_eq]
    split <;> rfl
  · rw [Library.record?, h.creates.fresh, Option.map_none]

/-- A symbol is made, others are made in front of its registration, and then it is registered. -/
theorem Drafts.enrolls {c₁ c₂ : Context} (h : c.Drafts n x r c₁) (hinner : c₁.Enrolls owner ns c₂)
    (hp : c.Belongs (owner n.id) p) (hregisters : c₂.Registers x r p c')
    (hnodup : ((n :: ns).map Node.id).Nodup) : c.Enrolls owner (n :: ns) c' := by
  rw [List.map_cons, List.nodup_cons] at hnodup
  have hown₂ : c₂.library.record? x = some r := hinner.record ((h.record?_eq x).trans (if_pos rfl))
  have hne : ∀ {y r'}, c.library.record? y = some r' → y ≠ x := by
    rintro y r' hy rfl
    rw [h.fresh] at hy
    cases hy
  have hrecord : ∀ {y r'}, c.library.record? y = some r' → c'.library.record? y = some r' := by
    intro y r' hy
    rw [hregisters.others y (hne hy)]
    refine hinner.record ?_
    rw [h.record?_eq, if_neg (hne hy), hy]
  have hid : c'.library.id = c.library.id := by rw [hregisters.id_eq, hinner.id_eq, h.id_eq]
  have hpersists : c₂.Persists c' := by
    refine ⟨hregisters.id_eq, fun {y r'} hy => ?_⟩
    by_cases hyx : y = x
    · subst hyx
      obtain rfl := Option.some.inj (hown₂.symm.trans hy)
      rcases hregisters.own with hr | ⟨-, hr⟩
      · exact ⟨_, hr, rfl, rfl⟩
      · exact ⟨_, hr, rfl, rfl⟩
    · exact ⟨r', (hregisters.others y hyx).trans hy, rfl, rfl⟩
  have hrow : c'.annotations.symbols.get? n.id = some x := by
    rw [hregisters.symbols_eq, hinner.symbols_eq _ hnodup.1, h.symbols_eq, OrderedMap.get?_insert,
      if_pos rfl]
  refine ⟨h.declares.trans (hinner.declares.trans hregisters.declares), hid, ?_, ?_, hrecord,
    fun m hm => ?_, fun m hm => ?_, fun {y r'} hy => ?_⟩
  · rw [hregisters.dependencies_eq, hinner.dependencies_eq, h.dependencies_eq]
  · rw [← h.errors_eq]
    exact List.Subset.trans hinner.errors hregisters.errors
  · rw [List.map_cons, List.mem_cons, not_or] at hm
    rw [hregisters.symbols_eq, hinner.symbols_eq m hm.2, h.symbols_eq, OrderedMap.get?_insert,
      if_neg hm.1]
  · rcases List.mem_cons.1 hm with rfl | hm
    · have hbelongs : c'.Belongs (owner m.id) p :=
        Persists.belongs ⟨hid, fun hr => ⟨_, hrecord hr, rfl, rfl⟩⟩ hp
      rcases hregisters.own with hr | ⟨herror, hr⟩
      · exact ⟨x, _, p, hrow, h.library_eq.trans hid.symm, hr, ⟨h.isOf.1, h.isOf.2⟩, hbelongs,
          .inl rfl⟩
      · exact ⟨x, r, p, hrow, h.library_eq.trans hid.symm, hr, h.isOf, hbelongs, .inr herror⟩
    · refine (hinner.enrolled m hm).mono hpersists (by rw [hregisters.symbols_eq])
        (fun {y r'} hy hdeclaration => ?_) hregisters.errors
      rw [hregisters.others y, hy]
      rintro rfl
      -- the symbol of the node itself has another declaration
      obtain rfl := Option.some.inj (hown₂.symm.trans hy)
      rw [h.isOf.declaration_eq] at hdeclaration
      exact hnodup.1 (Option.some.inj hdeclaration ▸ List.mem_map_of_mem hm)
  · by_cases hyx : y = x
    · exact .inr ⟨n, List.mem_cons_self, hyx ▸ hrow⟩
    · rw [hregisters.others y hyx] at hy
      rcases hinner.new hy with hy | ⟨m, hm, hy⟩
      · rw [h.record?_eq, if_neg hyx] at hy
        exact .inl hy
      · exact .inr ⟨m, List.mem_cons_of_mem _ hm, by rw [hregisters.symbols_eq, hy]⟩

/-! ## Places where declarations stand -/

/-- What is declared here is registered with these parents. -/
def RegistersWith (c : Context) (p : Parents) : Prop :=
  match p.function, p.type with
  | some f, _ => c.InFunction f
  | none, some y => c.InClass (some y)
  | none, none => c.scopes.registrationTarget? = none

/-- What is declared here stands in this function, in this class or in neither. -/
structure Inside (c : Context) (o : Option Node) (p : Parents) : Prop where
  isApart : c.library.IsApart
  belongs : c.Belongs o p
  registersWith : c.RegistersWith p

theorem RegistersWith.congr (h : c.RegistersWith p) (hscopes : c'.scopes = c.scopes) :
    c'.RegistersWith p := by
  rcases p with ⟨_ | f, _ | y⟩
  · simpa only [RegistersWith, hscopes] using h
  · simpa only [RegistersWith, InClass, hscopes] using h
  · exact InFunction.congr h hscopes
  · exact InFunction.congr h hscopes

theorem Inside.persists (h : c.Inside o p) (hpersists : c.Persists c')
    (hdependencies : c'.library.dependencies = c.library.dependencies)
    (hscopes : c'.scopes = c.scopes) : c'.Inside o p :=
  ⟨h.isApart.congr hpersists.1 hdependencies, hpersists.belongs h.belongs,
    h.registersWith.congr hscopes⟩

theorem Inside.enrolls (h : c.Inside o p) (henrolls : c.Enrolls owner ns c') : c'.Inside o p :=
  h.persists henrolls.persists henrolls.dependencies_eq henrolls.scopes_eq

theorem Inside.drafts (h : c.Inside o p) (hdrafts : c.Drafts n x r c') : c'.Inside o p := by
  refine h.persists ⟨hdrafts.id_eq, fun {y r'} hy => ⟨r', ?_, rfl, rfl⟩⟩ hdrafts.dependencies_eq ?_
  · rw [hdrafts.record?_eq, if_neg, hy]
    rintro rfl
    rw [hdrafts.fresh] at hy
    cases hy
  · obtain ⟨_, _, _, _, _, rfl⟩ := hdrafts.declares
    rfl

end Context

namespace Analyzing

variable {c c' : Context} {f n : Node} {o : Option Node} {p : Parents} {x y : SymbolId}
  {r : Record} {ns ns' : List Node} {owner : NodeId → Option Node}

/-! ## Registration -/

theorem registers_reporting {step : Library → Except SemanticError Unit × Library}
    (h : c.library.Registers x r p (step c.library)) :
    c.Registers x r p ((reporting step).run c).2 := by
  rw [run_reporting]
  refine ⟨⟨_, _, _, _, _, rfl⟩, h.id_eq, h.dependencies_eq, List.subset_append_left _ _, rfl,
    h.others, h.own.imp_right fun ⟨herror, hr⟩ => ⟨?_, hr⟩⟩
  simp [herror, failure]

theorem registers_declareGlobal (hr : c.library.record? x = some r) (hparents : r.parents = {}) :
    c.Registers x r {} ((declareGlobal r.name x r.span).run c).2 := by
  obtain ⟨library, globals, errors, hrun, -, hlibrary⟩ := run_declareGlobal c r.name x r.span
  have hgrows : (declareGlobal r.name x r.span).Grows :=
    reports_declareGlobal _ _ _ (fun _ _ => trivial) fun _ => trivial
  obtain ⟨es, herrors, -⟩ := hgrows c
  have hrecord : ∀ z, library.record? z = c.library.record? z := by
    rcases hlibrary with rfl | ⟨name, rfl⟩
    · exact fun _ => rfl
    · exact Library.record?_congr fun z => Library.symbol?_publish ..
  have hlinks : library.id = c.library.id ∧ library.dependencies = c.library.dependencies := by
    rcases hlibrary with rfl | ⟨name, rfl⟩ <;> exact ⟨rfl, rfl⟩
  rw [hrun] at herrors ⊢
  refine ⟨⟨_, _, _, _, _, rfl⟩, hlinks.1, hlinks.2, herrors ▸ List.subset_append_left _ _, rfl, fun z _ => hrecord z, .inl ?_⟩
  rw [hrecord, hr, ← hparents]

theorem registers_addLocal (hc : c.Inside (some f) ⟨some x, none⟩)
    (hlibrary : y.library = c.library.id) (hr : c.library.record? y = some r)
    (hparents : r.parents = {}) :
    c.Registers y r ⟨some x, none⟩ ((reporting (·.addLocal x y)).run c).2 := by
  cases hc.belongs with
  | function _ hx =>
    obtain ⟨-, r', hr', hsort, -⟩ := hx
    exact registers_reporting (hc.isApart.registers_addLocal hlibrary hr hparents
      (Library.isSome_function?_iff.2 ⟨r', hr', hsort⟩))

theorem registers_addLabel (hc : c.Inside (some f) ⟨some x, none⟩)
    (hlibrary : y.library = c.library.id) (hr : c.library.record? y = some r)
    (hparents : r.parents = {}) :
    c.Registers y r ⟨some x, none⟩ ((reporting (·.addLabel x y)).run c).2 := by
  cases hc.belongs with
  | function _ hx =>
    obtain ⟨hown, r', hr', hsort, -⟩ := hx
    exact registers_reporting (hc.isApart.registers_addLabel hlibrary hr hparents hown
      (Library.isSome_function?_iff.2 ⟨r', hr', hsort⟩))

theorem registers_addMember (hc : c.Inside o ⟨none, some x⟩)
    (hlibrary : y.library = c.library.id) (hr : c.library.record? y = some r)
    (hparents : r.parents = {}) :
    c.Registers y r ⟨none, some x⟩ ((reporting (·.addMember x y)).run c).2 := by
  cases hc.belongs with
  | classBody _ hx =>
    obtain ⟨hown, r', hr', hsort, -⟩ := hx
    refine registers_reporting (hc.isApart.registers_addMember hlibrary hr hparents ?_)
    rw [hc.isApart.owned?_eq hown, Library.isSome_type?_iff]
    exact ⟨r', hr', hsort ▸ trivial⟩

/-- What is declared here gets the parents of what stands here. -/
theorem registers_register (hc : c.Inside o p) (hlibrary : x.library = c.library.id)
    (hr : c.library.record? x = some r) (hparents : r.parents = {}) :
    c.Registers x r p ((register r.name x r.span).run c).2 := by
  have hscopes := hc.registersWith
  cases hc.belongs with
  | unit =>
    have hrun : (register r.name x r.span).run c = (declareGlobal r.name x r.span).run c := by
      have hnone : c.scopes.registrationTarget? = none := hscopes
      rw [register, run_get_bind]
      simp only [hnone]
    rw [hrun]
    exact registers_declareGlobal hr hparents
  | function =>
    rw [run_register_local hscopes]
    exact registers_addLocal hc hlibrary hr hparents
  | @classBody d y =>
    obtain ⟨e, he, hkind, hsymbol⟩ := hscopes
    have hrun : ((register r.name x r.span).run c).2 =
        ((reporting (·.addMember y x)).run c).2 := by
      rw [register, run_get_bind]
      simp only [he, hkind, hsymbol]
      rfl
    rw [hrun]
    exact registers_addMember hc hlibrary hr hparents

/-! ## Steps that enroll -/

/-- The step makes symbols for these nodes, which stand in the function. -/
def EnrollsIn (owner : NodeId → Option Node) (f : Node) (x : SymbolId) (ns : List Node)
    (m : Analyzing Unit) : Prop :=
  ∀ ⦃c : Context⦄, c.Inside (some f) ⟨some x, none⟩ → (ns.map Node.id).Nodup →
    (∀ n ∈ ns, owner n.id = some f) → c.Enrolls owner ns (m.run c).2

namespace EnrollsIn

variable {m : Analyzing Unit} {m' : Unit → Analyzing Unit}

theorem of_visits (h : m.Visits) : EnrollsIn owner f x [] m := by
  intro c _ _ _
  obtain ⟨visits, hrun⟩ := h c
  rw [hrun]
  exact .of_visits visits

theorem bind (h : EnrollsIn owner f x ns m) (h' : EnrollsIn owner f x ns' (m' ())) :
    EnrollsIn owner f x (ns ++ ns') (m >>= m') := by
  intro c hc hnodup howner
  rw [List.forall_mem_append] at howner
  have hnodups := hnodup
  rw [List.map_append, List.nodup_append] at hnodups
  have hfirst := h hc hnodups.1 howner.1
  exact hfirst.trans (h' (hc.enrolls hfirst) hnodups.2.1 howner.2) hnodup

theorem inBlock (h : EnrollsIn owner f x ns m) (node : NodeId) :
    EnrollsIn owner f x ns (inScope .block node none m) := by
  intro c hc hnodup howner
  have hpushed :
      { c with scopes := c.scopes.push .block node none }.Inside (some f) ⟨some x, none⟩ :=
    ⟨hc.isApart, Context.Persists.belongs (c := c) ⟨rfl, fun hr => ⟨_, hr, rfl, rfl⟩⟩ hc.belongs,
      Context.InFunction.push hc.registersWith node⟩
  exact (h hpushed hnodup howner).pop 

end EnrollsIn

/-! ## Variables, parameters and labels -/

/-- The symbol of a node before it is registered. -/
theorem drafts_place (hlib : c.library.IsApart) (kind : SymbolKind) (hkind : ∀ t, kind ≠ .type t)
    (name : Ident) (hn : n.head.declared? = some (name, kind.sort)) (type : Option SymbolId)
    (visits : List Visit) :
    let x := (c.library.alloc { name := name.name, kind, span := name.span }).1
    c.Drafts n x ⟨name.name, name.span, kind.sort, some n.id, {}⟩ ((place n.id x type).run
      { c with
        library := (c.library.alloc { name := name.name, kind, span := name.span }).2
        visits }).2 :=
  (makes_place hlib kind hkind name n.id type visits).drafts ⟨hn, rfl⟩ rfl

theorem enrolls_bindVariable (d : VariableDecl) (hc : c.Inside o p)
    (howner : owner d.place.id = o) :
    c.Enrolls owner [⟨d.place, .variable d.name⟩] ((bindVariable d).run c).2 := by
  have hdrafts := drafts_place (n := ⟨d.place, .variable d.name⟩) hc.isApart (.variable false)
    (by simp) d.name rfl (c.localType? (.variable d))
    (⟨.binding, d.place.id, c.scopes.entries⟩ :: c.visits)
  have hregisters := registers_register (hc.drafts hdrafts)
    (hdrafts.library_eq.trans hdrafts.id_eq.symm)
    ((hdrafts.record?_eq _).trans (if_pos rfl)) rfl
  exact hdrafts.enrolls (.of_visits _) (howner ▸ hc.belongs) hregisters (by simp)

theorem enrollsIn_bindVariable (d : VariableDecl) :
    EnrollsIn owner f x [⟨d.place, .variable d.name⟩] (bindVariable d) :=
  fun _ hc _ howner => enrolls_bindVariable d hc (howner _ List.mem_cons_self)

theorem enrollsIn_bindParameter (d : Parameter) :
    EnrollsIn owner f x [⟨d.place, .parameter d.name⟩] (bindParameter x d) := by
  intro c hc _ howner
  have hdrafts := drafts_place (n := ⟨d.place, .parameter d.name⟩) hc.isApart (.variable true)
    (by simp) d.name rfl (c.localType? (.parameter d))
    (⟨.binding, d.place.id, c.scopes.entries⟩ :: c.visits)
  have hregisters := registers_addLocal (hc.drafts hdrafts)
    (hdrafts.library_eq.trans hdrafts.id_eq.symm) ((hdrafts.record?_eq _).trans (if_pos rfl)) rfl
  refine hdrafts.enrolls (.of_visits _) ?_ hregisters (by simp)
  rw [howner _ List.mem_cons_self]
  exact hc.belongs

theorem enrollsIn_bindLabel (place : Place) (name : Ident) :
    EnrollsIn owner f x [⟨place, .label name⟩] (bindLabel place name) := by
  intro c hc _ howner
  have hdrafts := drafts_place (n := ⟨place, .label name⟩) hc.isApart .label (by simp) name rfl none
    (⟨.binding, place.id, c.scopes.entries⟩ :: c.visits)
  have hc' := hc.drafts hdrafts
  have hregisters := registers_addLabel hc' (hdrafts.library_eq.trans hdrafts.id_eq.symm)
    ((hdrafts.record?_eq _).trans (if_pos rfl)) rfl
  rw [← run_enterLabel hc'.registersWith name] at hregisters
  rw [run_bindLabel]
  refine hdrafts.enrolls (.of_visits _) ?_ hregisters (by simp)
  rw [howner _ List.mem_cons_self]
  exact hc.belongs

/-! ## Statements -/

theorem enrollsIn_bindInit (init : ForInit) :
    EnrollsIn owner f x (init.locals.map LocalDecl.node) (bindInit init) := by
  match init with
  | .nothing => exact .of_visits visits_pure
  | .variable d => exact enrollsIn_bindVariable d
  | .expr e => exact .of_visits (visits_passExpr e)

mutual

theorem enrollsIn_bindStmt :
    (s : Stmt) → EnrollsIn owner f x (s.locals.map LocalDecl.node) (bindStmt s)
  | .label place name => enrollsIn_bindLabel place name
  | .goto place _ | .breakLoop place | .continueLoop place => .of_visits (visits_visit _ place.id)
  | .returns place value => .of_visits ((visits_visit _ place.id).bind (visits_passOption value))
  | .variable d => enrollsIn_bindVariable d
  | .expr e => .of_visits (visits_passExpr e)
  | .branch b => enrollsIn_bindBranch b
  | .whileLoop place condition body =>
    (EnrollsIn.of_visits (visits_visit _ place.id)).bind <|
      (EnrollsIn.of_visits (visits_passExpr condition)).bind (enrollsIn_bindScope body)
  | .forLoop place init condition step body => by
    rw [Stmt.locals, List.map_append]
    exact (EnrollsIn.of_visits (visits_visit _ place.id)).bind <| (enrollsIn_bindInit init).bind <|
      (EnrollsIn.of_visits (visits_passOption condition)).bind <|
        (EnrollsIn.of_visits (visits_passOption step)).bind (enrollsIn_bindScope body)

theorem enrollsIn_bindBranch :
    (br : Branch) → EnrollsIn owner f x (br.locals.map LocalDecl.node) (bindBranch br)
  | .mk place condition body otherwise => by
    rw [Branch.locals, List.map_append]
    exact (EnrollsIn.of_visits (visits_visit _ place.id)).bind <|
      (EnrollsIn.of_visits (visits_passExpr condition)).bind <|
        (enrollsIn_bindScope body).bind (enrollsIn_bindOtherwise otherwise)

theorem enrollsIn_bindOtherwise :
    (o : Otherwise) → EnrollsIn owner f x (o.locals.map LocalDecl.node) (bindOtherwise o)
  | .nothing => .of_visits visits_pure
  | .branch b => enrollsIn_bindBranch b
  | .scope s => enrollsIn_bindScope s

theorem enrollsIn_bindScope :
    (s : Scope) → EnrollsIn owner f x (s.locals.map LocalDecl.node) (bindScope s)
  | .mk place statements =>
    (EnrollsIn.of_visits (visits_visit _ place.id)).bind
      ((enrollsIn_bindStmts statements).inBlock place.id)

theorem enrollsIn_bindStmts : (ss : List Stmt) →
    EnrollsIn owner f x ((Stmt.listLocals ss).map LocalDecl.node) (bindStmts ss)
  | [] => .of_visits visits_pure
  | s :: ss => by
    rw [Stmt.listLocals, List.map_append]
    exact (enrollsIn_bindStmt s).bind (enrollsIn_bindStmts ss)

end

theorem enrollsIn_bindParameters (ps : List Parameter) :
    EnrollsIn owner f x ((ps.map LocalDecl.parameter).map LocalDecl.node)
      (ps.forM (bindParameter x)) := by
  induction ps with
  | nil => exact .of_visits visits_pure
  | cons p ps ih =>
    change EnrollsIn owner f x _ (bindParameter x p >>= fun _ => ps.forM (bindParameter x))
    exact (enrollsIn_bindParameter p).bind ih

theorem enrollsIn_body (d : FunctionDecl) :
    EnrollsIn owner f x (d.locals.map LocalDecl.node) (do
      d.parameters.forM (bindParameter x)
      bindScope d.body) := by
  rw [FunctionDecl.locals, List.map_append]
  exact (enrollsIn_bindParameters d.parameters).bind (enrollsIn_bindScope d.body)

/-! ## Functions -/

/-- The locals of a function are enrolled in front of its registration. -/
theorem enrolls_function {d : FunctionDecl} (hc : c.Inside o p)
    (hdrafts : c.Drafts d.node x ⟨d.name.name, d.name.span, .function, some d.node.id, {}⟩ c')
    (hnodup : (d.tree.declarations.map Node.id).Nodup) (howner : owner d.place.id = o)
    (hlocals : ∀ l ∈ d.locals, owner l.place.id = some d.node) :
    c.Enrolls owner d.tree.declarations ((register d.name.name x d.name.span).run
      ((inScope .function d.place.id (some x) do
        d.parameters.forM (bindParameter x)
        bindScope d.body).run c').2).2 := by
  rw [d.declarations_tree] at hnodup ⊢
  have hc' := hc.drafts hdrafts
  have hown : x.library = c'.library.id := hdrafts.library_eq.trans hdrafts.id_eq.symm
  have hrecord := (hdrafts.record?_eq x).trans (if_pos rfl)
  have hinside : { c' with scopes := c'.scopes.push .function d.place.id (some x) }.Inside
      (some d.node) ⟨some x, none⟩ :=
    ⟨hc'.isApart, .function rfl ⟨hown, _, hrecord, rfl, rfl⟩, ⟨_, rfl, rfl, rfl⟩, rfl⟩
  have hbody := (enrollsIn_body d hinside (List.nodup_cons.1 hnodup).2
    (by simpa [LocalDecl.id_node] using hlocals)).pop 
  have hregisters := registers_register (hc'.enrolls hbody) (hown.trans hbody.id_eq.symm)
    (hbody.record hrecord) rfl
  refine hdrafts.enrolls hbody ?_ hregisters hnodup
  change c.Belongs (owner d.place.id) p
  rw [howner]
  exact hc.belongs

/-- What is declared in a function stands in the function, and the function stands here. -/
theorem enrolls_bindFunction (d : FunctionDecl) (hc : c.Inside o p)
    (hnodup : (d.tree.declarations.map Node.id).Nodup) (howner : owner d.place.id = o)
    (hlocals : ∀ l ∈ d.locals, owner l.place.id = some d.node) :
    c.Enrolls owner d.tree.declarations ((bindFunction d).run c).2 :=
  enrolls_function hc (drafts_place hc.isApart (.function {}) (by simp) d.name rfl
    (c.annotations.signatures.get? d.place.id)
    (⟨.binding, d.place.id, c.scopes.entries⟩ :: c.visits)) hnodup howner hlocals

/-! ## Members and declarations -/

theorem enrolls_bindMember (m : Member) (hc : c.Inside o p)
    (hnodup : (m.tree.declarations.map Node.id).Nodup) (howner : owner m.place.id = o)
    (hlocals : ∀ d ∈ m.functions, ∀ l ∈ d.locals, owner l.place.id = some d.node) :
    c.Enrolls owner m.tree.declarations ((bindMember m).run c).2 := by
  match m with
  | .variable d =>
    rw [Member.tree, d.declarations_tree]
    exact enrolls_bindVariable d hc howner
  | .function d => exact enrolls_bindFunction d hc hnodup howner (hlocals d (by simp [Member.functions]))

/-- One step after the other, while something stays true that the steps need. -/
theorem enrolls_forM {α : Type} {step : α → Analyzing Unit} {nodes : α → List Node}
    {P : Context → Prop} (xs : List α) (hc : P c)
    (hnodup : ((xs.flatMap nodes).map Node.id).Nodup)
    (hP : ∀ x ∈ xs, ∀ {c c' : Context}, P c → c.Enrolls owner (nodes x) c' → P c')
    (h : ∀ x ∈ xs, ∀ {c : Context}, P c → ((nodes x).map Node.id).Nodup →
      c.Enrolls owner (nodes x) ((step x).run c).2) :
    c.Enrolls owner (xs.flatMap nodes) ((xs.forM step).run c).2 := by
  induction xs generalizing c with
  | nil => exact .of_visits c.visits
  | cons x xs ih =>
    rw [List.forall_mem_cons] at h hP
    have hnodups := hnodup
    rw [List.flatMap_cons, List.map_append, List.nodup_append] at hnodups
    have hfirst := h.1 hc hnodups.1
    exact hfirst.trans (ih (hP.1 hc hfirst) hnodups.2.1 hP.2 h.2) hnodup

theorem enrolls_bindClass (d : ClassDecl) (hlib : c.library.IsApart)
    (hd : c.Declared ⟨d.place, .classDecl d.name⟩ (.type .classType) y)
    (hy : c.annotations.symbols.get? d.place.id = some y)
    (hnodup : (d.tree.declarations.map Node.id).Nodup)
    (howner : ∀ m ∈ d.members, owner m.place.id = some ⟨d.place, .classDecl d.name⟩)
    (hlocals : ∀ m ∈ d.members, ∀ e ∈ m.functions, ∀ l ∈ e.locals,
      owner l.place.id = some e.node) :
    c.Enrolls owner d.tree.declarations ((bindClass d).run c).2 := by
  rw [d.declarations_tree] at hnodup ⊢
  have hinside : Context.Inside { c with
      visits := ⟨.binding, d.place.id, c.scopes.entries⟩ :: c.visits
      scopes := c.scopes.push .classBody d.place.id (c.annotations.symbols.get? d.place.id) }
      (some ⟨d.place, .classDecl d.name⟩) ⟨none, some y⟩ :=
    ⟨hlib, .classBody rfl hd, _, rfl, rfl, hy⟩
  exact (enrolls_forM d.members hinside hnodup (fun _ _ _ _ hc h => hc.enrolls h)
    fun m hm _ hc hnodup => enrolls_bindMember m hc hnodup (howner m hm) (hlocals m hm)).pop

/-! ## Classes -/

theorem drafts_class (hlib : c.library.IsApart) (d : ClassDecl) :
    let s := Library.classSymbol d.name.name d.name.span
    let x := (c.library.alloc s).1
    c.Drafts ⟨d.place, .classDecl d.name⟩ x
      ⟨d.name.name, d.name.span, .type .classType, some d.place.id, {}⟩ { c with
        library := (c.library.alloc s).2.setDeclaration x d.place.id
        annotations := { c.annotations with
          symbols := c.annotations.symbols.insert d.place.id x } } := by
  intro s x
  have halloc : (c.library.alloc s).2.IsApart := hlib.congr rfl rfl
  obtain ⟨hid, hdependencies⟩ := (c.library.alloc s).2.update_links x
    fun s => { s with declaration := some d.place.id }
  have hmade : ∀ y, (c.library.alloc s).2.record? y =
      if y = x then some s.record else c.library.record? y := by
    intro y
    rw [Library.record?, hlib.symbol?_alloc]
    split <;> rfl
  refine ⟨⟨_, _, _, _, _, rfl⟩, hid, hdependencies, rfl, rfl, fun y => ?_, ?_, rfl, ⟨rfl, rfl⟩, rfl⟩
  · have hset := halloc.record?_update (x := x) rfl (f := fun s =>
      { s with declaration := some d.place.id }) (g := fun r =>
      { r with declaration := some d.place.id }) (fun _ => rfl) y
    refine hset.trans ?_
    rw [hmade, if_pos rfl, hmade]
    split <;> rfl
  · rw [Library.record?, hlib.symbol?_alloc_fst, Option.map_none]

/-- A class with a plain name is enrolled, and stands in nothing. -/
theorem enrolls_declareClass (d : ClassDecl) (hlib : c.library.IsApart)
    (hplain : IsPlainName d.name.name) (howner : owner d.place.id = none) :
    c.Enrolls owner [⟨d.place, .classDecl d.name⟩] ((declareClass d).run c).2 := by
  have hdrafts := drafts_class hlib d
  have hregisters := registers_declareGlobal ((hdrafts.record?_eq _).trans (if_pos rfl)) rfl
  have henrolls : c.Enrolls owner [⟨d.place, .classDecl d.name⟩] _ :=
    hdrafts.enrolls (.of_visits _) (p := {}) ?_ hregisters (by simp)
  · rw [run_declareClass_eq, Library.createType_of_isPlainName _ hplain]
    simpa only [Except.toOption, run_placeClass, failure, List.append_nil] using henrolls
  · change c.Belongs (owner d.place.id) {}
    rw [howner]
    exact .unit

end Analyzing

end Sable
