import Sable.Proofs.Analysis.Deciding
import Sable.Proofs.Symbol.Registering
import Sable.Proofs.Typing.Nodes

/-!
# Declared classes

The first phase makes a class symbol for every class of a unit. A class gets its name for the whole
unit unless the name is taken; then this is reported, and the class remains without a name.

## Main definitions

* `takenNames`: the names of a list that are taken, from before or by an earlier one.
* `Context.denoted?`: the symbol of the first node of a name.
* `Context.Declares`: what the declaration of names changes.
* `Context.Covers`: what the library publishes under such names is known to the unit.

## Main statements

* `Analyzing.run_declareClasses`: the names of the unit after the first phase.
-/
namespace Sable

/-! ## Names that are taken -/

/-- The names that are taken when their turn comes. Each name that had its turn is taken. -/
def takenNames (taken : String → Bool) : List Ident → List Ident
  | [] => []
  | name :: names =>
    (if taken name.name then [name] else []) ++
      takenNames (fun n => taken n || n == name.name) names

theorem takenNames_append (taken : String → Bool) (names names' : List Ident) :
    takenNames taken (names ++ names') = takenNames taken names ++
      takenNames (fun n => taken n || decide (n ∈ names.map Ident.name)) names' := by
  induction names generalizing taken with
  | nil => simp [takenNames]
  | cons name names ih =>
    rw [List.cons_append, takenNames, takenNames, ih, List.append_assoc]
    congr 3
    funext n
    simp [Bool.or_assoc, beq_eq_decide]

/-- Nothing is taken exactly if all names are new and none comes twice. -/
theorem takenNames_eq_nil {taken : String → Bool} {names : List Ident} :
    takenNames taken names = [] ↔
      (∀ name ∈ names, taken name.name = false) ∧ (names.map Ident.name).Nodup := by
  induction names generalizing taken with
  | nil => simp [takenNames]
  | cons name names ih =>
    rw [takenNames, List.append_eq_nil_iff, ih, List.map_cons, List.nodup_cons, List.forall_mem_cons]
    cases htaken : taken name.name with
    | true => simp
    | false => grind

theorem takenNames_subset (taken : String → Bool) (names : List Ident) :
    takenNames taken names ⊆ names := by
  induction names generalizing taken with
  | nil => exact List.Subset.refl _
  | cons name names ih =>
    rw [takenNames, List.append_subset]
    refine ⟨fun x hx => ?_, List.Subset.trans (ih _) (List.subset_cons_self _ _)⟩
    split at hx
    · exact List.mem_singleton.1 hx ▸ List.mem_cons_self
    · simp at hx

/-- The error is about a name that is taken. -/
def SemanticError.isSameName : SemanticError → Bool
  | .sameName .. => true
  | _ => false

/-- The errors about names that are taken. -/
def sameNames (names : List Ident) : List SemanticError :=
  names.map fun name => .sameName name.name name.span

@[simp] theorem sameNames_append (names names' : List Ident) :
    sameNames (names ++ names') = sameNames names ++ sameNames names' :=
  List.map_append

theorem isSameName_of_mem_sameNames {names : List Ident} {e : SemanticError}
    (h : e ∈ sameNames names) : e.isSameName = true := by
  obtain ⟨name, -, rfl⟩ := List.mem_map.1 h
  rfl

/-! ## Libraries -/

namespace Library

theorem splitStars_of_isPlainName {name : String} (h : IsPlainName name) :
    splitStars name = (name, 0) := by
  have hstars : name.toList.reverse.takeWhile (· == '*') = [] := by
    cases hrev : name.toList.reverse with
    | nil => rfl
    | cons ch rest =>
      have hne : ch ≠ '*' := by
        rintro rfl
        exact h.1 (by rw [← List.head?_reverse, hrev, List.head?_cons])
      simp [hne]
  simp [splitStars, hstars]

/-- The symbol of a new class. -/
def classSymbol (name : String) (span : Span) : Symbol :=
  { name, kind := .type ⟨.classType, .empty⟩, span }

theorem createType_of_isPlainName (lib : Library) {name : String} (h : IsPlainName name)
    (span : Span) : lib.createType name false span =
      (.ok (lib.alloc (classSymbol name span)).1, (lib.alloc (classSymbol name span)).2) := by
  rw [createType, splitStars_of_isPlainName h]
  rfl

theorem span_of_createType {lib : Library} {name : String} {isGlobal : Bool} {span : Span}
    {e : SemanticError} (h : (lib.createType name isGlobal span).1 = .error e) : e.span = span := by
  unfold createType at h
  split at h
  · split at h
    · simp at h
    · rw [← Except.error.inj h]
      rfl
  · split at h
    · rw [← Except.error.inj h]
      rfl
    · simp at h

theorem lookupGlobal?_eq (lib : Library) (name : String) : lib.lookupGlobal? name =
    (lib.globals.get? name).or ((reachAll lib.dependencies).findSome? (·.global? name)) := by
  rw [lookupGlobal?, firstSome?_eq, reach_eq, List.findSome?_cons, global?]
  cases lib.globals.get? name <;> rfl

/-- A class that is made leaves the links as they are. -/
theorem IsApart.createType {lib : Library} (hlib : lib.IsApart) (name : String) (span : Span) :
    (lib.createType name false span).2.id = lib.id ∧
      (lib.createType name false span).2.dependencies = lib.dependencies := by
  unfold Library.createType
  split
  · split
    · have hinterns := hlib.interns_pointerType
      exact ⟨(hinterns _ _).id_eq, (hinterns _ _).dependencies_eq⟩
    · exact ⟨rfl, rfl⟩
  · exact ⟨rfl, rfl⟩

end Library

/-! ## Names of the whole unit -/

/-- The name of a class and its node. -/
def ClassDecl.entry (d : ClassDecl) : String × NodeId := (d.name.name, d.place.id)

/-- The first of these nodes that has the name and a symbol, by its symbol. -/
def Context.denoted? (c : Context) (ds : List (String × NodeId)) (name : String) :
    Option SymbolId :=
  ds.findSome? fun d => if d.1 = name then c.annotations.symbols.get? d.2 else none

theorem Context.denoted?_append (c : Context) (ds ds' : List (String × NodeId)) (name : String) :
    c.denoted? (ds ++ ds') name = (c.denoted? ds name).or (c.denoted? ds' name) :=
  List.findSome?_append

theorem Context.denoted?_cons (c : Context) (d : String × NodeId) (ds : List (String × NodeId))
    (name : String) : c.denoted? (d :: ds) name =
      (if d.1 = name then c.annotations.symbols.get? d.2 else none).or (c.denoted? ds name) := by
  rw [denoted?, List.findSome?_cons]
  split <;> simp_all [denoted?]

/-- What names mean depends on the symbols of their nodes only. -/
theorem Context.denoted?_congr {c c' : Context} {ds : List (String × NodeId)}
    (h : ∀ d ∈ ds, c'.annotations.symbols.get? d.2 = c.annotations.symbols.get? d.2)
    (name : String) : c'.denoted? ds name = c.denoted? ds name := by
  induction ds with
  | nil => rfl
  | cons d ds ih =>
    rw [List.forall_mem_cons] at h
    rw [denoted?_cons, denoted?_cons, h.1, ih h.2]

/-- The library, the names, the symbols of nodes, the visits and the errors are all that changes. -/
def Context.Declares (c c' : Context) : Prop :=
  ∃ library globals symbols visits errors, c' = { c with
    library, globals, visits, errors, annotations := { c.annotations with symbols } }

theorem Context.Declares.refl (c : Context) : c.Declares c := ⟨_, _, _, _, _, rfl⟩

theorem Context.Declares.trans {c c' c'' : Context} (h : c.Declares c') (h' : c'.Declares c'') :
    c.Declares c'' := by
  obtain ⟨_, _, _, _, _, rfl⟩ := h
  obtain ⟨_, _, _, _, _, rfl⟩ := h'
  exact ⟨_, _, _, _, _, rfl⟩

/-- Such a name is a name of the unit if the library publishes it. -/
def Context.Covers (c : Context) (names : String → Prop) : Prop :=
  ∀ ⦃name⦄, names name → (c.library.globals.get? name).isSome → (c.globals.get? name).isSome

/-- A name is declared. -/
def Context.declare (c : Context) (name : String) (x : SymbolId) : Context :=
  { c with globals := c.globals.insert name x, library := c.library.publish name x }

theorem Context.Covers.declare {names : String → Prop} {c : Context} (h : c.Covers names)
    (name : String) (x : SymbolId) : (c.declare name x).Covers names := by
  intro n hn
  rw [Context.declare, Library.publish, OrderedMap.get?_insert, OrderedMap.get?_insert]
  split
  · exact fun h => h
  · exact h hn

/-- A name that a program can write means what others publish, or else what the library does. -/
def Context.Publishes (others : String → Option SymbolId) (c : Context) : Prop :=
  ∀ ⦃name⦄, IsPlainName name →
    c.globals.get? name = (others name).or (c.library.globals.get? name)

theorem Context.Publishes.declare {others : String → Option SymbolId} {c : Context}
    (h : c.Publishes others) {name : String} (hname : c.globals.get? name = none) (x : SymbolId) :
    (c.declare name x).Publishes others := by
  intro n hn
  rw [Context.declare, Library.publish, OrderedMap.get?_insert, OrderedMap.get?_insert]
  split
  · next heq =>
    have hothers := h hn
    rw [heq, hname, eq_comm, Option.or_eq_none_iff] at hothers
    rw [heq, hothers.1, Option.none_or]
  · exact h hn

namespace Analyzing

variable {c : Context}

/-- A name that is not taken is declared, whatever the library has to say about it. -/
theorem run_declareGlobal (c : Context) (name : String) (x : SymbolId) (span : Span) :
    ∃ library globals errors, (declareGlobal name x span).run c =
        ((), { c with library, globals, errors }) ∧
      (∀ n, globals.get? n = Library.withName c.globals.get? name x n) ∧
      (library = c.library ∨ ∃ n, library = c.library.publish n x) := by
  have hrun : (declareGlobal name x span).run c = (if c.globals.contains name
      then report (.sameName name span)
      else do
        modify fun c => { c with globals := c.globals.insert name x }
        let _ ← reporting (·.registerGlobal x)).run c := rfl
  rw [hrun]
  split
  · next hcontains =>
    refine ⟨c.library, c.globals, _, rfl, fun n => ?_, .inl rfl⟩
    rw [Library.withName_of_isSome hcontains]
  · next hcontains =>
    have hnone : c.globals.get? name = none := by
      rwa [OrderedMap.contains, Option.not_isSome_iff_eq_none] at hcontains
    rw [run_bind, run_bind, run_reporting]
    refine ⟨_, _, _, rfl, Library.get?_insert_eq_withName (fun _ => rfl) hnone x, ?_⟩
    change (c.library.registerGlobal x).2 = c.library ∨
      ∃ n, (c.library.registerGlobal x).2 = c.library.publish n x
    unfold Library.registerGlobal
    split
    · exact .inl rfl
    · next s _ =>
      split
      · exact .inl rfl
      · exact .inr ⟨s.name, rfl⟩

/-- Whatever is wrong with a name is wrong where the symbol was declared. -/
theorem run_declareGlobal_of_symbol? {x : SymbolId} {s : Symbol}
    (hs : c.library.symbol? x = some s) (name : String) :
    ∃ library globals es, (declareGlobal name x s.span).run c =
        ((), { c with library, globals, errors := c.errors ++ es }) ∧
      (∀ e ∈ es, e.span = s.span) ∧
      (library = c.library ∨ library = c.library.publish s.name x) := by
  have hrun : (declareGlobal name x s.span).run c = (if c.globals.contains name
      then report (.sameName name s.span)
      else do
        modify fun c => { c with globals := c.globals.insert name x }
        let _ ← reporting (·.registerGlobal x)).run c := rfl
  rw [hrun]
  split
  · exact ⟨_, _, _, rfl, List.forall_mem_singleton.2 rfl, .inl rfl⟩
  · rw [run_bind, run_bind, run_reporting]
    refine ⟨_, _, _, rfl, ?_⟩
    change (∀ e ∈ failure (c.library.registerGlobal x).1, _) ∧
      ((c.library.registerGlobal x).2 = _ ∨ (c.library.registerGlobal x).2 = _)
    rw [Library.registerGlobal, hs]
    dsimp only
    split
    · exact ⟨List.forall_mem_singleton.2 rfl, .inl rfl⟩
    · exact ⟨by simp [failure], .inr rfl⟩

/-- The library has the last word about a name that is not taken. -/
theorem run_declareGlobal_eq {x : SymbolId} {s : Symbol} (hs : c.library.symbol? x = some s)
    (name : String) (span : Span) : (declareGlobal name x span).run c =
      ((), if (c.globals.get? name).isSome then
        { c with errors := c.errors ++ [.sameName name span] }
      else if (c.library.globals.get? s.name).isSome then
        { c with
          globals := c.globals.insert name x
          errors := c.errors ++ [.sameName s.name s.span] }
      else
        { c with
          globals := c.globals.insert name x
          library := c.library.publish s.name x }) := by
  have hrun : (declareGlobal name x span).run c = (if c.globals.contains name
      then report (.sameName name span)
      else do
        modify fun c => { c with globals := c.globals.insert name x }
        let _ ← reporting (·.registerGlobal x)).run c := rfl
  rw [hrun]
  by_cases htaken : (c.globals.get? name).isSome
  · rw [OrderedMap.contains, if_pos htaken, if_pos htaken]
    rfl
  · rw [OrderedMap.contains, if_neg htaken, if_neg htaken, run_bind, run_bind]
    by_cases hpublished : (c.library.globals.get? s.name).isSome
    · have hregister : c.library.registerGlobal x =
          (.error (.sameName s.name s.span), c.library) := by
        simp only [Library.registerGlobal, hs, OrderedMap.contains]
        exact if_pos hpublished
      rw [if_pos hpublished, run_reporting]
      change ((), { c with
        globals := c.globals.insert name x
        library := (c.library.registerGlobal x).2
        errors := c.errors ++ failure (c.library.registerGlobal x).1 }) = _
      rw [hregister]
      rfl
    · have hregister : c.library.registerGlobal x = (.ok (), c.library.publish s.name x) := by
        simp only [Library.registerGlobal, hs, OrderedMap.contains]
        exact if_neg hpublished
      rw [if_neg hpublished, run_reporting_ok hregister]
      rfl

/-- For a name that is covered, the library agrees. -/
theorem run_declareGlobal_of_covers {names : String → Prop} (hc : c.Covers names) {name : String}
    {x : SymbolId} {s : Symbol} (span : Span) (hcovered : names name)
    (hs : c.library.symbol? x = some s) (hname : s.name = name) :
    (declareGlobal name x span).run c = ((), if (c.globals.get? name).isSome then
      { c with errors := c.errors ++ [.sameName name span] } else c.declare name x) := by
  rw [run_declareGlobal_eq hs, hname]
  by_cases htaken : (c.globals.get? name).isSome
  · rw [if_pos htaken, if_pos htaken]
  · rw [if_neg htaken, if_neg htaken, if_neg (mt (hc hcovered) htaken)]
    rfl

/-! ## Classes -/

theorem reports_declareClass {S : SemanticError → Prop} (d : ClassDecl)
    (hname : ∀ name span, S (.sameName name span)) (hunknown : ∀ id, S (Library.unknown id))
    (hspan : ∀ e : SemanticError, e.span = d.name.span → S e) : (declareClass d).Reports S := by
  refine (reports_reporting fun lib e he => hspan e (Library.span_of_createType he)).bind
    fun created => ?_
  cases created with
  | none => exact reports_pure ()
  | some x => exact (reports_onLibrary _).bind fun _ => (reports_annotate _).bind fun _ =>
      reports_declareGlobal _ _ _ hname hunknown

/-- What is left to do with a class that is made. -/
def placeClass (d : ClassDecl) (x : SymbolId) : Analyzing Unit := do
  onLibrary fun lib => ((), lib.setDeclaration x d.place.id)
  annotate fun a => { a with symbols := a.symbols.insert d.place.id x }
  declareGlobal d.name.name x d.name.span

theorem run_placeClass (d : ClassDecl) (x : SymbolId) (c : Context) :
    (placeClass d x).run c = (declareGlobal d.name.name x d.name.span).run { c with
      library := c.library.setDeclaration x d.place.id
      annotations := { c.annotations with
        symbols := c.annotations.symbols.insert d.place.id x } } := rfl

theorem run_declareClass_eq (d : ClassDecl) (c : Context) : (declareClass d).run c =
    (match (c.library.createType d.name.name false d.name.span).1.toOption with
      | none => pure ()
      | some x => placeClass d x : Analyzing Unit).run { c with
        library := (c.library.createType d.name.name false d.name.span).2
        errors := c.errors ++ failure (c.library.createType d.name.name false d.name.span).1 } := by
  unfold declareClass
  rw [run_bind, run_reporting]
  cases (c.library.createType d.name.name false d.name.span).1 <;> rfl

/-- A class that is made gets its name unless that is taken. -/
theorem run_declareClass (hlib : c.library.IsApart) (d : ClassDecl)
    (hd : c.annotations.symbols.get? d.place.id = none) :
    ∃ c', (declareClass d).run c = ((), c') ∧ c.Declares c' ∧ c'.library.IsApart ∧
      (∀ n, n ≠ d.place.id → c'.annotations.symbols.get? n = c.annotations.symbols.get? n) ∧
      ∀ n, c'.globals.get? n =
        (c.globals.get? n).or (c'.denoted? [(d.name.name, d.place.id)] n) := by
  obtain ⟨hid, hdependencies⟩ := hlib.createType d.name.name d.name.span
  have hcreated := hlib.congr hid hdependencies
  rw [run_declareClass_eq]
  cases (c.library.createType d.name.name false d.name.span).1 with
  | error e =>
    refine ⟨_, rfl, ⟨_, _, _, _, _, rfl⟩, hcreated, fun n _ => rfl, fun n => ?_⟩
    simp [Context.denoted?, hd]
  | ok x =>
    simp only [Except.toOption, run_placeClass]
    obtain ⟨library, globals, errors, hrun, hglobals, hlibrary⟩ :=
      run_declareGlobal { c with
        library := (c.library.createType d.name.name false d.name.span).2.setDeclaration x d.place.id
        annotations := { c.annotations with
          symbols := c.annotations.symbols.insert d.place.id x }
        errors := c.errors ++ failure (Except.ok x) } d.name.name x d.name.span
    refine ⟨_, hrun, ⟨_, _, _, _, _, rfl⟩, ?_, fun n hn => ?_, fun n => ?_⟩
    · have hplaced := hcreated.update x fun s => { s with declaration := some d.place.id }
      rcases hlibrary with rfl | ⟨name, rfl⟩
      · exact hplaced
      · exact hplaced.congr rfl rfl
    · rw [OrderedMap.get?_insert, if_neg hn]
    · simp only [hglobals, Library.withName, Context.denoted?, List.findSome?_singleton,
        OrderedMap.get?_insert, if_true]
      by_cases hn : n = d.name.name
      · simp [hn]
      · simp [hn, Ne.symm hn]

/-- The names of the unit after the first phase: those of before, then the classes, of which the
first counts. -/
theorem run_declareClasses (hlib : c.library.IsApart) (ds : List ClassDecl)
    (hnodup : (ds.map fun d => d.place.id).Nodup)
    (hnew : ∀ d ∈ ds, c.annotations.symbols.get? d.place.id = none) :
    ∃ c', (ds.forM declareClass).run c = ((), c') ∧ c.Declares c' ∧ c'.library.IsApart ∧
      (∀ n ∉ ds.map fun d => d.place.id,
        c'.annotations.symbols.get? n = c.annotations.symbols.get? n) ∧
      ∀ n, c'.globals.get? n = (c.globals.get? n).or (c'.denoted? (ds.map ClassDecl.entry) n) := by
  induction ds generalizing c with
  | nil =>
    exact ⟨c, rfl, .refl c, hlib, fun _ _ => rfl, fun n => (Option.or_none ..).symm⟩
  | cons d ds ih =>
    rw [List.map_cons, List.nodup_cons] at hnodup
    rw [List.forall_mem_cons] at hnew
    obtain ⟨c₁, hrun, hdeclares, hlib₁, hrows, hglobals⟩ := run_declareClass hlib d hnew.1
    have hne : ∀ e ∈ ds, e.place.id ≠ d.place.id := fun e he heq =>
      hnodup.1 (heq ▸ List.mem_map_of_mem (f := fun d : ClassDecl => d.place.id) he)
    obtain ⟨c', hrun', hdeclares', hlib', hrows', hglobals'⟩ :=
      ih hlib₁ hnodup.2 fun e he => (hrows _ (hne e he)).trans (hnew.2 e he)
    refine ⟨c', ?_, hdeclares.trans hdeclares', hlib', fun n hn => ?_, fun n => ?_⟩
    · change (ds.forM declareClass).run ((declareClass d).run c).2 = _
      rw [hrun, hrun']
    · rw [List.map_cons, List.mem_cons, not_or] at hn
      exact (hrows' n hn.2).trans (hrows n hn.1)
    · have hentry : c'.denoted? [d.entry] n = c₁.denoted? [d.entry] n :=
        Context.denoted?_congr (by simpa [ClassDecl.entry] using hrows' _ hnodup.1) n
      have hcons : c'.denoted? ((d :: ds).map ClassDecl.entry) n =
          (c'.denoted? [d.entry] n).or (c'.denoted? (ds.map ClassDecl.entry) n) :=
        c'.denoted?_append [d.entry] _ n
      rw [hglobals', hglobals, hcons, hentry, Option.or_assoc]
      rfl

/-- A class with a plain name gets a symbol, which is left to declare. -/
theorem run_declareClass_of_isPlainName (hlib : c.library.IsApart) (d : ClassDecl)
    (hplain : IsPlainName d.name.name) : ∃ c' x s,
      (declareClass d).run c = (declareGlobal d.name.name x s.span).run c' ∧
      c'.errors = c.errors ∧ c'.library.symbol? x = some s ∧ s.name = d.name.name ∧
      s.span = d.name.span ∧ c'.library.globals = c.library.globals ∧
      c'.library.dependencies = c.library.dependencies := by
  let s := Library.classSymbol d.name.name d.name.span
  let x := (c.library.alloc s).1
  let lib := (c.library.alloc s).2.setDeclaration x d.place.id
  obtain ⟨symbols, hlib'⟩ := Library.exists_update_eq (c.library.alloc s).2 x fun s =>
    { s with declaration := some d.place.id }
  have hlib' : lib = { c.library with symbols } := hlib'
  refine ⟨{ c with
    library := lib
    annotations := { c.annotations with symbols := c.annotations.symbols.insert d.place.id x } },
    x, { s with declaration := some d.place.id }, ?_, rfl, ?_, rfl, rfl, by rw [hlib'], by rw [hlib']⟩
  · rw [run_declareClass_eq, Library.createType_of_isPlainName _ hplain]
    simp only [Except.toOption, run_placeClass, failure, List.append_nil]
    rfl
  · have halloc : (c.library.alloc s).2.IsApart := hlib.congr rfl rfl
    refine (halloc.symbol?_update x _ x).trans ?_
    rw [if_pos ⟨rfl, rfl⟩, hlib.symbol?_alloc, if_pos rfl]
    rfl

/-- A class that can be made: its name is plain, or it is a star and there is no type whose name is
what is left without it. -/
def CanMake (lib : Library) (d : ClassDecl) : Prop :=
  d.name.name ≠ "" ∧ (IsPlainName d.name.name ∨ d.name.name = "*" ∧ lib.lookupGlobal? "" = none)

/-- Whatever is wrong with the name of a class is wrong where the name stands. -/
theorem errors_declareClass (hlib : c.library.IsApart) {d : ClassDecl}
    (hd : CanMake c.library d) :
    (∃ es, ((declareClass d).run c).2.errors = c.errors ++ es ∧ ∀ e ∈ es, e.span = d.name.span) ∧
      (c.library.lookupGlobal? "" = none →
        ((declareClass d).run c).2.library.lookupGlobal? "" = none) := by
  obtain ⟨hne, hplain | ⟨hstar, hnone⟩⟩ := hd
  · obtain ⟨c', x, s, hrun, herrors, hs, hname, hspan, hglobals, hdependencies⟩ :=
      run_declareClass_of_isPlainName hlib d hplain
    obtain ⟨library, globals, es, hrun', hes, hlibrary⟩ :=
      run_declareGlobal_of_symbol? hs d.name.name
    rw [hrun, hrun']
    refine ⟨⟨es, by rw [herrors], fun e he => (hes e he).trans hspan⟩, fun hnone => ?_⟩
    rw [Library.lookupGlobal?_eq, ← hglobals, ← hdependencies] at hnone
    rw [Library.lookupGlobal?_eq]
    rcases hlibrary with rfl | rfl
    · exact hnone
    · rwa [Library.publish, OrderedMap.get?_insert, if_neg (hname ▸ hne.symm)]
  · have hcreate : c.library.createType d.name.name false d.name.span =
        (.error (.symbolNotFound "" d.name.span), c.library) := by
      have hsplit : Library.splitStars "*" = ("", 1) := by decide
      rw [hstar, Library.createType, hsplit]
      simp only [hnone, Option.filter_none]
    rw [run_declareClass_eq, hcreate]
    exact ⟨⟨_, rfl, List.forall_mem_singleton.2 rfl⟩, fun h => h⟩

/-- Whatever is wrong with the names of classes is wrong where a name stands. -/
theorem errors_declareClasses (hlib : c.library.IsApart) (ds : List ClassDecl)
    (hnodup : (ds.map fun d => d.place.id).Nodup)
    (hnew : ∀ d ∈ ds, c.annotations.symbols.get? d.place.id = none)
    (hds : ∀ d ∈ ds, CanMake c.library d) :
    ∃ es, ((ds.forM declareClass).run c).2.errors = c.errors ++ es ∧
      ∀ e ∈ es, ∃ d ∈ ds, e.span = d.name.span := by
  induction ds generalizing c with
  | nil => exact ⟨[], (List.append_nil _).symm, by simp⟩
  | cons d ds ih =>
    rw [List.map_cons, List.nodup_cons] at hnodup
    rw [List.forall_mem_cons] at hnew hds
    obtain ⟨c₁, hrun, -, hlib₁, hrows, -⟩ := run_declareClass hlib d hnew.1
    obtain ⟨⟨es, herrors, hes⟩, hlookup⟩ := errors_declareClass hlib hds.1
    rw [hrun] at herrors hlookup
    have hne : ∀ e ∈ ds, e.place.id ≠ d.place.id := fun e he heq =>
      hnodup.1 (heq ▸ List.mem_map_of_mem (f := fun d : ClassDecl => d.place.id) he)
    obtain ⟨es', herrors', hes'⟩ := ih hlib₁ hnodup.2
      (fun e he => (hrows _ (hne e he)).trans (hnew.2 e he))
      fun e he => ⟨(hds.2 e he).1, (hds.2 e he).2.imp_right fun h => ⟨h.1, hlookup h.2⟩⟩
    refine ⟨es ++ es', ?_, ?_⟩
    · change ((ds.forM declareClass).run ((declareClass d).run c).2).2.errors = _
      rw [hrun, herrors', herrors, List.append_assoc]
    · rw [List.forall_mem_append]
      exact ⟨fun e he => ⟨d, List.mem_cons_self, hes e he⟩, fun e he =>
        (hes' e he).imp fun _ h => ⟨List.mem_cons_of_mem d h.1, h.2⟩⟩

end Analyzing

end Sable
