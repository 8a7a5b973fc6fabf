import Sable.Proofs.Analysis.Phases
import Sable.Proofs.Analysis.Tracing

/-!
# Scopes mirror the tree

Declarations open scopes with symbols. The symbol of a class or a function is noted once, in front
of what is inside, and stays. So the symbols that the scopes hold are those that the analysis ends
with, and what each phase notes of its visits can be read off the tree and the final symbols.

## Main definitions

* `Analyzing.TracesBy`: a step that visits these trees, as seen from the symbols behind the step.

## Main statements

* `Analyzing.traces_bindStmt`: what is inside of functions, in the third phase.
* `Analyzing.tracesBy_entering`: a node whose scope has a symbol.
* `Analyzing.tracesBy_forM`: declarations one after another.
* `Block.visits_analyze`: all visits of an analysis.
-/
namespace Sable

open Sable.Tree

/-- Classes and functions, whose scopes have symbols. -/
def NodeKind.isOwner : NodeKind → Bool
  | .classDecl | .function => true
  | _ => false

theorem Member.root_ne_type (m : Member) : m.tree.root.kind ≠ .type := by
  cases m <;> simp [tree, VariableDecl.tree, FunctionDecl.tree, root, Node.kind, Head.kind]

theorem Declaration.root_ne_type (d : Declaration) : d.tree.root.kind ≠ .type := by
  cases d <;>
    simp [tree, ClassDecl.tree, VariableDecl.tree, FunctionDecl.tree, root, Node.kind, Head.kind]

theorem Phase.noted_subset {phase : Phase} {ts : List Tree} :
    phase.noted ts ⊆ (preorders ts).map Node.id :=
  List.map_subset _ (List.filter_subset_self _)

namespace Analyzing

variable {α β γ : Type} {phase : Phase} {n : Node} {ts us : List Tree} {m : Analyzing α}
  {f : α → Analyzing β}

/-! ## Bindings -/

theorem silent_giveType (x : SymbolId) (type : Option SymbolId) : (giveType x type).Silent := by
  cases type with
  | none => exact silent_pure ()
  | some type => exact silent_onLibrary _

theorem silent_declareGlobal (name : String) (x : SymbolId) (span : Span) :
    (declareGlobal name x span).Silent := by
  refine silent_get.bind fun c => ?_
  split
  · exact silent_report _
  · exact Silent.bind (silent_of_eq fun _ => ⟨rfl, rfl, rfl⟩) fun _ => silent_registering _

theorem silent_register (name : String) (x : SymbolId) (span : Span) :
    (register name x span).Silent := by
  refine silent_get.bind fun c => ?_
  split
  · exact silent_declareGlobal _ _ _
  · split
    · exact silent_registering _
    · exact silent_registering _
    · exact silent_pure ()

theorem goes_declareAt (k : NodeId) (x : SymbolId) : (declareAt k x).Goes [k] fun _ => [] :=
  (silent_onLibrary _).bind fun _ => goes_noteSymbol k x

theorem traces_bindVariable (d : VariableDecl) : Traces .binding [d.tree] (bindVariable d) := by
  refine traces_naming (n := ⟨d.place, .variable d.name⟩) ?_ rfl fun _ _ => rfl
  exact (silent_onLibrary _).bind fun _ => silent_get.bind fun _ => (silent_giveType _ _).bind
    fun _ => (goes_declareAt _ _).before fun _ => silent_register _ _ _

theorem traces_bindParameter (function : SymbolId) (p : Parameter) :
    Traces .binding [p.tree] (bindParameter function p) := by
  refine traces_naming (n := ⟨p.place, .parameter p.name⟩) ?_ rfl fun _ _ => rfl
  exact (silent_onLibrary _).bind fun _ => silent_get.bind fun _ => (silent_giveType _ _).bind
    fun _ => (goes_declareAt _ _).before fun _ => silent_registering _

theorem traces_bindLabel (place : Place) (name : Ident) :
    Traces .binding [.node ⟨place, .label name⟩ []] (bindLabel place name) := by
  refine traces_naming (n := ⟨place, .label name⟩) ?_ rfl (List.forall_mem_nil _)
  refine (silent_onLibrary _).bind fun x => (goes_declareAt _ _).before fun _ =>
    silent_get.bind fun c => ?_
  split
  · exact silent_registering _
  · exact silent_register _ _ _

theorem traces_passExpr (e : Expr) : Traces .binding [e.tree] (passExpr e) := by
  intro row
  have hall := goes_forM (g := fun n : Node => visit .binding n.id) e.tree.preorder
    fun n _ => goes_visit .binding n.id
  have hvisits : ∀ s, [e.tree].flatMap (visits .binding row s) =
      e.tree.preorder.flatMap fun n => [⟨.binding, n.id, s⟩] := by
    intro s
    rw [List.flatMap_singleton, visits_binding_expr e.tree e.kind_of_mem_preorder,
      List.map_eq_flatMap]
  simp only [hvisits]
  exact hall.mono (List.nil_subset _)

theorem traces_passOption (e : Option Expr) :
    Traces .binding (Expr.optionTrees e) (passOption e) :=
  traces_forM e.toList fun e _ => traces_passExpr e

theorem traces_bindInit : (init : ForInit) → Traces .binding init.trees (bindInit init)
  | .nothing => traces_pure ()
  | .variable d => traces_bindVariable d
  | .expr e => traces_passExpr e

mutual

theorem traces_bindStmt : (s : Stmt) → Traces .binding [s.tree] (bindStmt s)
  | .label place name => traces_bindLabel place name
  | .goto place label =>
    (traces_pure ()).inside (n := ⟨place, .goto label⟩) rfl fun _ _ => rfl
  | .returns place value =>
    (traces_passOption value).inside (n := ⟨place, .returns⟩)
      (List.filter_eq_self.2 fun _ _ => rfl) fun _ _ => rfl
  | .breakLoop place => (traces_pure ()).inside (n := ⟨place, .breakLoop⟩) rfl fun _ _ => rfl
  | .continueLoop place => (traces_pure ()).inside (n := ⟨place, .continueLoop⟩) rfl fun _ _ => rfl
  | .variable d => traces_bindVariable d
  | .expr e => traces_passExpr e
  | .branch b => traces_bindBranch b
  | .whileLoop place condition body =>
    ((traces_passExpr condition).bind fun _ => traces_bindScope body).inside
      (n := ⟨place, .whileLoop⟩) (List.filter_eq_self.2 fun _ _ => rfl) fun _ _ => rfl
  | .forLoop place init condition step body => by
    rw [Stmt.tree, List.append_assoc, List.append_assoc]
    exact ((traces_bindInit init).bind fun _ => (traces_passOption condition).bind fun _ =>
      (traces_passOption step).bind fun _ => traces_bindScope body).inside
        (n := ⟨place, .forLoop init.kind condition.isSome step.isSome⟩)
        (List.filter_eq_self.2 fun _ _ => rfl) fun _ _ => rfl

theorem traces_bindBranch : (b : Branch) → Traces .binding [b.tree] (bindBranch b)
  | .mk place condition body otherwise =>
    ((traces_passExpr condition).bind fun _ => (traces_bindScope body).bind fun _ =>
      traces_bindOtherwise otherwise).inside (n := ⟨place, .branch otherwise.kind⟩)
        (List.filter_eq_self.2 fun _ _ => rfl) fun _ _ => rfl

theorem traces_bindOtherwise : (o : Otherwise) → Traces .binding o.trees (bindOtherwise o)
  | .nothing => traces_pure ()
  | .branch b => traces_bindBranch b
  | .scope s => traces_bindScope s

theorem traces_bindScope : (s : Scope) → Traces .binding [s.tree] (bindScope s)
  | .mk place statements =>
    (traces_bindStmts statements).within (n := ⟨place, .scope⟩) (.inl rfl)
      (List.filter_eq_self.2 fun _ _ => rfl) fun _ _ => rfl

theorem traces_bindStmts : (ss : List Stmt) → Traces .binding (Stmt.trees ss) (bindStmts ss)
  | [] => traces_pure ()
  | s :: ss => (traces_bindStmt s).bind fun _ => traces_bindStmts ss

end

/-! ## Classes and functions -/

/-- The step visits the trees `us` and may give symbols to nodes of the trees `ts`, which have
different numbers. The classes and functions among them have the symbols behind the step that `row`
says. -/
def TracesBy (phase : Phase) (ts us : List Tree) (m : Analyzing Unit) : Prop :=
  ((preorders ts).map Node.id).Nodup → ∀ (c : Context) (row : NodeId → Option SymbolId),
    (∀ n ∈ preorders ts, n.kind.isOwner = true →
      row n.id = (m.run c).2.annotations.symbols.get? n.id) →
    c.Goes (phase.noted ts) (us.flatMap (visits phase row c.scopes.bare)) (m.run c).2

theorem Traces.by {m : Analyzing Unit} (hm : Traces phase ts m) : TracesBy phase ts ts m :=
  fun _ c row _ => hm row c

theorem preorders_singleton (n : Node) (ts : List Tree) :
    preorders [.node n ts] = n :: preorders ts := by
  simp [preorders, preorder]

theorem TracesBy.inside {m : Analyzing Unit} (hm : TracesBy phase ts ts m)
    (henters : ∀ t ∈ ts, phase.enters n t.root = true)
    (hopens : ∀ t ∈ ts, phase.opens? n t.root = none) :
    TracesBy phase [.node n ts] [.node n ts] (do visit phase n.id; m) := by
  intro hnodup c row hrow
  rw [preorders_singleton, List.map_cons, List.nodup_cons] at hnodup
  rw [preorders_singleton, List.forall_mem_cons] at hrow
  have hchildren := hm hnodup.2 ((visit phase n.id).run c).2 row hrow.2
  have hall := ((goes_visit phase n.id c).trans hchildren).mono
    (Phase.noted_subset_node (n := n))
  rw [List.flatMap_singleton, visits, visitsBelow_eq_flatMap hopens, List.filter_eq_self.2 henters]
  exact hall

/-- A node has got its symbol in front of its children, which are visited in a scope with this
symbol. It stays the symbol of the node, as no other node of the tree has the same number. -/
theorem tracesBy_entering {δ : Type} {kind : ScopeKind} {ns : List NodeId} {first : Analyzing δ}
    {inner : δ → Analyzing Unit} (symbol : δ → Option SymbolId) (last : δ → Analyzing Unit)
    (howner : n.kind.isOwner = true) (hkind : kind = .classBody ∨ kind = .function)
    (henters : (ts.filter fun t => phase.enters n t.root) = us)
    (hopens : ∀ t ∈ ts, phase.opens? n t.root = some kind)
    (hfirst : first.Goes ns fun _ => []) (hns : ns ⊆ phase.noted [.node n ts])
    (hsymbol : ∀ c, (first.run c).2.annotations.symbols.get? n.id = symbol (first.run c).1)
    (hinner : ∀ x, TracesBy phase ts us (inner x))
    (hlast : ∀ x, (last x).Silent) :
    TracesBy phase [.node n ts] [.node n ts] (do
      visit phase n.id
      let x ← first
      inScope kind n.id (symbol x) (inner x)
      last x) := by
  intro hnodup c row hrow
  rw [preorders_singleton, List.map_cons, List.nodup_cons] at hnodup
  rw [preorders_singleton, List.forall_mem_cons] at hrow
  let c₁ := ((visit phase n.id).run c).2
  let x := (first.run c₁).1
  let c₂ := (first.run c₁).2
  let c₃ : Context := { c₂ with scopes := c₂.scopes.push kind n.id (symbol x) }
  let c₄ := ((inner x).run c₃).2
  have hvisit : c.Goes [] [⟨phase, n.id, c.scopes.bare⟩] c₁ := goes_visit phase n.id c
  have hfirst : c₁.Goes ns [] c₂ := hfirst c₁
  have hlast : Context.Goes [] [] { c₄ with scopes := c₄.scopes.pop } _ := hlast x _
  have hinner := hinner x hnodup.2 c₃ row fun k hk howner =>
    (hrow.2 k hk howner).trans (hlast.symbols_eq k.id List.not_mem_nil)
  have hn : row n.id = symbol x :=
    calc row n.id = c₄.annotations.symbols.get? n.id :=
          (hrow.1 howner).trans (hlast.symbols_eq n.id List.not_mem_nil)
      _ = c₃.annotations.symbols.get? n.id :=
          hinner.symbols_eq n.id fun hmem => hnodup.1 (Phase.noted_subset hmem)
      _ = symbol x := hsymbol c₁
  have hscopes : c₃.scopes.bare = ScopeEntry.ofNode row n.id kind :: c.scopes.bare := by
    have hbare : c₂.scopes.bare = c.scopes.bare := hfirst.scopes_eq.trans hvisit.scopes_eq
    rw [← hbare]
    rcases hkind with rfl | rfl <;> simp only [ScopeEntry.ofNode, hn] <;> rfl
  have hall := hvisit.trans (hfirst.trans (hinner.pop.trans hlast))
  rw [hscopes, List.nil_append, List.nil_append, List.append_nil, List.append_nil] at hall
  rw [List.flatMap_singleton, visits, visitsBelow_eq_flatMap hopens, henters]
  exact hall.mono (List.append_subset.2 ⟨hns, Phase.noted_subset_node⟩)

theorem tracesBy_forM {tree : γ → Tree} {g : γ → Analyzing Unit} (xs : List γ)
    (h : ∀ x ∈ xs, TracesBy phase [tree x] [tree x] (g x)) :
    TracesBy phase (xs.map tree) (xs.map tree) (xs.forM g) := by
  induction xs with
  | nil => exact fun _ c _ _ => .refl c
  | cons x xs ih =>
    intro hnodup c row hrow
    rw [List.forall_mem_cons] at h
    rw [List.map_cons, preorders, List.map_append, List.nodup_append] at hnodup
    rw [List.map_cons, preorders, List.forall_mem_append] at hrow
    have hrest := ih h.2 hnodup.2.1 ((g x).run c).2 row hrow.2
    -- what follows leaves the symbols of the first tree as they are
    have hkeep : ∀ n ∈ (tree x).preorder, n.id ∉ phase.noted (xs.map tree) := fun n hn hmem =>
      hnodup.2.2 n.id (List.mem_map_of_mem hn) n.id (Phase.noted_subset hmem) rfl
    have hfirst := h.1 (by simpa [preorders] using hnodup.1) c row (by
      simp only [preorders, List.append_nil]
      exact fun n hn howner => (hrow.1 n hn howner).trans (hrest.symbols_eq n.id (hkeep n hn)))
    rw [hfirst.scopes_eq] at hrest
    have hall := hfirst.trans hrest
    rw [List.map_cons, List.flatMap_cons, Phase.noted_cons]
    rw [List.flatMap_singleton] at hall
    exact hall

/-- A class looks up the symbol that it has already, and so does a function in the last phase. -/
theorem tracesBy_known {kind : ScopeKind} {inner : Analyzing Unit} (howner : n.kind.isOwner = true)
    (hkind : kind = .classBody ∨ kind = .function)
    (henters : (ts.filter fun t => phase.enters n t.root) = us)
    (hopens : ∀ t ∈ ts, phase.opens? n t.root = some kind) (hinner : TracesBy phase ts us inner) :
    TracesBy phase [.node n ts] [.node n ts] (do
      visit phase n.id
      let symbol := (← get).annotations.symbols.get? n.id
      inScope kind n.id symbol inner) := by
  have hfirst : (do return (← get).annotations.symbols.get? n.id :
      Analyzing (Option SymbolId)).Silent := silent_get.bind fun _ => silent_pure _
  have hall := tracesBy_entering id (fun _ => pure ()) howner hkind henters hopens hfirst
    (List.nil_subset _) (fun _ => rfl) (fun _ => hinner) fun _ => silent_pure ()
  simpa only [bind_assoc, pure_bind, bind_pure_unit, id_eq] using hall

/-- A function gets its symbol in front of what is inside it. -/
def nameFunction (d : FunctionDecl) : Analyzing SymbolId := do
  let x ← onLibrary (·.createFunction d.name.name d.name.span)
  giveType x ((← get).annotations.signatures.get? d.place.id)
  declareAt d.place.id x
  return x

theorem bindFunction_eq (d : FunctionDecl) : bindFunction d = (do
    visit .binding d.place.id
    let x ← nameFunction d
    inScope .function d.place.id (some x) do
      d.parameters.forM (bindParameter x)
      bindScope d.body
    register d.name.name x d.name.span) := by
  simp only [bindFunction, nameFunction, bind_assoc, pure_bind]

theorem goes_nameFunction (d : FunctionDecl) :
    (nameFunction d).Goes [d.place.id] fun _ => [] :=
  (silent_onLibrary _).bind fun x => silent_get.bind fun _ => (silent_giveType x _).bind fun _ =>
    (goes_declareAt _ x).before fun _ => silent_pure x

theorem symbols_declareAt (k : NodeId) (x : SymbolId) (c : Context) :
    ((declareAt k x).run c).2.annotations.symbols.get? k = some x := by
  change (c.annotations.symbols.insert k x).get? k = some x
  rw [OrderedMap.get?_insert, if_pos rfl]

theorem symbols_nameFunction (d : FunctionDecl) (c : Context) :
    ((nameFunction d).run c).2.annotations.symbols.get? d.place.id =
      some ((nameFunction d).run c).1 :=
  symbols_declareAt d.place.id _ _

/-- The parameters are bound in the scope of the function. -/
theorem tracesBy_bindFunction (d : FunctionDecl) :
    TracesBy .binding [d.tree] [d.tree] (bindFunction d) := by
  have hinner : ∀ x, TracesBy .binding (d.parameters.map Parameter.tree ++
      d.returns.toList.map WrittenType.tree ++ [d.body.tree])
      (d.parameters.map Parameter.tree ++ [d.body.tree]) (do
        d.parameters.forM (bindParameter x)
        bindScope d.body) := by
    intro x _ c row _
    have hall := ((traces_forM d.parameters fun p _ => traces_bindParameter x p).bind
      fun _ => traces_bindScope d.body) row c
    refine hall.mono ?_
    rw [List.append_assoc]
    simp only [Phase.noted_append]
    exact List.append_subset.2 ⟨List.subset_append_left _ _,
      List.subset_append_of_subset_right _ (List.subset_append_right _ _)⟩
  have henters : (List.filter (fun t => Phase.binding.enters d.node t.root)
      (d.parameters.map Parameter.tree ++ d.returns.toList.map WrittenType.tree ++
        [d.body.tree])) = d.parameters.map Parameter.tree ++ [d.body.tree] := by
    have hparameters : ∀ t ∈ d.parameters.map Parameter.tree,
        Phase.binding.enters d.node t.root = true :=
      List.forall_mem_map.2 fun _ _ => rfl
    have hreturns : ∀ t ∈ d.returns.toList.map WrittenType.tree,
        ¬Phase.binding.enters d.node t.root = true :=
      List.forall_mem_map.2 fun _ _ => Bool.false_ne_true
    have hbody : ∀ t ∈ [d.body.tree], Phase.binding.enters d.node t.root = true := by
      rw [List.forall_mem_singleton, Phase.enters, d.body.root_tree]
      rfl
    rw [List.filter_append, List.filter_append, List.filter_eq_self.2 hparameters,
      List.filter_eq_nil_iff.2 hreturns, List.append_nil, List.filter_eq_self.2 hbody]
  rw [bindFunction_eq]
  have hsymbol : [d.place.id] ⊆ Phase.binding.noted [d.tree] :=
    Phase.root_subset_noted (n := d.node) rfl
  exact tracesBy_entering (n := d.node) some (fun x => register d.name.name x d.name.span) rfl
    (.inr rfl) henters (fun _ _ => rfl) (goes_nameFunction d) hsymbol (symbols_nameFunction d)
    hinner fun x => silent_register _ x _

theorem tracesBy_bindMember : (m : Member) → TracesBy .binding [m.tree] [m.tree] (bindMember m)
  | .variable d => (traces_bindVariable d).by
  | .function d => tracesBy_bindFunction d

theorem tracesBy_bindClass (d : ClassDecl) :
    TracesBy .binding [d.tree] [d.tree] (bindClass d) :=
  tracesBy_known (n := ⟨d.place, .classDecl d.name⟩) rfl (.inl rfl)
    (List.filter_eq_self.2 fun _ _ => rfl) (fun _ _ => rfl)
    (tracesBy_forM d.members fun m _ => tracesBy_bindMember m)

theorem tracesBy_bindDeclaration :
    (d : Declaration) → TracesBy .binding [d.tree] [d.tree] (bindDeclaration d)
  | .classDecl d => tracesBy_bindClass d
  | .function d => tracesBy_bindFunction d
  | .variable d => (traces_bindVariable d).by

theorem tracesBy_bindBlock (b : Block) : TracesBy .binding [b.tree] [b.tree] (bindBlock b) :=
  (tracesBy_forM b.declarations fun d _ => tracesBy_bindDeclaration d).inside
    (n := ⟨b.place, .block⟩) (fun _ _ => rfl) fun _ _ => rfl

/-! ## Declarations in the last phase -/

theorem traces_checkParameter (p : Parameter) : Traces .typing [p.tree] (checkParameter p) :=
  (silent_declareLocal _ _).traces.inside (n := ⟨p.place, .parameter p.name⟩) rfl fun _ _ => rfl

theorem traces_visitType (t : WrittenType) :
    Traces .typing [t.tree] (visit .typing t.place.id) :=
  (traces_pure ()).inside (n := ⟨t.place, .type t⟩) rfl fun _ _ => rfl

theorem tracesBy_checkFunction (d : FunctionDecl) :
    TracesBy .typing [d.tree] [d.tree] (checkFunction d) := by
  have hinner : Traces .typing (d.parameters.map Parameter.tree ++
      d.returns.toList.map WrittenType.tree ++ [d.body.tree]) (do
        d.parameters.forM checkParameter
        d.returns.toList.forM fun t => visit .typing t.place.id
        checkScope d.body) := by
    rw [List.append_assoc]
    exact (traces_forM d.parameters fun p _ => traces_checkParameter p).bind fun _ =>
      (traces_forM d.returns.toList fun t _ => traces_visitType t).bind fun _ =>
        traces_checkScope d.body
  refine tracesBy_known (n := d.node) rfl (.inr rfl) (List.filter_eq_self.2 fun t _ => ?_)
    (fun _ _ => rfl) hinner.by
  exact Bool.or_true _

theorem tracesBy_checkMember : (m : Member) → TracesBy .typing [m.tree] [m.tree] (checkMember m)
  | .variable d => (traces_checkVariable d).by
  | .function d => tracesBy_checkFunction d

theorem tracesBy_checkClass (d : ClassDecl) :
    TracesBy .typing [d.tree] [d.tree] (checkClass d) := by
  refine tracesBy_known (n := ⟨d.place, .classDecl d.name⟩) rfl (.inl rfl)
    (filter_enters_typing ?_) (fun _ _ => rfl)
    (tracesBy_forM d.members fun m _ => tracesBy_checkMember m)
  exact List.forall_mem_map.2 fun m _ => m.root_ne_type

theorem tracesBy_checkDeclaration :
    (d : Declaration) → TracesBy .typing [d.tree] [d.tree] (checkDeclaration d)
  | .classDecl d => tracesBy_checkClass d
  | .function d => tracesBy_checkFunction d
  | .variable d => (traces_checkVariable d).by

theorem tracesBy_checkBlock (b : Block) : TracesBy .typing [b.tree] [b.tree] (checkBlock b) := by
  refine (tracesBy_forM b.declarations fun d _ => tracesBy_checkDeclaration d).inside
    (n := ⟨b.place, .block⟩) (fun t ht => ?_) fun _ _ => rfl
  obtain ⟨d, -, rfl⟩ := List.mem_map.1 ht
  exact enters_typing d.root_ne_type

/-! ## The first phases -/

theorem goes_declareClass (d : ClassDecl) : (declareClass d).Goes [d.place.id] fun _ => [] := by
  refine (silent_reporting _).bind fun x => ?_
  cases x with
  | none => exact (silent_pure ()).mono (List.nil_subset _)
  | some x => exact (silent_onLibrary _).bind fun _ =>
      (goes_noteSymbol d.place.id x).before fun _ => silent_declareGlobal _ _ _

theorem goes_declareClasses (b : Block) :
    (declareClasses b).Goes (b.classes.map fun d => d.place.id) fun _ => [] :=
  goes_forM_nil b.classes fun d hd => (goes_declareClass d).mono
    (List.cons_subset.2 ⟨List.mem_map_of_mem hd, List.nil_subset _⟩)

theorem silent_resolveType (t : WrittenType) : (resolveType t).Silent := by
  refine silent_get.bind fun c => ?_
  split
  · exact silent_pure _
  · refine Silent.bind (silent_of_eq fun _ => ⟨rfl, rfl, rfl⟩) fun _ => ?_
    split
    · exact (silent_report _).bind fun _ => silent_pure _
    · exact (silent_onLibrary _).bind fun _ =>
        Silent.bind (silent_annotate fun _ => rfl) fun _ => silent_pure _

theorem silent_mapM {g : γ → Analyzing β} (xs : List γ) (h : ∀ x ∈ xs, (g x).Silent) :
    (xs.mapM g).Silent := by
  induction xs with
  | nil =>
    rw [List.mapM_nil]
    exact silent_pure []
  | cons x xs ih =>
    rw [List.forall_mem_cons] at h
    rw [List.mapM_cons]
    exact h.1.bind fun _ => (ih h.2).bind fun _ => silent_pure _

theorem silent_resolveResult (name : Ident) (returns : Option WrittenType) :
    (resolveResult name returns).Silent := by
  cases returns with
  | none => exact silent_builtin _ _
  | some t => exact silent_resolveType t

theorem silent_noteSignature (k : NodeId) (parameters : Option (List SymbolId))
    (returns : Option SymbolId) : (noteSignature k parameters returns).Silent := by
  unfold noteSignature
  split
  · exact (silent_onLibrary _).bind fun _ => silent_annotate fun _ => rfl
  · exact silent_pure ()

theorem silent_resolveSignature (k : NodeId) (name : Ident) (ps : List Parameter)
    (returns : Option WrittenType) : (resolveSignature k name ps returns).Silent := by
  rw [resolveSignature_eq]
  exact (silent_mapM ps fun p _ => silent_resolveType p.type).bind fun _ =>
    (silent_resolveResult _ _).bind fun _ => silent_noteSignature _ _ _

theorem silent_resolveTypes (t : Tree) : (resolveTypes t).Silent := by
  refine goes_forM_nil t.preorder fun n _ => ?_
  unfold resolveNode
  split
  · exact (silent_resolveType _).bind fun _ => silent_pure ()
  · exact silent_resolveSignature _ _ _ _
  · exact silent_pure ()

end Analyzing

namespace Block

variable {b : Block} {deps : List Library} {target : Library}

/-- In the last phase, classes and functions keep the symbols that they have. -/
theorem Numbered.id_notMem_noted (hb : b.Numbered) {n : Node} (hn : n ∈ b.tree.preorder)
    (howner : n.kind.isOwner = true) : n.id ∉ Phase.typing.noted [b.tree] := by
  intro hmem
  obtain ⟨m, hm, hid⟩ := List.mem_map.1 hmem
  simp only [preorders, List.append_nil, List.mem_filter] at hm
  obtain rfl := hb.node_inj hm.1 hn hid
  have hvalue : m.kind = .value := by simpa [Phase.notes] using hm.2
  rw [hvalue] at howner
  exact absurd howner (by decide)

/-- The third and the last phase of an analysis of a parsed unit begin with these nodes, and the
scopes that are open then are those of the nodes around. The scopes of classes and functions hold
the symbols that these nodes have. Behind each phase no scope is open. -/
theorem visits_analyze {tokens : List Token} {source : String}
    (h : Block.parse tokens source = .ok b) (deps : List Library) (target : Library) :
    let c := b.analyze deps target
    let row := c.annotations.symbols.get?
    c.log = Phase.binding.visits row b.tree ++ Phase.typing.visits row b.tree ∧
      ∀ d ∈ [b.withClasses deps target, b.withTypes deps target, b.withSymbols deps target, c],
        d.scopes.entries = [] := by
  intro c row
  have hb := numbered_of_parse h
  have hids : ((preorders [b.tree]).map Node.id).Nodup := by
    simpa [preorders] using hb.nodup_ids
  have hclasses := Analyzing.goes_declareClasses b (b.atStart deps target)
  have htypes := Analyzing.silent_resolveTypes b.tree (b.withClasses deps target)
  have htyping := Analyzing.tracesBy_checkBlock b hids (b.withSymbols deps target) row
    fun _ _ _ => rfl
  have hbinding := Analyzing.tracesBy_bindBlock b hids (b.withTypes deps target) row
    fun n hn howner => by
      simp only [preorders, List.append_nil] at hn
      exact htyping.symbols_eq n.id (hb.id_notMem_noted hn howner)
  have hatTypes : (b.withTypes deps target).scopes.bare = [] :=
    htypes.scopes_eq.trans hclasses.scopes_eq
  have hatSymbols : (b.withSymbols deps target).scopes.bare = [] :=
    hbinding.scopes_eq.trans hatTypes
  rw [hatTypes, List.flatMap_singleton, visits_eq] at hbinding
  rw [hatSymbols, List.flatMap_singleton, visits_eq] at htyping
  refine ⟨((hclasses.trans htypes).trans (hbinding.trans htyping)).log_eq, ?_⟩
  simp only [List.forall_mem_cons]
  exact ⟨List.map_eq_nil_iff.1 hclasses.scopes_eq, List.map_eq_nil_iff.1 hatTypes,
    List.map_eq_nil_iff.1 hatSymbols, List.map_eq_nil_iff.1 (htyping.scopes_eq.trans hatSymbols),
    List.forall_mem_nil _⟩

/-- A condition is outside of its loop. -/
theorem visits_analyze_loops :
    let source := "class A { fn f() { while (true) { for (;;) { } } } }"
    ∃ b, Block.parse ((Lexer.ofVocabulary .standard).tokenize source) source = .ok b ∧
      (Phase.typing.visits (fun _ => none) b.tree).map (fun v => v.scopes.map ScopeEntry.kind) =
        [[], [], [.classBody], [.function, .classBody], [.block, .function, .classBody],
          [.block, .function, .classBody], [.loop, .block, .function, .classBody],
          [.block, .loop, .block, .function, .classBody],
          [.loop, .block, .loop, .block, .function, .classBody]] ∧
      let c := b.analyze [.core 0] (.new 1 "unit")
      let row := c.annotations.symbols.get?
      c.log = Phase.binding.visits row b.tree ++ Phase.typing.visits row b.tree ∧
        ∀ d ∈ [b.withClasses [.core 0] (.new 1 "unit"), b.withTypes [.core 0] (.new 1 "unit"),
          b.withSymbols [.core 0] (.new 1 "unit"), c], d.scopes.entries = [] := by
  intro source
  have hkinds : (Block.parse ((Lexer.ofVocabulary .standard).tokenize source) source).toOption.map
      (fun b => (Phase.typing.visits (fun _ => none) b.tree).map
        fun v => v.scopes.map ScopeEntry.kind) =
      some [[], [], [.classBody], [.function, .classBody], [.block, .function, .classBody],
        [.block, .function, .classBody], [.loop, .block, .function, .classBody],
        [.block, .loop, .block, .function, .classBody],
        [.loop, .block, .loop, .block, .function, .classBody]] := by
    decide +kernel
  obtain ⟨b, hparse, hkinds⟩ := exists_of_toOption_map hkinds
  exact ⟨b, hparse, hkinds, visits_analyze hparse [.core 0] (.new 1 "unit")⟩

end Block

end Sable
