import Sable.Proofs.Analysis.Looping
import Sable.Proofs.Analysis.Scoping

/-!
# Steps that go down a tree

A step that goes down a tree opens scopes where the tree says so, and closes them again. Of each
visit it notes the scopes that are open; behind it they are those from before. Rules and comparisons
do nothing of that kind, and leave the symbols of classes and functions alone.

## Main definitions

* `Context.Goes`: what a step adds to the visits, and what it leaves as it is.
* `Analyzing.Silent`: a step without visits.
* `Analyzing.Traces`: a step that visits these trees, which hold no classes or functions.

## Main statements

* `Analyzing.Traces.inside`, `Analyzing.Traces.within`: a node and its children, with or without a
  scope of their own.
* `Analyzing.traces_typeExpr`, `Analyzing.traces_checkStmt`: what is inside of functions, in the
  last phase.
-/
namespace Sable

/-! ## What steps do to scopes and visits -/

/-- The open scopes, without names. -/
def ScopeStack.bare (s : ScopeStack SymbolId) : List (ScopeEntry SymbolId) :=
  s.entries.map ScopeEntry.bare

theorem ScopeStack.bare_declare (s : ScopeStack SymbolId) (name : String) (x : SymbolId) :
    (s.declare name x).bare = s.bare := by
  obtain ⟨_ | ⟨e, es⟩⟩ := s <;> rfl

/-- The visits so far, the first one first. -/
def Context.log (c : Context) : List Visit := c.visits.reverse.map Visit.bare

/-- The scopes are the same again, these visits were made, and only these nodes may have got new
symbols. -/
structure Context.Goes (ns : List NodeId) (vs : List Visit) (c c' : Context) : Prop where
  scopes_eq : c'.scopes.bare = c.scopes.bare
  log_eq : c'.log = c.log ++ vs
  symbols_eq : ∀ n ∉ ns, c'.annotations.symbols.get? n = c.annotations.symbols.get? n

namespace Context.Goes

variable {c c' c'' : Context} {ns ns' : List NodeId} {vs vs' : List Visit}

theorem refl (c : Context) : c.Goes [] [] c := ⟨rfl, (List.append_nil _).symm, fun _ _ => rfl⟩

theorem trans (h : c.Goes ns vs c') (h' : c'.Goes ns' vs' c'') :
    c.Goes (ns ++ ns') (vs ++ vs') c'' where
  scopes_eq := h'.scopes_eq.trans h.scopes_eq
  log_eq := by rw [h'.log_eq, h.log_eq, List.append_assoc]
  symbols_eq n hn := by
    rw [List.mem_append, not_or] at hn
    exact (h'.symbols_eq n hn.2).trans (h.symbols_eq n hn.1)

theorem mono (h : c.Goes ns vs c') (hns : ns ⊆ ns') : c.Goes ns' vs c' :=
  ⟨h.scopes_eq, h.log_eq, fun n hn => h.symbols_eq n fun hmem => hn (hns hmem)⟩

/-- A scope that was open during the steps is closed. -/
theorem pop {kind : ScopeKind} {owner : NodeId} {symbol : Option SymbolId}
    (h : { c with scopes := c.scopes.push kind owner symbol }.Goes ns vs c') :
    c.Goes ns vs { c' with scopes := c'.scopes.pop } where
  scopes_eq := by
    have hscopes := congrArg List.tail h.scopes_eq
    rw [ScopeStack.bare, ← List.map_tail] at hscopes
    exact hscopes
  log_eq := h.log_eq
  symbols_eq := h.symbols_eq

end Context.Goes

namespace Analyzing

variable {α β γ : Type} {ns ns' : List NodeId}
  {vs vs' : List (ScopeEntry SymbolId) → List Visit} {m : Analyzing α} {f : α → Analyzing β}

/-- The step makes these visits, which depend on the scopes around it. -/
def Goes (ns : List NodeId) (vs : List (ScopeEntry SymbolId) → List Visit) (m : Analyzing α) :
    Prop :=
  ∀ c : Context, c.Goes ns (vs c.scopes.bare) (m.run c).2

/-- The step makes no visits and gives no symbols to nodes. -/
abbrev Silent (m : Analyzing α) : Prop := m.Goes [] fun _ => []

theorem Goes.bind (hm : m.Goes ns vs) (hf : ∀ x, (f x).Goes ns' vs') :
    (m >>= f).Goes (ns ++ ns') fun s => vs s ++ vs' s := by
  intro c
  have hfirst := hm c
  have hrest := hf (m.run c).1 (m.run c).2
  rw [hfirst.scopes_eq] at hrest
  exact hfirst.trans hrest

theorem Goes.mono (hm : m.Goes ns vs) (hns : ns ⊆ ns') : m.Goes ns' vs :=
  fun c => (hm c).mono hns

/-- Behind a step without visits. -/
theorem Silent.bind (hm : m.Silent) (hf : ∀ x, (f x).Goes ns vs) : (m >>= f).Goes ns vs :=
  Goes.bind hm hf

/-- In front of a step without visits. -/
theorem Goes.before (hm : m.Goes ns vs) (hf : ∀ x, (f x).Silent) : (m >>= f).Goes ns vs := by
  have hall := hm.bind hf
  simp only [List.append_nil] at hall
  exact hall

theorem goes_visit (phase : Phase) (n : NodeId) :
    (visit phase n).Goes [] fun s => [⟨phase, n, s⟩] := by
  refine fun c => ⟨rfl, ?_, fun _ _ => rfl⟩
  change (Visit.mk phase n c.scopes.entries :: c.visits).reverse.map Visit.bare = _
  rw [List.reverse_cons, List.map_append]
  rfl

theorem Goes.inScope {m : Analyzing Unit} (hm : m.Goes ns vs) (kind : ScopeKind) (owner : NodeId)
    (symbol : Option SymbolId) :
    (inScope kind owner symbol m).Goes ns fun s => vs ({ kind, owner, symbol } :: s) :=
  fun c => (hm { c with scopes := c.scopes.push kind owner symbol }).pop

/-! ## Silent steps -/

theorem silent_of_eq (h : ∀ c : Context, (m.run c).2.scopes.bare = c.scopes.bare ∧
    (m.run c).2.visits = c.visits ∧ (m.run c).2.annotations.symbols = c.annotations.symbols) :
    m.Silent := by
  intro c
  obtain ⟨hscopes, hvisits, hsymbols⟩ := h c
  exact ⟨hscopes, by rw [Context.log, hvisits, List.append_nil, Context.log],
    fun _ _ => by rw [hsymbols]⟩

theorem silent_pure (x : α) : (pure x : Analyzing α).Silent := fun c => .refl c

theorem silent_get : (get : Analyzing Context).Silent := fun c => .refl c

theorem silent_report (e : SemanticError) : (report e).Silent :=
  silent_of_eq fun _ => ⟨rfl, rfl, rfl⟩

theorem silent_onLibrary (f : Library → α × Library) : (onLibrary f).Silent :=
  silent_of_eq fun _ => ⟨rfl, rfl, rfl⟩

theorem silent_reporting (f : Library → Except SemanticError α × Library) :
    (reporting f).Silent :=
  silent_of_eq fun c => by
    rw [run_reporting]
    exact ⟨rfl, rfl, rfl⟩

theorem silent_registering (f : Library → Except SemanticError Unit × Library) :
    (do let _ ← reporting f : Analyzing Unit).Silent :=
  (silent_reporting f).bind fun _ => silent_pure ()

theorem silent_annotate {f : Annotations → Annotations} (h : ∀ a, (f a).symbols = a.symbols) :
    (annotate f).Silent :=
  silent_of_eq fun c => ⟨rfl, rfl, h c.annotations⟩

/-- A node gets a symbol. -/
theorem goes_noteSymbol (n : NodeId) (x : SymbolId) :
    (annotate fun a => { a with symbols := a.symbols.insert n x }).Goes [n] fun _ => [] := by
  refine fun c => ⟨rfl, (List.append_nil _).symm, fun k hk => ?_⟩
  change (c.annotations.symbols.insert n x).get? k = _
  rw [OrderedMap.get?_insert, if_neg fun hkn => hk (by simp [hkn])]

theorem goes_forM {vs : γ → List (ScopeEntry SymbolId) → List Visit} {g : γ → Analyzing Unit}
    (xs : List γ) (h : ∀ x ∈ xs, (g x).Goes ns (vs x)) :
    (xs.forM g).Goes ns fun s => xs.flatMap (vs · s) := by
  induction xs with
  | nil => exact (silent_pure ()).mono (List.nil_subset _)
  | cons x xs ih =>
    rw [List.forall_mem_cons] at h
    exact (h.1.bind fun _ => ih h.2).mono
      (List.append_subset.2 ⟨List.Subset.refl _, List.Subset.refl _⟩)

/-- Steps without visits, one after another. -/
theorem goes_forM_nil {g : γ → Analyzing Unit} (xs : List γ)
    (h : ∀ x ∈ xs, (g x).Goes ns fun _ => []) : (xs.forM g).Goes ns fun _ => [] := by
  have hnone : (xs.flatMap fun _ => ([] : List Visit)) = [] :=
    List.flatMap_eq_nil_iff.2 fun _ _ => rfl
  have hall := goes_forM xs h
  simp only [hnone] at hall
  exact hall

/-! ## Rules of the last phase -/

theorem silent_builtin (name : String) (span : Span) : (builtin name span).Silent := by
  refine silent_get.bind fun c => ?_
  split
  · exact silent_pure _
  · exact (silent_report _).bind fun _ => silent_pure _

theorem silent_pointerTo (p : SymbolId) : (some <$> onLibrary (·.pointerTo p)).Silent :=
  (silent_onLibrary _).bind fun _ => silent_pure _

theorem silent_resultType (result : OperatorResult) (span : Span) :
    (resultType result span).Silent := by
  unfold resultType
  split
  · exact silent_pure _
  · exact silent_builtin _ _
  · exact silent_pointerTo _

theorem silent_pointerToBuiltin (name : String) (span : Span) :
    (pointerToBuiltin name span).Silent := by
  refine (silent_builtin name span).bind fun type => ?_
  split
  · exact silent_pointerTo _
  · exact silent_pure _

theorem silent_typeUnary (span : Span) (op : UnaryOp) (operand : SymbolId) :
    (typeUnary span op operand).Silent := by
  refine silent_get.bind fun c => ?_
  split
  · exact silent_resultType _ _
  · exact (silent_report _).bind fun _ => silent_pure _

theorem silent_typeBinary (span : Span) (op : BinaryOp) (left right : SymbolId) :
    (typeBinary span op left right).Silent := by
  rw [typeBinary_eq]
  refine silent_get.bind fun c => ?_
  have hresult :
      (operatorResult (c.binaryType? (op.compound?.getD op) left right) span).Silent := by
    unfold operatorResult
    split
    · exact silent_resultType _ _
    · exact silent_pure _
  refine hresult.bind fun type => ?_
  unfold binaryResult
  split
  · exact silent_pure _
  · exact (silent_report _).bind fun _ => silent_pure _

theorem silent_typeAccess (place : Place) (kind : AccessKind) (object : SymbolId)
    (member : Ident) : (typeAccess place kind object member).Silent := by
  rw [typeAccess_eq]
  refine silent_get.bind fun c => ?_
  unfold noteAccess
  split
  · exact (silent_report _).bind fun _ => silent_pure _
  · split
    · exact (silent_report _).bind fun _ => silent_pure _
    · exact Silent.bind (silent_annotate fun _ => rfl) fun _ => silent_pure _

theorem silent_typeCall (span calleeSpan : Span) (callee : SymbolId)
    (arguments : List (Option SymbolId)) : (typeCall span calleeSpan callee arguments).Silent := by
  rw [typeCall_eq]
  refine silent_get.bind fun c => ?_
  split
  · refine Silent.bind ?_ fun _ => silent_pure _
    unfold compareArguments
    split
    · split
      · exact silent_report _
      · exact silent_pure _
    · exact silent_pure _
  · exact (silent_report _).bind fun _ => silent_pure _

theorem silent_typeCast (span : Span) (source target : SymbolId) :
    (typeCast span source target).Silent := by
  refine silent_get.bind fun c => ?_
  split
  · exact silent_pure _
  · exact (silent_report _).bind fun _ => silent_pure _

theorem silent_typeIndex (span : Span) (target subscript : SymbolId) :
    (typeIndex span target subscript).Silent := by
  refine silent_get.bind fun c => ?_
  split
  · exact silent_pure _
  · exact (silent_report _).bind fun _ => silent_pure _

theorem silent_withType (operand : Option SymbolId)
    {rule : SymbolId → Analyzing (Option SymbolId)} (h : ∀ type, (rule type).Silent) :
    (withType operand rule).Silent := by
  cases operand with
  | none => exact silent_pure _
  | some type => exact h type

theorem silent_noteType (node : NodeId) (type : Option SymbolId) : (noteType node type).Silent := by
  cases type with
  | none => exact silent_pure _
  | some type => exact Silent.bind (silent_annotate fun _ => rfl) fun _ => silent_pure _

theorem goes_typeValue (place : Place) (v : Value) :
    (typeValue place v).Goes [place.id] fun _ => [] := by
  cases v with
  | identifier name =>
    refine silent_get.bind fun c => ?_
    split
    · split
      · exact (goes_noteSymbol _ _).before fun _ => silent_pure _
      · exact ((silent_report _).bind fun _ => silent_pure _).mono (List.nil_subset _)
    · exact ((silent_report _).bind fun _ => silent_pure _).mono (List.nil_subset _)
  | integer | float | boolean | character =>
    exact (silent_builtin _ _).mono (List.nil_subset _)
  | string | null => exact (silent_pointerToBuiltin _ _).mono (List.nil_subset _)

theorem silent_mismatch (expected : SymbolId) (found : Option SymbolId) (span : Span) :
    (mismatch expected found span).Silent :=
  silent_get.bind fun _ => silent_report _

theorem silent_compareInitializer (expected : Option SymbolId) (e : Expr)
    (found : Option SymbolId) : (compareInitializer expected e found).Silent := by
  refine silent_get.bind fun c => ?_
  split
  · split
    · exact silent_mismatch _ _ _
    · exact silent_pure ()
  · exact silent_pure ()

theorem silent_compareCondition (e : Expr) (found : Option SymbolId) :
    (compareCondition e found).Silent := by
  cases found with
  | none => exact silent_pure ()
  | some type =>
    refine silent_get.bind fun c => ?_
    split
    · exact silent_pure ()
    · exact silent_report _

theorem silent_compareReturn (place : Place) (value : Option Expr) (found : Option SymbolId) :
    (compareReturn place value found).Silent := by
  refine silent_get.bind fun c => ?_
  split
  · split
    · exact silent_pure ()
    · exact silent_mismatch _ _ _
  · split
    · exact silent_mismatch _ _ _
    · exact silent_pure ()
  · exact silent_pure ()

theorem silent_declareLocal (node : NodeId) (name : Ident) : (declareLocal node name).Silent := by
  refine silent_get.bind fun c => ?_
  split
  · exact silent_of_eq fun c => ⟨c.scopes.bare_declare _ _, rfl, rfl⟩
  · exact silent_pure ()

end Analyzing

/-! ## Steps and trees -/

/-- The nodes that a phase may give symbols to. -/
def Phase.notes : Phase → NodeKind → Bool
  | .binding, k => k.isBinding
  | .typing, k => k == .value

def Phase.noted (phase : Phase) (ts : List Tree) : List NodeId :=
  ((Tree.preorders ts).filter fun n => phase.notes n.kind).map Node.id

namespace Phase

variable {phase : Phase} {ts us : List Tree} {n : Node}

@[simp] theorem noted_append : phase.noted (ts ++ us) = phase.noted ts ++ phase.noted us := by
  simp [noted]

theorem noted_cons (t : Tree) : phase.noted (t :: ts) = phase.noted [t] ++ phase.noted ts := by
  rw [← noted_append, List.singleton_append]

theorem noted_subset_node : phase.noted ts ⊆ phase.noted [.node n ts] := by
  intro k hk
  simp only [noted, Tree.preorders, Tree.preorder, List.append_nil] at hk ⊢
  exact List.map_subset _ (List.filter_subset _ (List.subset_cons_self n _)) hk

theorem noted_filter_subset_node {p : Tree → Bool} :
    phase.noted (ts.filter p) ⊆ phase.noted [.node n ts] := by
  refine List.Subset.trans ?_ noted_subset_node
  induction ts with
  | nil => exact List.Subset.refl _
  | cons t ts ih =>
    rw [List.filter_cons, noted_cons]
    split
    · rw [noted_cons]
      exact List.append_subset.2
        ⟨List.subset_append_left _ _, List.subset_append_of_subset_right _ ih⟩
    · exact List.subset_append_of_subset_right _ ih

theorem subset_noted (hn : n ∈ Tree.preorders ts) (h : phase.notes n.kind = true) :
    [n.id] ⊆ phase.noted ts :=
  List.cons_subset.2 ⟨List.mem_map_of_mem (List.mem_filter.2 ⟨hn, h⟩), List.nil_subset _⟩

theorem root_subset_noted (h : phase.notes n.kind = true) : [n.id] ⊆ phase.noted [.node n ts] :=
  subset_noted (by simp [Tree.preorders, Tree.preorder]) h

end Phase

namespace Analyzing

open Sable.Tree

variable {α β γ : Type} {phase : Phase} {n : Node} {ts us : List Tree} {m : Analyzing α}
  {f : α → Analyzing β}

/-- The step visits these trees, in the scopes around it. No class and no function is among them, so
that it does not matter what symbols these have. -/
def Traces (phase : Phase) (ts : List Tree) (m : Analyzing α) : Prop :=
  ∀ row, m.Goes (phase.noted ts) fun s => ts.flatMap (visits phase row s)

theorem Silent.traces (hm : m.Silent) : Traces phase [] m := fun _ => hm

theorem traces_pure (x : α) : Traces phase [] (pure x) := (silent_pure x).traces

theorem Traces.bind (hm : Traces phase ts m) (hf : ∀ x, Traces phase us (f x)) :
    Traces phase (ts ++ us) (m >>= f) := by
  intro row
  simp only [Phase.noted_append, List.flatMap_append]
  exact (hm row).bind fun x => hf x row

/-- Behind a step without visits. -/
theorem Silent.traces_bind (hm : m.Silent) (hf : ∀ x, Traces phase ts (f x)) :
    Traces phase ts (m >>= f) :=
  fun row => hm.bind fun x => hf x row

/-- In front of a step without visits. -/
theorem Traces.before (hm : Traces phase ts m) (hf : ∀ x, (f x).Silent) :
    Traces phase ts (m >>= f) :=
  fun row => (hm row).before hf

theorem traces_forM {g : γ → Analyzing Unit} {tree : γ → Tree} (xs : List γ)
    (h : ∀ x ∈ xs, Traces phase [tree x] (g x)) : Traces phase (xs.map tree) (xs.forM g) := by
  induction xs with
  | nil => exact traces_pure ()
  | cons x xs ih =>
    rw [List.forall_mem_cons] at h
    exact h.1.bind fun _ => ih h.2

/-- A visit to a node, and a step that visits what is below it. -/
theorem traces_node (h : ∀ row, m.Goes (phase.noted [.node n ts]) (visitsBelow phase row n · ts)) :
    Traces phase [.node n ts] (do visit phase n.id; m) := by
  intro row
  have hall := (goes_visit phase n.id).bind fun _ => h row
  simp only [List.flatMap_cons, List.flatMap_nil, List.append_nil, visits]
  exact hall

/-- A node that gets a symbol itself, below which nothing is visited. -/
theorem traces_naming (hm : m.Goes [n.id] fun _ => []) (hn : phase.notes n.kind = true)
    (henters : ∀ t ∈ ts, phase.enters n t.root = false) :
    Traces phase [.node n ts] (do visit phase n.id; m) := by
  refine traces_node fun row => ?_
  simp only [visitsBelow_eq_nil henters]
  exact hm.mono (Phase.root_subset_noted hn)

/-- The children of a node that a phase enters, in the scopes around the node. -/
theorem Traces.inside (hm : Traces phase us m)
    (henters : (ts.filter fun t => phase.enters n t.root) = us)
    (hopens : ∀ t ∈ ts, phase.opens? n t.root = none) :
    Traces phase [.node n ts] (do visit phase n.id; m) := by
  refine traces_node fun row => ?_
  simp only [visitsBelow_eq_flatMap hopens, henters]
  exact (hm row).mono (henters ▸ Phase.noted_filter_subset_node)

/-- The children of a node that a phase enters, in a scope of their own. -/
theorem Traces.within {m : Analyzing Unit} (hm : Traces phase us m) {kind : ScopeKind}
    (hkind : kind = .block ∨ kind = .loop)
    (henters : (ts.filter fun t => phase.enters n t.root) = us)
    (hopens : ∀ t ∈ ts, phase.opens? n t.root = some kind) :
    Traces phase [.node n ts] (do visit phase n.id; inScope kind n.id none m) := by
  refine traces_node fun row => ?_
  have hscope : ScopeEntry.ofNode row n.id kind = { kind, owner := n.id, symbol := none } := by
    rcases hkind with rfl | rfl <;> rfl
  simp only [visitsBelow_eq_flatMap hopens, henters, Option.map_some, hscope]
  exact ((hm row).inScope kind n.id none).mono (henters ▸ Phase.noted_filter_subset_node)

theorem enters_typing {child : Node} (h : child.kind ≠ .type) :
    Phase.typing.enters n child = true := by
  simp [Phase.enters, h]

theorem filter_enters_typing (h : ∀ t ∈ ts, t.root.kind ≠ .type) :
    (ts.filter fun t => Phase.typing.enters n t.root) = ts :=
  List.filter_eq_self.2 fun t ht => enters_typing (h t ht)

end Analyzing

/-! ## Kinds of roots -/

theorem Expr.root_ne_type (e : Expr) : e.tree.root.kind ≠ .type := by
  cases e <;> simp [tree, Tree.root, Node.kind, Head.kind]

theorem Expr.forall_root_ne_type (es : List Expr) :
    ∀ t ∈ es.map Expr.tree, t.root.kind ≠ .type :=
  List.forall_mem_map.2 fun e _ => e.root_ne_type

theorem Scope.root_tree (s : Scope) : s.tree.root.kind = .scope := by
  cases s; rfl

theorem Scope.root_ne_type (s : Scope) : s.tree.root.kind ≠ .type := by
  rw [s.root_tree]
  decide

theorem Branch.root_ne_type (b : Branch) : b.tree.root.kind ≠ .type := by
  cases b; simp [tree, Tree.root, Node.kind, Head.kind]

theorem Otherwise.root_ne_type (o : Otherwise) : ∀ t ∈ o.trees, t.root.kind ≠ .type := by
  cases o with
  | nothing => exact List.forall_mem_nil _
  | branch b => exact List.forall_mem_singleton.2 b.root_ne_type
  | scope s => exact List.forall_mem_singleton.2 s.root_ne_type

theorem VariableDecl.root_ne_type (d : VariableDecl) : d.tree.root.kind ≠ .type := by
  simp [tree, Tree.root, Node.kind, Head.kind]

theorem ForInit.root_ne_type (init : ForInit) : ∀ t ∈ init.trees, t.root.kind ≠ .type := by
  match init with
  | .nothing => exact List.forall_mem_nil _
  | .variable d => exact List.forall_mem_singleton.2 d.root_ne_type
  | .expr e => exact List.forall_mem_singleton.2 e.root_ne_type

theorem Stmt.root_ne_type (s : Stmt) : s.tree.root.kind ≠ .type := by
  match s with
  | .variable d => exact d.root_ne_type
  | .branch b => exact b.root_ne_type
  | .expr e => exact e.root_ne_type
  | .label .. | .goto .. | .returns .. | .breakLoop _ | .continueLoop _ | .whileLoop ..
  | .forLoop .. => simp [tree, Tree.root, Node.kind, Head.kind]

theorem Stmt.forall_root_ne_type (ss : List Stmt) : ∀ t ∈ trees ss, t.root.kind ≠ .type := by
  rw [trees_eq_map]
  exact List.forall_mem_map.2 fun s _ => s.root_ne_type

namespace Analyzing

open Sable.Tree

variable {α β γ : Type} {phase : Phase} {n : Node} {ts us : List Tree} {m : Analyzing α}
  {f : α → Analyzing β}

/-! ## Types of expressions -/

/-- The rule of an expression, whose operands are all visited. -/
theorem traces_noting (es : List Expr) {rule : Analyzing (Option SymbolId)}
    (h : Traces .typing (es.map Expr.tree) rule) (hn : n.kind.isExpression = true) :
    Traces .typing [.node n (es.map Expr.tree)] (noting n.id rule) := by
  rw [noting_eq]
  refine (h.before fun type => silent_noteType n.id type).inside
    (filter_enters_typing (Expr.forall_root_ne_type es)) fun t _ => ?_
  cases hk : n.kind <;> simp_all [Phase.opens?, NodeKind.isExpression]

mutual

theorem traces_typeExpr : (e : Expr) → Traces .typing [e.tree] (typeExpr e)
  | .value place v => by
    rw [Expr.tree, typeExpr, noting_eq]
    exact traces_naming (n := ⟨place, .value v⟩)
      ((goes_typeValue place v).before fun _ => silent_noteType _ _) rfl (List.forall_mem_nil _)
  | .unary place op operand =>
    traces_noting (n := ⟨place, .unary op⟩) [operand]
      ((traces_typeExpr operand).before fun _ => silent_withType _ fun _ =>
        silent_typeUnary _ _ _) rfl
  | .binary place op left right =>
    traces_noting (n := ⟨place, .binary op⟩) [left, right]
      ((traces_typeExpr left).bind fun _ => (traces_typeExpr right).before fun _ =>
        silent_withType _ fun _ => silent_withType _ fun _ => silent_typeBinary _ _ _ _) rfl
  | .access place kind object member =>
    traces_noting (n := ⟨place, .access kind member⟩) [object]
      ((traces_typeExpr object).before fun _ => silent_withType _ fun _ =>
        silent_typeAccess _ _ _ _) rfl
  | .call place callee arguments => by
    rw [Expr.tree, Expr.trees_eq_map, ← List.map_cons]
    refine traces_noting (n := ⟨place, .call⟩) (callee :: arguments) ?_ rfl
    rw [List.map_cons]
    exact (traces_typeExpr callee).bind fun _ => (traces_typeExprs arguments).before fun _ =>
      silent_withType _ fun _ => silent_typeCall _ _ _ _
  | .cast place operand target => by
    rw [Expr.tree, typeExpr, noting_eq]
    -- the written type is no part of the phase
    have henters : ([operand.tree, target.tree].filter fun t =>
        Phase.typing.enters ⟨place, .cast⟩ t.root) = [operand.tree] := by
      rw [List.filter_cons, if_pos (enters_typing operand.root_ne_type)]
      rfl
    refine Traces.inside ?_ henters fun _ _ => rfl
    exact ((traces_typeExpr operand).before fun _ => silent_get.bind fun _ =>
      silent_withType _ fun _ => silent_withType _ fun _ => silent_typeCast _ _ _).before
        fun _ => silent_noteType _ _
  | .index place target subscript =>
    traces_noting (n := ⟨place, .index⟩) [target, subscript]
      ((traces_typeExpr target).bind fun _ => (traces_typeExpr subscript).before fun _ =>
        silent_withType _ fun _ => silent_withType _ fun _ => silent_typeIndex _ _ _) rfl

theorem traces_typeExprs : (es : List Expr) → Traces .typing (es.map Expr.tree) (typeExprs es)
  | [] => traces_pure []
  | e :: es => (traces_typeExpr e).bind fun _ => (traces_typeExprs es).before fun _ => silent_pure _

end

/-! ## Statements in the last phase -/

theorem silent_compareGoto (place : Place) (label : Ident) : (do
    let c ← get
    noteLabel place label (c.jump? label.name) : Analyzing Unit).Silent := by
  refine silent_get.bind fun c => ?_
  unfold noteLabel
  split
  · exact silent_annotate fun _ => rfl
  · exact silent_report _

theorem traces_checkInitializer (expected : Option SymbolId) (e : Expr) :
    Traces .typing [e.tree] (checkInitializer expected e) :=
  (traces_typeExpr e).before fun found => silent_compareInitializer expected e found

theorem traces_checkCondition (e : Expr) : Traces .typing [e.tree] (checkCondition e) := by
  rw [checkCondition_eq]
  exact (traces_typeExpr e).before fun found => silent_compareCondition e found

theorem traces_typeDone (e : Expr) : Traces .typing [e.tree] (do let _ ← typeExpr e) :=
  (traces_typeExpr e).before fun _ => silent_pure ()

theorem traces_checkVariable (d : VariableDecl) : Traces .typing [d.tree] (checkVariable d) := by
  -- the written type is no part of the phase
  have henters : (List.filter (fun t => Phase.typing.enters ⟨d.place, .variable d.name⟩ t.root)
      (d.type.tree :: Expr.optionTrees d.initializer)) = Expr.optionTrees d.initializer :=
    filter_enters_typing (Expr.forall_root_ne_type _)
  refine Traces.inside ?_ henters fun _ _ => rfl
  exact silent_get.traces_bind fun _ => (traces_forM d.initializer.toList
    fun e _ => traces_checkInitializer _ e).before fun _ => silent_declareLocal _ _

theorem traces_checkReturn (place : Place) (value : Option Expr) : Traces .typing
    [.node ⟨place, .returns⟩ (Expr.optionTrees value)] (checkReturn place value) := by
  rw [checkReturn_eq]
  have hvalue : Traces .typing (Expr.optionTrees value) (typeOption value) := by
    cases value with
    | none => exact traces_pure none
    | some e => exact traces_typeExpr e
  exact (hvalue.before fun found => silent_compareReturn place value found).inside
    (filter_enters_typing (Expr.forall_root_ne_type _)) fun _ _ => rfl

theorem silent_checkInLoop (place : Place) : (do
    unless (← get).scopes.inLoop do
      report (.breakContinueOutsideLoop place.span) : Analyzing Unit).Silent := by
  refine silent_get.bind fun c => ?_
  split
  · exact silent_pure ()
  · exact silent_report _

theorem traces_checkInit : (init : ForInit) → Traces .typing init.trees (checkInit init)
  | .nothing => traces_pure ()
  | .variable d => traces_checkVariable d
  | .expr e => traces_typeDone e

mutual

theorem traces_checkStmt : (s : Stmt) → Traces .typing [s.tree] (checkStmt s)
  | .label place name =>
    (traces_pure ()).inside (n := ⟨place, .label name⟩) rfl fun _ _ => rfl
  | .goto place label =>
    (silent_compareGoto place label).traces.inside (n := ⟨place, .goto label⟩) rfl fun _ _ => rfl
  | .returns place value => traces_checkReturn place value
  | .breakLoop place =>
    (silent_checkInLoop place).traces.inside (n := ⟨place, .breakLoop⟩) rfl fun _ _ => rfl
  | .continueLoop place =>
    (silent_checkInLoop place).traces.inside (n := ⟨place, .continueLoop⟩) rfl fun _ _ => rfl
  | .variable d => traces_checkVariable d
  | .expr e => traces_typeDone e
  | .branch b => traces_checkBranch b
  | .whileLoop place condition body => by
    refine traces_node (n := ⟨place, .whileLoop⟩) fun row => ?_
    have hcondition := traces_checkCondition condition row
    have hbody := (traces_checkScope body row).inScope .loop place.id none
    -- the loop is a scope of its body only
    have houtside : Phase.typing.opens? ⟨place, .whileLoop⟩ condition.tree.root = none :=
      if_pos condition.isExpression_root
    have hinside : Phase.typing.opens? ⟨place, .whileLoop⟩ body.tree.root = some .loop :=
      if_neg (by rw [body.root_tree]; decide)
    have hbelow : ∀ s, visitsBelow .typing row ⟨place, .whileLoop⟩ s [condition.tree, body.tree] =
        [condition.tree].flatMap (visits .typing row s) ++ [body.tree].flatMap
          (visits .typing row ({ kind := .loop, owner := place.id, symbol := none } :: s)) := by
      intro s
      rw [visitsBelow_cons (enters_typing condition.root_ne_type) houtside,
        visitsBelow_cons (enters_typing body.root_ne_type) hinside]
      simp only [visitsBelow_nil, List.flatMap_cons, List.flatMap_nil, List.append_nil]
      rfl
    simp only [hbelow]
    refine (hcondition.bind fun _ => hbody).mono ?_
    rw [← Phase.noted_append]
    exact Phase.noted_subset_node
  | .forLoop place init condition step body => by
    rw [Stmt.tree, List.append_assoc, List.append_assoc]
    refine Traces.within (n := ⟨place, .forLoop init.kind condition.isSome step.isSome⟩) ?_
      (.inr rfl) (filter_enters_typing ?_) fun _ _ => rfl
    · exact (traces_checkInit init).bind fun _ =>
        (traces_forM condition.toList fun e _ => traces_checkCondition e).bind fun _ =>
          (traces_forM step.toList fun e _ => traces_typeDone e).bind fun _ =>
            traces_checkScope body
    · simp only [List.forall_mem_append, List.forall_mem_singleton]
      exact ⟨init.root_ne_type, Expr.forall_root_ne_type _, Expr.forall_root_ne_type _,
        body.root_ne_type⟩

theorem traces_checkBranch : (b : Branch) → Traces .typing [b.tree] (checkBranch b)
  | .mk place condition body otherwise => by
    refine Traces.inside (n := ⟨place, .branch otherwise.kind⟩)
      ((traces_checkCondition condition).bind fun _ => (traces_checkScope body).bind fun _ =>
        traces_checkOtherwise otherwise) (filter_enters_typing ?_) fun _ _ => rfl
    exact List.forall_mem_cons.2 ⟨condition.root_ne_type, List.forall_mem_cons.2
      ⟨body.root_ne_type, otherwise.root_ne_type⟩⟩

theorem traces_checkOtherwise : (o : Otherwise) → Traces .typing o.trees (checkOtherwise o)
  | .nothing => traces_pure ()
  | .branch b => traces_checkBranch b
  | .scope s => traces_checkScope s

theorem traces_checkScope : (s : Scope) → Traces .typing [s.tree] (checkScope s)
  | .mk place statements =>
    (traces_checkStmts statements).within (n := ⟨place, .scope⟩) (.inl rfl)
      (filter_enters_typing (Stmt.forall_root_ne_type statements)) fun _ _ => rfl

theorem traces_checkStmts : (ss : List Stmt) → Traces .typing (Stmt.trees ss) (checkStmts ss)
  | [] => traces_pure ()
  | s :: ss => (traces_checkStmt s).bind fun _ => traces_checkStmts ss

end

end Analyzing

end Sable
