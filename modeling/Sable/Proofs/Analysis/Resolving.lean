import Sable.Proofs.Analysis.Declaring

/-!
# Looking up written types

The second phase gives written types and functions the symbols that stand for them. Whatever it
finds, it makes no symbols but interned types, and all that it can report is that a name is
unknown.

## Main definitions

* `Context.Finds`, `Analyzing.Finds`: a step that looks up types.

## Main statements

* `Analyzing.finds_resolveTypes`: what the second phase changes.
* `Block.reports_resolveTypes`: what it can report.
-/
namespace Sable

/-! ## Steps that look up types -/

/-- A step that looks up types. -/
structure Context.Finds (c c' : Context) : Prop where
  eq : ∃ library attempted declaredTypes signatures errors, c' = { c with
    library, attempted, errors, annotations := { c.annotations with declaredTypes, signatures } }
  interns : c.library.Interns c'.library
  attempted_subset : c.attempted ⊆ c'.attempted
  signature : ∀ n x, c.annotations.signatures.get? n = some x →
    ∃ y, c'.annotations.signatures.get? n = some y

namespace Context.Finds

variable {c c' c'' : Context}

theorem refl (c : Context) : c.Finds c :=
  ⟨⟨_, _, _, _, _, rfl⟩, .refl _, List.Subset.refl _, fun _ x h => ⟨x, h⟩⟩

theorem trans (h : c.Finds c') (h' : c'.Finds c'') : c.Finds c'' where
  eq := by
    obtain ⟨_, _, _, _, _, rfl⟩ := h.eq
    obtain ⟨_, _, _, _, _, rfl⟩ := h'.eq
    exact ⟨_, _, _, _, _, rfl⟩
  interns := h.interns.trans h'.interns
  attempted_subset := List.Subset.trans h.attempted_subset h'.attempted_subset
  signature n x hx := by
    obtain ⟨y, hy⟩ := h.signature n x hx
    exact h'.signature n y hy

theorem globals_eq (h : c.Finds c') : c'.globals = c.globals := by
  obtain ⟨_, _, _, _, _, rfl⟩ := h.eq
  rfl

theorem symbols_eq (h : c.Finds c') : c'.annotations.symbols = c.annotations.symbols := by
  obtain ⟨_, _, _, _, _, rfl⟩ := h.eq
  rfl

theorem scopes_eq (h : c.Finds c') : c'.scopes = c.scopes := by
  obtain ⟨_, _, _, _, _, rfl⟩ := h.eq
  rfl

end Context.Finds

namespace Analyzing

variable {α β : Type}

/-- Whatever the context is, the step looks up types. -/
def Finds (m : Analyzing α) : Prop := ∀ c : Context, c.library.IsApart → c.Finds (m.run c).2

theorem finds_pure (x : α) : (pure x : Analyzing α).Finds := fun c _ => .refl c

theorem finds_get : (get : Analyzing Context).Finds := fun c _ => .refl c

theorem Finds.bind {m : Analyzing α} {f : α → Analyzing β} (hm : m.Finds)
    (hf : ∀ x, (f x).Finds) : (m >>= f).Finds := by
  intro c hc
  have hfirst := hm c hc
  exact hfirst.trans (hf _ _ (hfirst.interns.isApart hc))

theorem finds_report (e : SemanticError) : (report e).Finds :=
  fun _ _ => ⟨⟨_, _, _, _, _, rfl⟩, .refl _, List.Subset.refl _, fun _ x h => ⟨x, h⟩⟩

theorem finds_onLibrary {f : Library → α × Library}
    (hf : ∀ lib : Library, lib.IsApart → lib.Interns (f lib).2) : (onLibrary f).Finds :=
  fun _ hc => ⟨⟨_, _, _, _, _, rfl⟩, hf _ hc, List.Subset.refl _, fun _ x h => ⟨x, h⟩⟩

theorem finds_declaredTypes (n : NodeId) (x : SymbolId) :
    (annotate fun a => { a with declaredTypes := a.declaredTypes.insert n x }).Finds :=
  fun _ _ => ⟨⟨_, _, _, _, _, rfl⟩, .refl _, List.Subset.refl _, fun _ x h => ⟨x, h⟩⟩

theorem finds_signatures (n : NodeId) (x : SymbolId) :
    (annotate fun a => { a with signatures := a.signatures.insert n x }).Finds := by
  refine fun c _ => ⟨⟨_, _, _, _, _, rfl⟩, .refl _, List.Subset.refl _, fun m y hy => ?_⟩
  change ∃ z, (c.annotations.signatures.insert n x).get? m = some z
  rw [OrderedMap.get?_insert]
  split
  · exact ⟨x, rfl⟩
  · exact ⟨y, hy⟩

theorem finds_attempt (n : NodeId) :
    (modify fun c => { c with attempted := n :: c.attempted } : Analyzing Unit).Finds :=
  fun _ _ => ⟨⟨_, _, _, _, _, rfl⟩, .refl _, List.subset_cons_self _ _, fun _ x h => ⟨x, h⟩⟩

theorem finds_forM {f : α → Analyzing Unit} (xs : List α) (h : ∀ x, (f x).Finds) :
    (xs.forM f).Finds := by
  induction xs with
  | nil => exact finds_pure ()
  | cons x xs ih =>
    change (f x >>= fun _ => xs.forM f).Finds
    exact (h x).bind fun _ => ih

theorem finds_mapM {f : α → Analyzing β} (xs : List α) (h : ∀ x, (f x).Finds) :
    (xs.mapM f).Finds := by
  induction xs with
  | nil =>
    rw [List.mapM_nil]
    exact finds_pure []
  | cons x xs ih =>
    rw [List.mapM_cons]
    exact (h x).bind fun _ => ih.bind fun _ => finds_pure _

theorem finds_builtin (name : String) (span : Span) : (builtin name span).Finds := by
  refine finds_get.bind fun c => ?_
  split
  · exact finds_pure _
  · exact (finds_report _).bind fun _ => finds_pure _

/-! ## The second phase -/

def resolveResult (name : Ident) : Option WrittenType → Analyzing (Option SymbolId)
  | some t => resolveType t
  | none => builtin Library.voidName name.span

def noteSignature (node : NodeId) : Option (List SymbolId) → Option SymbolId → Analyzing Unit
  | some parameters, some returns => do
    let signature ← onLibrary (·.functionType parameters returns)
    annotate fun a => { a with signatures := a.signatures.insert node signature }
  | _, _ => return

theorem resolveSignature_eq (node : NodeId) (name : Ident) (ps : List Parameter)
    (returns : Option WrittenType) : resolveSignature node name ps returns = (do
      let parameters ← ps.mapM fun p => resolveType p.type
      let returns ← resolveResult name returns
      noteSignature node (parameters.mapM id) returns) := by
  cases returns <;> rfl

theorem finds_resolveType (t : WrittenType) : (resolveType t).Finds := by
  refine finds_get.bind fun c => ?_
  split
  · exact finds_pure _
  · refine (finds_attempt _).bind fun _ => ?_
    split
    · exact (finds_report _).bind fun _ => finds_pure _
    · exact (finds_onLibrary fun _ h => h.interns_pointerType _ _).bind fun _ =>
        (finds_declaredTypes _ _).bind fun _ => finds_pure _

theorem finds_resolveResult (name : Ident) (returns : Option WrittenType) :
    (resolveResult name returns).Finds := by
  cases returns with
  | none => exact finds_builtin _ _
  | some t => exact finds_resolveType t

theorem finds_noteSignature (node : NodeId) (parameters : Option (List SymbolId))
    (returns : Option SymbolId) : (noteSignature node parameters returns).Finds := by
  unfold noteSignature
  split
  · exact (finds_onLibrary fun _ h => h.interns_functionType _ _).bind fun _ =>
      finds_signatures _ _
  · exact finds_pure ()

theorem finds_resolveNode (n : Node) : (resolveNode n).Finds := by
  unfold resolveNode
  split
  · exact (finds_resolveType _).bind fun _ => finds_pure ()
  · rw [resolveSignature_eq]
    exact (finds_mapM _ fun _ => finds_resolveType _).bind fun _ =>
      (finds_resolveResult _ _).bind fun _ => finds_noteSignature _ _ _
  · exact finds_pure ()

theorem finds_resolveTypes (t : Tree) : (resolveTypes t).Finds := finds_forM _ finds_resolveNode

section Reports

variable {S : SemanticError → Prop}

theorem reports_resolveType {t : WrittenType} (h : ∀ name, S (.symbolNotFound name t.name.span)) :
    (resolveType t).Reports S := by
  refine reports_get.bind fun c => ?_
  split
  · exact reports_pure _
  · refine .bind (reports_modify fun _ => rfl) fun _ => ?_
    split
    · exact (reports_report (h _)).bind fun _ => reports_pure _
    · exact (reports_onLibrary _).bind fun _ => (reports_annotate _).bind fun _ => reports_pure _

theorem reports_resolveResult {name : Ident} {returns : Option WrittenType}
    (hname : ∀ n, S (.symbolNotFound n name.span))
    (hreturns : ∀ t ∈ returns, ∀ n, S (.symbolNotFound n t.name.span)) :
    (resolveResult name returns).Reports S := by
  cases returns with
  | none => exact reports_builtin (hname _)
  | some t => exact reports_resolveType (hreturns t rfl)

theorem reports_noteSignature (node : NodeId) (parameters : Option (List SymbolId))
    (returns : Option SymbolId) : (noteSignature node parameters returns).Reports S := by
  unfold noteSignature
  split
  · exact (reports_onLibrary _).bind fun _ => reports_annotate _
  · exact reports_pure ()

theorem reports_resolveSignature {node : NodeId} {name : Ident} {ps : List Parameter}
    {returns : Option WrittenType} (hname : ∀ n, S (.symbolNotFound n name.span))
    (hps : ∀ p ∈ ps, ∀ n, S (.symbolNotFound n p.type.name.span))
    (hreturns : ∀ t ∈ returns, ∀ n, S (.symbolNotFound n t.name.span)) :
    (resolveSignature node name ps returns).Reports S := by
  rw [resolveSignature_eq]
  exact (reports_mapM ps fun p hp => reports_resolveType (hps p hp)).bind fun _ =>
    (reports_resolveResult hname hreturns).bind fun _ => reports_noteSignature _ _ _

end Reports

end Analyzing

/-- Unknown names are those of written types, or of functions if there is no void type. -/
theorem Block.reports_resolveTypes {b : Block} {S : SemanticError → Prop}
    (htypes : ∀ t ∈ b.writtenTypes, ∀ n, S (.symbolNotFound n t.name.span))
    (hfunctions : ∀ d ∈ b.allFunctions, ∀ n, S (.symbolNotFound n d.name.span)) :
    (Analyzing.resolveTypes b.tree).Reports S := by
  refine Analyzing.reports_forM _ fun n hn => ?_
  unfold Analyzing.resolveNode
  split
  · next t hhead =>
    have ht : t ∈ b.writtenTypes := Block.mem_writtenTypes.2 ⟨n, hn, hhead⟩
    exact (Analyzing.reports_resolveType (htypes t ht)).bind fun _ => Analyzing.reports_pure ()
  · next name ps returns hhead =>
    have hkind : n.kind = .function := by rw [Node.kind, hhead, Head.kind]
    obtain ⟨d, hd, rfl⟩ := (Block.type_and_function_of_mem_preorder hn).2 hkind
    obtain ⟨rfl, rfl, rfl⟩ := Head.function.inj hhead
    exact Analyzing.reports_resolveSignature (hfunctions d hd)
      (fun p hp => htypes _ (Block.parameter_mem_writtenTypes hd p hp))
      fun t ht => htypes t (Block.returns_mem_writtenTypes hd t ht)
  · exact Analyzing.reports_pure ()

end Sable
