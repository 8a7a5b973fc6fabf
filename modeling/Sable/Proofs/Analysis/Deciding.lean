import Mathlib.Data.List.Basic
import Sable.Analysis.Run

/-!
# Errors of steps

Errors are only ever added, and which ones a step can add is seen from its parts. So a question is
answered by whether a step that begins without errors ends without errors.

## Main definitions

* `Analyzing.Reports`: a step adds errors of some kinds only.
* `Analyzing.Grows`: a step adds errors.

## Main statements

* `Analyzing.run_reporting`: what a step of the library that may fail reports.
* `Analyzing.Reports.bind`: one step after the other.
-/
namespace Sable.Analyzing

variable {α β : Type} {c : Context}

/-! ## Errors that are added -/

theorem run_bind (m : Analyzing α) (f : α → Analyzing β) (c : Context) :
    (m >>= f).run c = (f (m.run c).1).run (m.run c).2 := rfl

theorem run_get_bind (f : Context → Analyzing α) (c : Context) :
    (get >>= f).run c = (f c).run c := rfl

/-- The error of a step that failed. -/
def failure : Except SemanticError α → List SemanticError
  | .ok _ => []
  | .error e => [e]

theorem run_reporting (f : Library → Except SemanticError α × Library) (c : Context) :
    (reporting f).run c = ((f c.library).1.toOption,
      { c with library := (f c.library).2, errors := c.errors ++ failure (f c.library).1 }) := by
  change ((match (f c.library).1 with
    | .ok x => pure (some x)
    | .error e => do report e; return none : Analyzing (Option α)).run _) = _
  cases (f c.library).1 with
  | ok x =>
    rw [failure, List.append_nil]
    rfl
  | error e => rfl

theorem run_builtin (name : String) (span : Span) (c : Context) :
    (builtin name span).run c = match c.globalType? name with
      | some id => (some id, c)
      | none => (none, { c with errors := c.errors ++ [.symbolNotFound name span] }) := by
  rw [builtin, run_get_bind]
  cases c.globalType? name <;> rfl

/-- All errors that are there stay, and behind them come only errors that satisfy `S`. -/
def Reports (S : SemanticError → Prop) (m : Analyzing α) : Prop :=
  ∀ c : Context, ∃ es, (m.run c).2.errors = c.errors ++ es ∧ ∀ e ∈ es, S e

/-- All errors that are there stay, in front of those that come. -/
abbrev Grows (m : Analyzing α) : Prop := m.Reports fun _ => True

section Reports

variable {S S' : SemanticError → Prop}

theorem Reports.mono {m : Analyzing α} (h : m.Reports S) (hS : ∀ e, S e → S' e) :
    m.Reports S' := by
  intro c
  obtain ⟨es, heq, hes⟩ := h c
  exact ⟨es, heq, fun e he => hS e (hes e he)⟩

/-- A step does not change the errors that it does not report. -/
theorem Reports.filter_errors {p : SemanticError → Bool} {m : Analyzing α}
    (h : m.Reports (p · = false)) (c : Context) :
    (m.run c).2.errors.filter p = c.errors.filter p := by
  obtain ⟨es, heq, hes⟩ := h c
  have hnone : es.filter p = [] := List.filter_eq_nil_iff.2 fun e he => by simp [hes e he]
  rw [heq, List.filter_append, hnone, List.append_nil]

/-- A step that does not touch the errors. -/
theorem reports_of_errors_eq {m : Analyzing α} (h : ∀ c : Context, (m.run c).2.errors = c.errors) :
    m.Reports S :=
  fun c => ⟨[], by rw [h, List.append_nil], by simp⟩

theorem reports_pure (x : α) : (pure x : Analyzing α).Reports S :=
  reports_of_errors_eq fun _ => rfl

theorem Reports.bind {m : Analyzing α} {f : α → Analyzing β} (hm : m.Reports S)
    (hf : ∀ x, (f x).Reports S) : (m >>= f).Reports S := by
  intro c
  obtain ⟨es, hes, hS⟩ := hm c
  obtain ⟨es', hes', hS'⟩ := hf (m.run c).1 (m.run c).2
  refine ⟨es ++ es', ?_, ?_⟩
  · rw [run_bind, hes', hes, List.append_assoc]
  · simpa only [List.forall_mem_append] using ⟨hS, hS'⟩

theorem Reports.map {m : Analyzing α} (hm : m.Reports S) (f : α → β) : (f <$> m).Reports S := hm

theorem reports_get : (get : Analyzing Context).Reports S := reports_of_errors_eq fun _ => rfl

theorem reports_report {e : SemanticError} (h : S e) : (report e).Reports S :=
  fun _ => ⟨[e], rfl, by simpa using h⟩

theorem reports_modify {f : Context → Context} (h : ∀ c, (f c).errors = c.errors) :
    (modify f : Analyzing Unit).Reports S :=
  reports_of_errors_eq h

theorem reports_onLibrary (f : Library → α × Library) : (onLibrary f).Reports S :=
  reports_of_errors_eq fun _ => rfl

theorem reports_annotate (f : Annotations → Annotations) : (annotate f).Reports S :=
  reports_of_errors_eq fun _ => rfl

theorem reports_visit (phase : Phase) (node : NodeId) : (visit phase node).Reports S :=
  reports_of_errors_eq fun _ => rfl

theorem reports_reporting {f : Library → Except SemanticError α × Library}
    (h : ∀ lib e, (f lib).1 = .error e → S e) : (reporting f).Reports S := by
  intro c
  refine ⟨failure (f c.library).1, by rw [run_reporting], fun e he => ?_⟩
  cases hf : (f c.library).1 with
  | ok x => simp [hf, failure] at he
  | error e' =>
    rw [hf, failure, List.mem_singleton] at he
    exact he ▸ h _ _ hf

theorem Reports.inScope {step : Analyzing Unit} (h : step.Reports S) (kind : ScopeKind)
    (owner : NodeId) (symbol : Option SymbolId) : (inScope kind owner symbol step).Reports S := by
  unfold Analyzing.inScope
  refine .bind (reports_modify ?_) fun _ => h.bind fun _ => reports_modify ?_
  · exact fun _ => rfl
  · exact fun _ => rfl

theorem reports_forM {f : α → Analyzing Unit} (xs : List α) (h : ∀ x ∈ xs, (f x).Reports S) :
    (xs.forM f).Reports S := by
  induction xs with
  | nil => exact reports_pure ()
  | cons x xs ih =>
    change (f x >>= fun _ => xs.forM f).Reports S
    exact (h x List.mem_cons_self).bind fun _ => ih fun y hy => h y (List.mem_cons_of_mem x hy)

theorem reports_mapM {f : α → Analyzing β} (xs : List α) (h : ∀ x ∈ xs, (f x).Reports S) :
    (xs.mapM f).Reports S := by
  induction xs with
  | nil =>
    rw [List.mapM_nil]
    exact reports_pure []
  | cons x xs ih =>
    rw [List.mapM_cons]
    exact (h x List.mem_cons_self).bind fun _ =>
      (ih fun y hy => h y (List.mem_cons_of_mem x hy)).bind fun _ => reports_pure _

theorem reports_builtin {name : String} {span : Span} (h : S (.symbolNotFound name span)) :
    (builtin name span).Reports S := by
  refine reports_get.bind fun c => ?_
  split
  · exact reports_pure _
  · exact (reports_report h).bind fun _ => reports_pure _

/-- An error about a taken name, or about a symbol that is nowhere to be found. -/
theorem reports_declareGlobal (name : String) (id : SymbolId) (span : Span)
    (hname : ∀ name span, S (.sameName name span)) (hunknown : ∀ id, S (Library.unknown id)) :
    (declareGlobal name id span).Reports S := by
  refine reports_get.bind fun c => ?_
  split
  · exact reports_report (hname _ _)
  · refine .bind (reports_modify fun _ => rfl) fun _ =>
      (reports_reporting fun lib e he => ?_).bind fun _ => reports_pure ()
    unfold Library.registerGlobal at he
    split at he
    · rw [← Except.error.inj he]
      exact hunknown id
    · split at he
      · rw [← Except.error.inj he]
        exact hname _ _
      · simp at he

end Reports

theorem run_reporting_ok {f : Library → Except SemanticError α × Library} {x : α} {lib : Library}
    (h : f c.library = (.ok x, lib)) :
    (reporting f).run c = (some x, { c with library := lib }) := by
  rw [run_reporting, h, failure, List.append_nil]
  rfl

end Sable.Analyzing
