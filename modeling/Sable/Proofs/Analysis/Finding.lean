import Sable.Proofs.Analysis.Resolving

/-!
# Types that are all found

A written type that is unknown is reported once, where it is looked up first; the next time there is
no error, but also no answer. So if nothing was reported behind the second phase, every written type
and every function has its type.

## Main definitions

* `Context.IsFound`: if nothing was reported, all types that were looked up are known.
* `Analyzing.Answers`: a step that keeps it so, and gives an answer unless something is reported.

## Main statements

* `Block.isSome_of_resolveTypes`: the second phase.
-/
namespace Sable

/-- If nothing was reported, all types that were looked up are known. -/
def Context.IsFound (c : Context) : Prop :=
  c.errors = [] → ∀ n ∈ c.attempted, (c.annotations.declaredTypes.get? n).isSome

namespace Analyzing

variable {α β : Type}

/-- In this context, the step gives an answer as in `Q` unless something is reported. -/
def AnswersAt (c : Context) (m : Analyzing α) (Q : α → Context → Prop) : Prop :=
  (m.run c).2.IsFound ∧ ((m.run c).2.errors = [] → c.errors = [] ∧ Q (m.run c).1 (m.run c).2)

structure Answers (m : Analyzing α) (Q : α → Context → Prop) : Prop where
  finds : m.Finds
  answersAt : ∀ c : Context, c.library.IsApart → c.IsFound → AnswersAt c m Q

section Combining

variable {c : Context} {m : Analyzing α} {Q : α → Context → Prop} {R : β → Context → Prop}

theorem answersAt_pure {x : α} (hc : c.IsFound) (h : Q x c) : AnswersAt c (pure x) Q :=
  ⟨hc, fun herrors => ⟨herrors, h⟩⟩

/-- What is reported need not be known. -/
theorem answersAt_report (e : SemanticError) (x : α) : AnswersAt c (do
    report e
    return x) Q :=
  have herrors : c.errors ++ [e] ≠ [] := by simp
  ⟨fun h => absurd h herrors, fun h => absurd h herrors⟩

theorem answers_pure {x : α} (h : ∀ c, Q x c) : (pure x : Analyzing α).Answers Q :=
  ⟨finds_pure x, fun c _ hc => answersAt_pure hc (h c)⟩

theorem answers_get_bind {f : Context → Analyzing α} (hfinds : (get >>= f).Finds)
    (hf : ∀ c : Context, c.library.IsApart → c.IsFound → AnswersAt c (f c) Q) :
    (get >>= f).Answers Q :=
  ⟨hfinds, hf⟩

theorem Answers.bind {P : α → Context → Prop} {f : α → Analyzing β} (hm : m.Answers P)
    (hf : ∀ x, (f x).Answers fun y c' => (∃ c : Context, c.Finds c' ∧ P x c) → R y c') :
    (m >>= f).Answers R := by
  refine ⟨hm.finds.bind fun x => (hf x).finds, fun c hapart hc => ?_⟩
  have hapart' := (hm.finds c hapart).interns.isApart hapart
  obtain ⟨hc', hP⟩ := hm.answersAt c hapart hc
  obtain ⟨hc'', hR⟩ := (hf _).answersAt _ hapart' hc'
  refine ⟨hc'', fun herrors => ?_⟩
  obtain ⟨herrors', hR⟩ := hR herrors
  obtain ⟨herrors'', hP⟩ := hP herrors'
  exact ⟨herrors'', hR ⟨_, (hf _).finds _ hapart', hP⟩⟩

theorem Answers.imp {P : α → Context → Prop} (h : m.Answers P) (hP : ∀ x c, P x c → Q x c) :
    m.Answers Q :=
  ⟨h.finds, fun c hapart hc => (h.answersAt c hapart hc).imp_right fun hx herrors =>
    (hx herrors).imp_right (hP _ _)⟩

/-- What is known of one element is still known behind the next ones. -/
theorem answers_forM {P : β → Context → Prop} {f : β → Analyzing Unit} (xs : List β)
    (hP : ∀ {x c c'}, c.Finds c' → P x c → P x c')
    (h : ∀ x ∈ xs, (f x).Answers fun _ c => P x c) :
    (xs.forM f).Answers fun _ c => ∀ x ∈ xs, P x c := by
  induction xs with
  | nil => exact answers_pure (by simp)
  | cons x xs ih =>
    rw [List.forall_mem_cons] at h
    have hrest := ih h.2
    change (f x >>= fun _ => xs.forM f).Answers _
    refine h.1.bind fun _ => ⟨hrest.finds, fun c hapart hc => ?_⟩
    refine (hrest.answersAt c hapart hc).imp_right fun hxs herrors => ?_
    refine (hxs herrors).imp_right fun hxs hx => ?_
    obtain ⟨c', hfinds, hx⟩ := hx
    exact List.forall_mem_cons.2 ⟨hP hfinds hx, hxs⟩

theorem answers_mapM {γ : Type} {f : β → Analyzing (Option γ)} (xs : List β)
    (h : ∀ x ∈ xs, (f x).Answers fun r _ => r.isSome) :
    (xs.mapM f).Answers fun rs _ => (rs.mapM id).isSome := by
  induction xs with
  | nil =>
    rw [List.mapM_nil]
    exact answers_pure fun _ => rfl
  | cons x xs ih =>
    rw [List.forall_mem_cons] at h
    rw [List.mapM_cons]
    refine h.1.bind fun r => (ih h.2).bind fun rs => answers_pure fun c hrs hr => ?_
    obtain ⟨_, -, hrs⟩ := hrs
    obtain ⟨_, -, hr⟩ := hr
    obtain ⟨y, rfl⟩ := Option.isSome_iff_exists.1 hr
    obtain ⟨ys, hys⟩ := Option.isSome_iff_exists.1 hrs
    simp [List.mapM_cons, hys]

end Combining

/-! ## The second phase -/

theorem answers_builtin (name : String) (span : Span) :
    (builtin name span).Answers fun r _ => r.isSome := by
  refine answers_get_bind (finds_builtin name span) fun c _ hc => ?_
  split
  · exact answersAt_pure hc rfl
  · exact answersAt_report _ _

/-- A type that is looked up again has its answer, or it was reported the first time. -/
theorem answers_resolveType (t : WrittenType) :
    (resolveType t).Answers fun r c => r.isSome ∧ t.place.id ∈ c.attempted := by
  refine answers_get_bind (finds_resolveType t) fun c _ hc => ?_
  split
  · next hmem => exact ⟨hc, fun herrors => ⟨herrors, hc herrors _ hmem, hmem⟩⟩
  · generalize c.globalType? t.name.name = base
    cases base with
    | none =>
      have herrors : c.errors ++ [.symbolNotFound t.name.name t.name.span] ≠ [] := by simp
      exact ⟨fun h => absurd h herrors, fun h => absurd h herrors⟩
    | some base =>
      refine ⟨fun herrors n hn => ?_, fun herrors => ⟨herrors, rfl, List.mem_cons_self⟩⟩
      change ((c.annotations.declaredTypes.insert t.place.id _).get? n).isSome
      rw [OrderedMap.get?_insert]
      split
      · rfl
      · next hne => exact hc herrors n ((List.mem_cons.1 hn).resolve_left hne)

theorem answers_resolveResult (name : Ident) (returns : Option WrittenType) :
    (resolveResult name returns).Answers fun r _ => r.isSome := by
  cases returns with
  | none => exact answers_builtin _ _
  | some t => exact (answers_resolveType t).imp fun _ _ h => h.1

/-- The type of a function is known if all its parts are. -/
theorem answers_resolveSignature (node : NodeId) (name : Ident) (ps : List Parameter)
    (returns : Option WrittenType) : (resolveSignature node name ps returns).Answers fun _ c =>
      ∃ x, c.annotations.signatures.get? node = some x := by
  rw [resolveSignature_eq]
  refine (answers_mapM ps fun p _ => (answers_resolveType p.type).imp fun _ _ h => h.1).bind
    fun rs => (answers_resolveResult name returns).bind fun r => ?_
  have hnote : (noteSignature node (rs.mapM id) r).Answers fun _ c =>
      (rs.mapM id).isSome → r.isSome → ∃ x, c.annotations.signatures.get? node = some x := by
    refine ⟨finds_noteSignature _ _ _, fun c _ hc => ?_⟩
    generalize rs.mapM id = parameters
    cases parameters with
    | none => exact answersAt_pure hc (by simp)
    | some parameters =>
      cases r with
      | none => exact answersAt_pure hc (by simp)
      | some returns =>
        obtain ⟨x, hx⟩ : ∃ x, x = (c.library.functionType parameters returns).1 := ⟨_, rfl⟩
        refine ⟨hc, fun herrors => ⟨herrors, fun _ _ => ⟨x, ?_⟩⟩⟩
        change (c.annotations.signatures.insert node
          (c.library.functionType parameters returns).1).get? node = some x
        rw [OrderedMap.get?_insert, if_pos rfl, hx]
  refine hnote.imp fun _ _ h hr hrs => ?_
  obtain ⟨_, _, hr⟩ := hr
  obtain ⟨_, _, hrs⟩ := hrs
  exact h hrs hr

/-- The node has its type, if it is a written type or a function. -/
def HasAnswer (n : Node) (c : Context) : Prop :=
  (∀ t, n.head = .type t → t.place.id ∈ c.attempted) ∧
    (n.kind = .function → ∃ x, c.annotations.signatures.get? n.id = some x)

theorem answers_resolveNode (n : Node) : (resolveNode n).Answers fun _ c => HasAnswer n c := by
  unfold resolveNode
  split
  · next t hhead =>
    refine (answers_resolveType t).bind fun _ => answers_pure fun c ⟨c', hfinds, _, hmem⟩ => ?_
    refine ⟨fun t' ht' => ?_, fun hkind => ?_⟩
    · obtain rfl := Head.type.inj (hhead.symm.trans ht')
      exact hfinds.attempted_subset hmem
    · simp [Node.kind, hhead, Head.kind] at hkind
  · next hhead =>
    refine (answers_resolveSignature _ _ _ _).imp fun _ c hsignature => ⟨?_, fun _ => hsignature⟩
    simp [hhead]
  · next htype hfunction =>
    refine answers_pure fun c => ⟨fun t ht => absurd ht (htype t), fun hkind => ?_⟩
    cases hhead : n.head with
    | function name ps r => exact absurd hhead (hfunction name ps r)
    | _ => simp [Node.kind, hhead, Head.kind] at hkind

theorem answers_resolveTypes (t : Tree) :
    (resolveTypes t).Answers fun _ c => ∀ n ∈ t.preorder, HasAnswer n c := by
  refine answers_forM _ (fun {n c c'} hfinds h => ⟨fun t ht => ?_, fun hkind => ?_⟩)
    fun n _ => answers_resolveNode n
  · exact hfinds.attempted_subset (h.1 t ht)
  · obtain ⟨x, hx⟩ := h.2 hkind
    exact hfinds.signature _ x hx

end Analyzing

/-- If nothing is reported, all written types and all functions have their types. -/
theorem Block.isSome_of_resolveTypes {b : Block} {c : Context} (hlib : c.library.IsApart)
    (hattempted : c.attempted = []) :
    let c' := ((Analyzing.resolveTypes b.tree).run c).2
    c'.errors = [] → (∀ t ∈ b.writtenTypes, (c'.annotations.declaredTypes.get? t.place.id).isSome) ∧
      ∀ d ∈ b.allFunctions, (c'.annotations.signatures.get? d.place.id).isSome := by
  intro c' herrors
  obtain ⟨hfound, hanswers⟩ := (Analyzing.answers_resolveTypes b.tree).answersAt c hlib
    fun _ n hn => by simp [hattempted] at hn
  obtain ⟨-, hanswers⟩ := hanswers herrors
  refine ⟨fun t ht => ?_, fun d hd => ?_⟩
  · obtain ⟨n, hn, hhead⟩ := mem_writtenTypes.1 ht
    exact hfound herrors _ ((hanswers n hn).1 t hhead)
  · obtain ⟨x, hx⟩ := (hanswers _ (node_mem_preorder hd)).2 rfl
    exact Option.isSome_iff_exists.2 ⟨x, hx⟩

end Sable
