import Sable.Automaton.Language

/-!
# What the construction of an automaton keeps

## Main definitions

* `Automaton.Builder.Keeps`: a step of a construction keeps a property.
* `Automaton.AcceptsOnly`: all kinds of tokens that an automaton accepts satisfy a predicate.

## Main statements

* `Automaton.acceptsOnly_ofVocabulary`: the automaton of a vocabulary accepts no end of input, no
  unrecognized token and no keyword.
-/
namespace Sable.Automaton

/-- The kinds of tokens that are accepted satisfy `p`. -/
def AcceptsOnly (p : TokenKind → Prop) (a : Automaton) : Prop :=
  ∀ s kind, a.accepting? s = some kind → p kind

namespace AcceptsOnly

variable {p : TokenKind → Prop} {a : Automaton}

theorem initial : AcceptsOnly p .initial := by
  intro s kind h
  cases s <;> simp [accepting?, state?, Automaton.initial] at h

theorem addState (h : AcceptsOnly p a) {accepting : Option TokenKind}
    (hp : ∀ kind, accepting = some kind → p kind) : AcceptsOnly p (a.addState accepting) := by
  intro s kind hs
  by_cases hlt : s = a.states.size
  · apply hp
    simpa [accepting?, state?, Automaton.addState, hlt] using hs
  · apply h s
    simpa [accepting?, state?, Automaton.addState, Array.getElem?_push, hlt] using hs

theorem update (h : AcceptsOnly p a) {s : StateId} {f : AutomatonState → AutomatonState}
    (hf : ∀ state kind, (f state).accepting = some kind → state.accepting = some kind ∨ p kind) :
    AcceptsOnly p (a.update s f) := by
  intro s' kind hs
  simp only [accepting?, state?, Automaton.update, Array.getElem?_modify] at hs
  split at hs
  · cases ha : a.states[s']? with
    | none => simp [ha] at hs
    | some state =>
      rcases hf state kind (by simpa [ha] using hs) with hstate | hp
      · exact h s' kind (by simpa [accepting?, state?, ha] using hstate)
      · exact hp
  · exact h s' kind hs

theorem addEdges (h : AcceptsOnly p a) {source target : StateId} {cs : List Char} :
    AcceptsOnly p (a.addEdges source cs target) :=
  h.update fun _ _ hk => .inl hk

theorem shareEdges (h : AcceptsOnly p a) {source target : StateId} :
    AcceptsOnly p (a.shareEdges source target) := by
  unfold Automaton.shareEdges
  split
  · exact h.update fun _ _ hk => .inl hk
  · exact h

end AcceptsOnly

namespace Builder

/-- The step leaves an automaton with the property, if it gets one. -/
def Keeps {α : Type} (p : Automaton → Prop) (step : Builder α) : Prop :=
  ∀ a, p a → p (step.run a).2

section

variable {α β : Type} {p : Automaton → Prop}

theorem Keeps.pure (x : α) : Keeps p (pure x : Builder α) := fun _ h => h

theorem Keeps.bind {step : Builder α} {next : α → Builder β} (h : Keeps p step)
    (hnext : ∀ x, Keeps p (next x)) : Keeps p (step >>= next) :=
  fun a ha => hnext _ _ (h a ha)

theorem Keeps.modify {f : Automaton → Automaton} (h : ∀ a, p a → p (f a)) :
    Keeps p (modify f : Builder Unit) := h

theorem Keeps.forM {xs : List α} {step : α → Builder PUnit} (h : ∀ x, Keeps p (step x)) :
    Keeps p (xs.forM step) := by
  induction xs with
  | nil => exact Keeps.pure _
  | cons x xs ih => exact (h x).bind fun _ => ih

theorem Keeps.foldlM {xs : List α} {step : β → α → Builder β} {y : β}
    (h : ∀ y x, Keeps p (step y x)) : Keeps p (xs.foldlM step y) := by
  induction xs generalizing y with
  | nil => exact Keeps.pure _
  | cons x xs ih => exact (h y x).bind fun _ => ih

end

/-! ## The kinds that a vocabulary's automaton accepts -/

/-- The kinds of tokens that an automaton can make by itself. -/
def IsRead (kind : TokenKind) : Prop :=
  kind ≠ .eof ∧ kind ≠ .unrecognized ∧ ∀ k, kind ≠ .keyword k

theorem keeps_newState {accepting : Option TokenKind}
    (h : ∀ kind, accepting = some kind → IsRead kind) :
    Keeps (AcceptsOnly IsRead) (newState accepting) :=
  fun _ ha => ha.addState h

theorem keeps_edges (source : StateId) (cs : List Char) (target : StateId) :
    Keeps (AcceptsOnly IsRead) (edges source cs target) :=
  fun _ ha => ha.addEdges

theorem keeps_otherwise (source target : StateId) :
    Keeps (AcceptsOnly IsRead) (otherwise source target) :=
  fun _ ha => ha.update fun _ _ hk => .inl hk

theorem keeps_follow (source : StateId) (c : Char) :
    Keeps (AcceptsOnly IsRead) (follow source c) := by
  refine Keeps.bind (fun _ ha => ha) fun a => ?_
  split
  · exact .pure _
  · exact (keeps_newState (by simp)).bind fun _ => (keeps_edges _ _ _).bind fun _ => .pure _

theorem keeps_whitespace : Keeps (AcceptsOnly IsRead) whitespace :=
  (keeps_newState (by simp [IsRead])).bind fun _ =>
    (keeps_edges _ _ _).bind fun _ => .modify fun _ ha => ha.shareEdges

theorem keeps_punctuator (spelling : List Char) (q : Punctuator) :
    Keeps (AcceptsOnly IsRead) (punctuator spelling q) := by
  refine (Keeps.foldlM fun _ _ => keeps_follow _ _).bind fun last => .modify fun a ha => ?_
  refine ha.update fun _ kind hk => .inr ?_
  obtain rfl : .punctuator q = kind := by simpa using hk
  simp [IsRead]

theorem keeps_comments : Keeps (AcceptsOnly IsRead) comments :=
  (keeps_follow _ _).bind fun _ => (keeps_newState (by simp [IsRead])).bind fun _ =>
    (keeps_edges _ _ _).bind fun _ => (keeps_otherwise _ _).bind fun _ =>
    (keeps_newState (by simp)).bind fun _ => (keeps_edges _ _ _).bind fun _ =>
    (keeps_newState (by simp)).bind fun _ => (keeps_edges _ _ _).bind fun _ =>
    (keeps_otherwise _ _).bind fun _ => (keeps_newState (by simp)).bind fun _ =>
    (keeps_edges _ _ _).bind fun _ => (keeps_edges _ _ _).bind fun _ =>
    (keeps_otherwise _ _).bind fun _ => (keeps_newState (by simp [IsRead])).bind fun _ =>
    keeps_edges _ _ _

theorem keeps_identifiers : Keeps (AcceptsOnly IsRead) identifiers :=
  (keeps_newState (by simp [IsRead])).bind fun _ => (keeps_otherwise _ _).bind fun _ =>
    (keeps_edges _ _ _).bind fun _ => keeps_edges _ _ _

theorem keeps_numbers : Keeps (AcceptsOnly IsRead) numbers :=
  (keeps_newState (by simp [IsRead])).bind fun _ => (keeps_edges _ _ _).bind fun _ =>
    (keeps_edges _ _ _).bind fun _ => (keeps_newState (by simp)).bind fun _ =>
    (keeps_edges _ _ _).bind fun _ => (keeps_newState (by simp [IsRead])).bind fun _ =>
    (keeps_edges _ _ _).bind fun _ => (keeps_edges _ _ _).bind fun _ =>
    (keeps_newState (by simp)).bind fun _ => (keeps_edges _ _ _).bind fun _ =>
    (keeps_newState (by simp)).bind fun _ => (keeps_edges _ _ _).bind fun _ =>
    (keeps_newState (by simp [IsRead])).bind fun _ => (keeps_edges _ _ _).bind fun _ =>
    (keeps_edges _ _ _).bind fun _ => (keeps_edges _ _ _).bind fun _ =>
    (keeps_newState (by simp [IsRead])).bind fun _ => (keeps_edges _ _ _).bind fun _ => keeps_edges _ _ _

theorem keeps_quoted (quote : Char) {kind : TokenKind} (h : IsRead kind) :
    Keeps (AcceptsOnly IsRead) (quoted quote kind) :=
  (keeps_newState (by simp)).bind fun _ => (keeps_edges _ _ _).bind fun _ =>
    (keeps_otherwise _ _).bind fun _ => (keeps_newState (by simpa using h)).bind fun _ =>
    (keeps_edges _ _ _).bind fun _ => (keeps_newState (by simp)).bind fun _ =>
    (keeps_edges _ _ _).bind fun _ => keeps_edges _ _ _

theorem keeps_language (v : Vocabulary) : Keeps (AcceptsOnly IsRead) (language v) :=
  keeps_whitespace.bind fun _ => (Keeps.forM fun _ => keeps_punctuator _ _).bind fun _ =>
    keeps_comments.bind fun _ => keeps_identifiers.bind fun _ => keeps_numbers.bind fun _ =>
    (keeps_quoted _ (by simp [IsRead])).bind fun _ => keeps_quoted _ (by simp [IsRead])

end Builder

theorem acceptsOnly_ofVocabulary (v : Vocabulary) :
    AcceptsOnly Builder.IsRead (.ofVocabulary v) :=
  Builder.keeps_language v _ .initial

end Sable.Automaton
