import Sable.Proofs.Automaton.Layers
import Sable.Proofs.Token.Lexemes

/-!
# Identifiers of any vocabulary

Whatever the punctuators are, an identifier begins with a character that begins nothing else and goes
on with letters, digits and underscores. All other states lead to none where an identifier ends.

## Main definitions

* `Automaton.Mute`: an automaton without identifiers.
* `Automaton.Layers.Elsewhere`: a state that is neither the root nor that of words.

## Main statements

* `Automaton.exists_of_kindOf?_eq_identifier`: what an identifier looks like.
-/
namespace Sable.Automaton

open Builder Lexeme
open scoped Computability

/-! ## Whitespace and punctuators -/

/-- No state ends an identifier, and none has an edge for all other characters. -/
def Mute (a : Automaton) : Prop :=
  ∀ s state, a.state? s = some state → state.otherwise = none ∧ state.accepting ≠ some .identifier

namespace Mute

variable {a : Automaton}

theorem initial : Mute .initial := by
  intro s state h
  cases s with
  | zero => simp [← show ({} : AutomatonState) = state by simpa [state?, Automaton.initial] using h]
  | succ s => simp [state?, Automaton.initial] at h

theorem addState (h : Mute a) {accepting : Option TokenKind} (hne : accepting ≠ some .identifier) :
    Mute (a.addState accepting) := by
  intro s state hs
  rw [state?_addState] at hs
  split at hs
  · obtain rfl := Option.some.inj hs
    exact ⟨rfl, hne⟩
  · exact h s state hs

theorem update (h : Mute a) (s : StateId) {f : AutomatonState → AutomatonState}
    (hotherwise : ∀ state, (f state).otherwise = state.otherwise)
    (haccepting : ∀ state, state.accepting ≠ some .identifier →
      (f state).accepting ≠ some .identifier) : Mute (a.update s f) := by
  intro t state ht
  rw [state?_update] at ht
  split at ht
  · obtain ⟨state, hstate, rfl⟩ := Option.map_eq_some_iff.1 ht
    exact ⟨(hotherwise state).trans (h t state hstate).1, haccepting state (h t state hstate).2⟩
  · exact h t state ht

theorem addEdges (h : Mute a) (s t : StateId) (cs : List Char) : Mute (a.addEdges s cs t) :=
  h.update s (fun _ => rfl) fun _ => id

theorem shareEdges (h : Mute a) (s t : StateId) : Mute (a.shareEdges s t) := by
  unfold Automaton.shareEdges
  split
  · exact h.update t (fun _ => rfl) fun _ => id
  · exact h

theorem setAccepting (h : Mute a) (s : StateId) {kind : TokenKind} (hkind : kind ≠ .identifier) :
    Mute (a.setAccepting s kind) :=
  h.update s (fun _ => rfl) fun _ _ heq => hkind (Option.some.inj heq)

theorem follow (s : StateId) (c : Char) : Keeps Mute (follow s c) := by
  intro a h
  rw [run_follow]
  split
  · exact h
  · exact (h.addState (by simp)).addEdges _ _ _

theorem newState {accepting : Option TokenKind} (hne : accepting ≠ some .identifier) :
    Keeps Mute (newState accepting) := fun _ h => h.addState hne

theorem edges (s t : StateId) (cs : List Char) : Keeps Mute (edges s cs t) :=
  fun _ h => h.addEdges s t cs

theorem whitespace : Keeps Mute whitespace :=
  (newState (by simp)).bind fun _ => (edges _ _ _).bind fun _ =>
    Keeps.modify fun _ h => h.shareEdges _ _

theorem foundation (v : Vocabulary) : Keeps Mute (foundation v) := by
  have hpunctuators : Keeps Mute (punctuators v) := Keeps.forM fun p =>
    (Keeps.foldlM fun _ _ => follow _ _).bind fun last => Keeps.modify fun a h =>
      h.setAccepting last (by simp)
  exact whitespace.bind fun _ => hpunctuators.bind fun _ => follow _ _

end Mute

theorem mute_base (v : Vocabulary) : Mute (base v) := Mute.foundation v _ .initial

theorem tidy_base (v : Vocabulary) : Tidy (base v) :=
  ((Tidy.whitespace.bind fun _ => (Tidy.punctuators v).bind fun _ => Tidy.follow _ _) :
    Keeps Tidy (foundation v)) _ .initial

/-! ## States that do not belong to words -/

namespace Layers

variable {v : Vocabulary} {a : Automaton} (l : Layers v a)

inductive Elsewhere : StateId → Prop
  | base {s : StateId} (hs : s < (Automaton.base v).size) (hroot : s ≠ root) : Elsewhere s
  | comment (s : Comment) : Elsewhere (l.comment s)
  | numeric (s : Numeric) : Elsewhere (l.numeric s)
  | character (s : Quoted) : Elsewhere (l.character s)
  | string (s : Quoted) : Elsewhere (l.string s)

/-- What is edged in whitespace and punctuators stays there. -/
theorem elsewhere_of_edge {s t : StateId} {state : AutomatonState}
    (hs : (Automaton.base v).state? s = some state) {c : Char} (hedge : state.edge? c = some t) :
    l.Elsewhere t := by
  obtain ⟨cs, cs', hedges, -⟩ := List.lookup_eq_some_iff.1 hedge
  obtain ⟨hroot, hlt⟩ := tidy_base v s state hs (c, t) (by simp [hedges])
  exact .base hlt hroot.ne'

/-- A state behind the root, with what is laid over it. -/
theorem exists_base {s : StateId} (hs : s < (Automaton.base v).size) (hroot : s ≠ root) :
    ∃ state r : AutomatonState, (Automaton.base v).state? s = some state ∧ a.state? s = some r ∧
      r.otherwise = none ∧ r.accepting ≠ some .identifier ∧
      ∀ c t, r.edge? c = some t → l.Elsewhere t := by
  obtain ⟨state, hstate⟩ := Option.isSome_iff_exists.1 (state?_isSome_iff.2 hs)
  obtain ⟨hotherwise, haccepting⟩ := mute_base v s state hstate
  by_cases hslash : s = slash v
  · have hr := l.state?_slash
    rw [← hslash, hstate, Option.map_some] at hr
    refine ⟨state, _, hstate, hr, hotherwise, haccepting, fun c t hedge => ?_⟩
    rw [AutomatonState.edge?, lookup_edgesTo_append, lookup_edgesTo_append] at hedge
    split at hedge
    · obtain rfl := Option.some.inj hedge
      exact .comment _
    · split at hedge
      · obtain rfl := Option.some.inj hedge
        exact .comment _
      · exact l.elsewhere_of_edge hstate hedge
  · exact ⟨state, state, hstate, by rw [l.state?_base s hs hroot hslash, hstate], hotherwise,
      haccepting, fun c t hedge => l.elsewhere_of_edge hstate hedge⟩

variable {l}

theorem Elsewhere.transition {s t : StateId} (hs : l.Elsewhere s) {c : Char}
    (ht : a.transition s c = some t) : l.Elsewhere t := by
  cases hs with
  | base hs hroot =>
    obtain ⟨-, r, -, hr, hotherwise, -, hedges⟩ := l.exists_base hs hroot
    rw [Automaton.transition, hr, Option.bind_some, hotherwise, Option.orElse_eq_orElse,
      Option.orElse_eq_or, Option.or_none] at ht
    exact hedges c t ht
  | comment s =>
    rw [l.comment_within.transition] at ht
    obtain ⟨s', -, rfl⟩ := Option.map_eq_some_iff.1 ht
    exact .comment s'
  | numeric s =>
    rw [l.numeric_within.transition] at ht
    obtain ⟨s', -, rfl⟩ := Option.map_eq_some_iff.1 ht
    exact .numeric s'
  | character s =>
    rw [l.character_within.transition] at ht
    obtain ⟨s', -, rfl⟩ := Option.map_eq_some_iff.1 ht
    exact .character s'
  | string s =>
    rw [l.string_within.transition] at ht
    obtain ⟨s', -, rfl⟩ := Option.map_eq_some_iff.1 ht
    exact .string s'

theorem Elsewhere.accepting? {s : StateId} (hs : l.Elsewhere s) :
    a.accepting? s ≠ some .identifier := by
  cases hs with
  | base hs hroot =>
    obtain ⟨-, r, -, hr, -, haccepting, -⟩ := l.exists_base hs hroot
    rw [Automaton.accepting?, hr]
    exact haccepting
  | comment s => rw [l.comment_within.accepting?]; cases s <;> simp [Comment.part]
  | numeric s => rw [l.numeric_within.accepting?]; cases s <;> simp [Numeric.part]
  | character s => rw [l.character_within.accepting?]; cases s <;> simp [Quoted.part]
  | string s => rw [l.string_within.accepting?]; cases s <;> simp [Quoted.part]

theorem Elsewhere.kindFrom? {s : StateId} (hs : l.Elsewhere s) (cs : List Char) :
    a.kindFrom? s cs ≠ some .identifier := by
  induction cs generalizing s with
  | nil => exact hs.accepting?
  | cons c cs ih =>
    cases hnext : a.transition s c with
    | none => simp [Automaton.kindFrom?, hnext]
    | some t =>
      rw [kindFrom?_cons hnext]
      exact ih (hs.transition hnext)

variable (l)

/-- An edge of the root leads elsewhere. -/
theorem elsewhere_of_edge?_root {r : AutomatonState} (hr : a.state? root = some r) {c : Char}
    {t : StateId} (ht : r.edge? c = some t) : l.Elsewhere t := by
  obtain ⟨r', state, hstate, -, hr', -, hedge⟩ := l.exists_root
  obtain rfl : r' = r := Option.some.inj (hr'.symm.trans hr)
  rw [hedge] at ht
  split at ht
  · obtain rfl := Option.some.inj ht
    exact .string _
  · split at ht
    · obtain rfl := Option.some.inj ht
      exact .character _
    · split at ht
      · obtain rfl := Option.some.inj ht
        exact .numeric _
      · exact l.elsewhere_of_edge hstate ht

/-- The first character leads elsewhere, or it begins a word. -/
theorem transition_root {c : Char} {t : StateId} (ht : a.transition root c = some t) :
    l.Elsewhere t ∨ t = l.word .word := by
  obtain ⟨r, -, -, -, hr, hotherwise, -⟩ := l.exists_root
  rw [transition, hr, Option.bind_some, hotherwise] at ht
  cases hedge : r.edge? c with
  | some u =>
    rw [hedge] at ht
    obtain rfl := Option.some.inj ht
    exact .inl (l.elsewhere_of_edge?_root hr hedge)
  | none =>
    rw [hedge] at ht
    exact .inr (Option.some.inj ht).symm

end Layers

/-- An identifier goes on with letters, digits and underscores. -/
theorem exists_of_kindOf?_eq_identifier {v : Vocabulary} {cs : List Char}
    (h : (ofVocabulary v).kindOf? cs = some .identifier) :
    ∃ c rest, cs = c :: rest ∧ rest ∈ (chars isWordChar)∗ := by
  obtain ⟨l⟩ := exists_layers v
  cases cs with
  | nil =>
    obtain ⟨r, state, hstate, -, hr, -⟩ := l.exists_root
    have haccepting := (mute_base v root state hstate).2
    rw [l.state?_root, hstate, Option.map_some] at hr
    rw [kindOf?, kindFrom?_nil, accepting?, l.state?_root, hstate] at h
    exact absurd h haccepting
  | cons c rest =>
    refine ⟨c, rest, rfl, ?_⟩
    cases hnext : (ofVocabulary v).transition root c with
    | none => simp [kindOf?, kindFrom?, hnext] at h
    | some t =>
      rw [kindOf?, kindFrom?_cons hnext] at h
      rcases l.transition_root hnext with helse | rfl
      · exact absurd h (helse.kindFrom? rest)
      · exact (Word.solves.kindFrom? l.word_within .word rest).1 h

end Sable.Automaton
