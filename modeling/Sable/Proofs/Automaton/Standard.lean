import Mathlib.Tactic.Common
import Sable.Proofs.Automaton.Building
import Sable.Proofs.Automaton.Reading

/-!
# The standard automaton

What is special about the automaton of the standard vocabulary is found out by looking at its
states, which are few.

## Main statements

* `Automaton.transition_blank`: no token but a comment or whitespace goes on over a blank.
* `Automaton.walkFrom_run`: whitespace is followed by whitespace only.
* `Automaton.readToken_keyword`, `Automaton.readToken_punctuator`: words and signs are read as
  a whole.
-/
namespace Sable.Automaton

/-- The automaton of the standard vocabulary. -/
def standard : Automaton := ofVocabulary .standard

/-- The state of whitespace, which is built first. -/
def run : StateId := 1

/-- No state that accepts what means something goes on over a blank. -/
def blanksEndTokens (a : Automaton) : Bool :=
  a.states.toList.all fun state =>
    state.accepting.all fun kind => kind.isTrivia || (state.edge? ' ' <|> state.otherwise).isNone

/-- The run of whitespace goes on by edges to itself, which the root has as well. -/
def runsAreClosed (a : Automaton) : Bool :=
  match a.state? run, a.state? root with
  | some run', some root' =>
    run'.accepting == some .whitespace && run'.otherwise.isNone &&
      root'.edge? ' ' == some run && run'.edges.all fun e => e.2 == run && root'.edge? e.1 == some run
  | _, _ => false

def spellingsAreRead (a : Automaton) : Bool :=
  (Keyword.all.all fun k =>
    a.readToken k.spelling.toList == some ⟨.identifier, k.spelling.utf8ByteSize⟩) &&
  Punctuator.all.all fun p =>
    a.readToken p.spelling.toList == some ⟨.punctuator p, p.spelling.utf8ByteSize⟩

theorem standard_checked :
    (blanksEndTokens standard && runsAreClosed standard && spellingsAreRead standard) = true := by
  decide +kernel

theorem standard_eq : standard = ofVocabulary .standard := rfl

-- From here on, nothing but what was checked is known of the states.
attribute [irreducible] standard

theorem standard_blanksEndTokens : blanksEndTokens standard = true := by
  have h := standard_checked
  simp only [Bool.and_eq_true] at h
  exact h.1.1

theorem standard_runsAreClosed : runsAreClosed standard = true := by
  have h := standard_checked
  simp only [Bool.and_eq_true] at h
  exact h.1.2

theorem standard_spellingsAreRead : spellingsAreRead standard = true := by
  have h := standard_checked
  simp only [Bool.and_eq_true] at h
  exact h.2

/-! ## Blanks -/

theorem transition_blank {s : StateId} {kind : TokenKind}
    (h : standard.accepting? s = some kind) (hkind : kind.isTrivia = false) :
    standard.transition s ' ' = none := by
  obtain ⟨state, hstate, haccepting⟩ := Option.bind_eq_some_iff.1 h
  have hmem : state ∈ standard.states.toList :=
    Array.mem_toList_iff.2 (Array.mem_of_getElem? hstate)
  have hstuck := List.all_eq_true.1 standard_blanksEndTokens state hmem
  rw [transition, hstate, Option.bind_some]
  simpa [haccepting, hkind] using hstuck

/-- The states of whitespace and the root, as they were looked at. -/
theorem exists_run_root : ∃ run' root' : AutomatonState, standard.state? run = some run' ∧
    standard.state? root = some root' ∧ run'.accepting = some .whitespace ∧
    run'.otherwise = none ∧ root'.edge? ' ' = some run ∧
    ∀ e ∈ run'.edges, e.2 = run ∧ root'.edge? e.1 = some run := by
  have h := standard_runsAreClosed
  unfold runsAreClosed at h
  split at h
  · next run' root' hrun hroot =>
    simp only [Bool.and_eq_true, List.all_eq_true, beq_iff_eq, Option.isNone_iff_eq_none] at h
    obtain ⟨⟨⟨haccepting, hotherwise⟩, hblank⟩, hedges⟩ := h
    exact ⟨run', root', hrun, hroot, haccepting, hotherwise, hblank, hedges⟩
  · simp at h

theorem accepting?_run : standard.accepting? run = some .whitespace := by
  obtain ⟨run', root', hrun, -, haccepting, -⟩ := exists_run_root
  rw [accepting?, hrun, Option.bind_some, haccepting]

theorem transition_root_blank : standard.transition root ' ' = some run := by
  obtain ⟨run', root', -, hroot, -, -, hblank, -⟩ := exists_run_root
  rw [transition, hroot, Option.bind_some, hblank]
  rfl

/-- Whatever goes on with whitespace also begins it. -/
theorem transition_run {s : StateId} {c : Char} (h : standard.transition run c = some s) :
    s = run ∧ standard.transition root c = some run := by
  obtain ⟨run', root', hrun, hroot, -, hotherwise, -, hedges⟩ := exists_run_root
  rw [transition, hrun, Option.bind_some, hotherwise, Option.orElse_eq_orElse,
    Option.orElse_eq_or, Option.or_none] at h
  obtain ⟨l, r, he, -⟩ := List.lookup_eq_some_iff.1 h
  obtain ⟨rfl, hedge⟩ := hedges (c, s) (by simp [he])
  refine ⟨rfl, ?_⟩
  rw [transition, hroot, Option.bind_some, hedge]
  rfl

theorem walkFrom_run {s : StateId} {cs : List Char} (h : standard.walkFrom run cs = some s) :
    s = run := by
  induction cs with
  | nil => exact (Option.some.inj h).symm
  | cons c cs ih =>
    rw [walkFrom_cons] at h
    obtain ⟨next, hnext, hcs⟩ := Option.bind_eq_some_iff.1 h
    obtain ⟨rfl, -⟩ := transition_run hnext
    exact ih hcs

/-! ## Spellings -/

theorem readToken_keyword (k : Keyword) :
    standard.readToken k.spelling.toList = some ⟨.identifier, k.spelling.utf8ByteSize⟩ := by
  have h := standard_spellingsAreRead
  simp only [spellingsAreRead, Bool.and_eq_true, List.all_eq_true, beq_iff_eq] at h
  exact h.1 k (Keyword.mem_all k)

theorem readToken_punctuator (p : Punctuator) :
    standard.readToken p.spelling.toList = some ⟨.punctuator p, p.spelling.utf8ByteSize⟩ := by
  have h := standard_spellingsAreRead
  simp only [spellingsAreRead, Bool.and_eq_true, List.all_eq_true, beq_iff_eq] at h
  exact h.2 p (Punctuator.mem_all p)

end Sable.Automaton
