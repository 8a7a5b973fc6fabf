import Sable.Proofs.Automaton.Standard
import Sable.Proofs.Token.Lexemes

/-!
# Signs and blanks of the standard automaton

The states behind the beginnings of the standard signs, the root and the state of whitespace depend
on the vocabulary. What they are in the standard automaton is found out by looking at them.

## Main definitions

* `Automaton.isStem`: some sign begins so.
* `Automaton.Run.part`: the table of whitespace.

## Main statements

* `Automaton.stem_spec`: the state behind a stem goes on to longer stems only, or to a comment.
* `Automaton.run_within`: whitespace is a part of the standard automaton.
* `Automaton.edge?_root_eq_none`: no edge leaves the root for the first character of a word.
-/
namespace Sable.Automaton

open Lexeme
open Builder (blanks)

/-- Some sign begins so. -/
def isStem (w : List Char) : Bool :=
  !w.isEmpty && Punctuator.all.any fun p => w.isPrefixOf p.spelling.toList

/-- The sign that is spelled so. -/
def signOf? (w : List Char) : Option Punctuator :=
  Punctuator.all.find? fun p => p.spelling.toList == w

inductive Run
  | blanks

def Run.part : Part Run
  | .blanks => { edges := [(Builder.blanks, .blanks)], accepting := some .whitespace }

def stemsAreSpelled (a : Automaton) : Bool :=
  Punctuator.all.all fun p => p.spelling.toList.inits.all fun w => w.isEmpty ||
    ((a.walk w).bind a.state?).any fun state =>
      state.otherwise.isNone && state.accepting == (signOf? w).map .punctuator &&
        state.edges.all fun e => isStem (w ++ [e.1]) || w == ['/'] && (e.1 == '/' || e.1 == '*')

def blanksAreKnown (a : Automaton) : Bool :=
  (a.state? run).any fun state =>
    state.edges == edgesTo blanks run && state.otherwise.isNone &&
      state.accepting == some .whitespace

def rootIsKnown (a : Automaton) : Bool :=
  (a.state? root).any fun state =>
    state.accepting.isNone && blanks.all (fun c => state.edge? c == some run) &&
      state.edges.all fun e => isBlank e.1 || e.1.isDigit || isQuote e.1 || isSignStart e.1

theorem standard_signs_checked :
    (stemsAreSpelled standard && blanksAreKnown standard && rootIsKnown standard) = true := by
  decide +kernel

/-! ## Stems -/

theorem isStem_iff {w : List Char} : isStem w ↔ w ≠ [] ∧ ∃ p : Punctuator, w <+: p.spelling.toList := by
  simp only [isStem, Bool.and_eq_true, Bool.not_eq_true', List.isEmpty_eq_false_iff, List.any_eq_true,
    List.isPrefixOf_iff_prefix]
  exact and_congr_right fun _ => ⟨fun ⟨p, _, h⟩ => ⟨p, h⟩, fun ⟨p, h⟩ => ⟨p, p.mem_all, h⟩⟩

theorem isStem_of_append {w u : List Char} (hw : w ≠ []) (h : isStem (w ++ u)) : isStem w := by
  obtain ⟨-, p, hp⟩ := isStem_iff.1 h
  exact isStem_iff.2 ⟨hw, p, (List.prefix_append w u).trans hp⟩

theorem isStem_spelling (p : Punctuator) : isStem p.spelling.toList :=
  isStem_iff.2 ⟨by cases p <;> decide, p, List.prefix_rfl⟩

theorem isSignStart_iff {c : Char} : isSignStart c ↔ isStem [c] := by
  rw [isStem_iff]
  simp only [isSignStart, List.any_eq_true, beq_iff_eq, ne_eq, List.cons_ne_self, not_false_eq_true,
    true_and]
  constructor
  · rintro ⟨p, -, h⟩
    exact ⟨p, by rw [List.head?_eq_some_iff] at h; obtain ⟨u, hu⟩ := h; exact ⟨u, hu.symm⟩⟩
  · rintro ⟨p, u, h⟩
    exact ⟨p, p.mem_all, by rw [← h]; rfl⟩

theorem signOf?_spelling (p : Punctuator) : signOf? p.spelling.toList = some p := by
  cases p <;> decide

theorem signOf?_eq_some_iff {w : List Char} {p : Punctuator} :
    signOf? w = some p ↔ w = p.spelling.toList := by
  constructor
  · intro h
    have hp := List.find?_some h
    exact (beq_iff_eq.1 hp).symm
  · rintro rfl
    exact signOf?_spelling p

/-- The state behind a stem. -/
theorem stem_spec {w : List Char} (hw : isStem w) : ∃ s state,
    standard.walkFrom root w = some s ∧ standard.state? s = some state ∧ state.otherwise = none ∧
      state.accepting = (signOf? w).map .punctuator ∧
      ∀ e ∈ state.edges, isStem (w ++ [e.1]) ∨ w = ['/'] ∧ (e.1 = '/' ∨ e.1 = '*') := by
  obtain ⟨hne, p, hp⟩ := isStem_iff.1 hw
  have h := standard_signs_checked
  simp only [stemsAreSpelled, Bool.and_eq_true, List.all_eq_true] at h
  have hstem := h.1.1 p p.mem_all w ((List.mem_inits w _).2 hp)
  simp only [List.isEmpty_eq_false_iff.2 hne, Bool.false_or, Option.any_eq_true,
    Option.bind_eq_some_iff, Bool.and_eq_true, Bool.or_eq_true, Option.isNone_iff_eq_none,
    beq_iff_eq, List.all_eq_true] at hstem
  obtain ⟨state, ⟨s, hwalk, hstate⟩, ⟨hotherwise, haccepting⟩, hedges⟩ := hstem
  exact ⟨s, state, hwalk, hstate, hotherwise, haccepting, hedges⟩

/-! ## Blanks and the root -/

theorem run_within : Run.part.Within standard fun _ => run := by
  have h := standard_signs_checked
  simp only [blanksAreKnown, Bool.and_eq_true, Option.any_eq_true, beq_iff_eq,
    Option.isNone_iff_eq_none] at h
  obtain ⟨⟨-, ⟨edges, otherwise, accepting⟩, hstate, ⟨rfl, rfl⟩, rfl⟩, -⟩ := h
  rintro ⟨⟩
  rw [hstate]
  simp [Run.part, PartState.at]

/-- The root, as it was looked at. -/
theorem root_spec : ∃ state, standard.state? root = some state ∧ state.accepting = none ∧
    (∀ c, isBlank c → state.edge? c = some run) ∧
    ∀ e ∈ state.edges, isBlank e.1 ∨ e.1.isDigit ∨ isQuote e.1 ∨ isSignStart e.1 := by
  have h := standard_signs_checked
  simp only [rootIsKnown, Bool.and_eq_true, Option.any_eq_true, List.all_eq_true, beq_iff_eq,
    Bool.or_eq_true, or_assoc, mem_blanks, Option.isNone_iff_eq_none, and_assoc] at h
  exact h.2.2

theorem accepting?_root : standard.accepting? root = none := by
  obtain ⟨state, hstate, haccepting, -⟩ := root_spec
  rw [accepting?, hstate, Option.bind_some, haccepting]

theorem transition_root_of_isBlank {c : Char} (hc : isBlank c) :
    standard.transition root c = some run := by
  obtain ⟨state, hstate, -, hblank, -⟩ := root_spec
  rw [transition, hstate, Option.bind_some, hblank c hc]
  rfl

/-- No edge leaves the root for a character that begins a word. -/
theorem exists_root_edge?_eq_none {c : Char} (hc : isWordStart c) :
    ∃ state, standard.state? root = some state ∧ state.edge? c = none := by
  obtain ⟨state, hstate, -, -, hedges⟩ := root_spec
  refine ⟨state, hstate, List.lookup_eq_none_iff.2 ?_⟩
  rintro e he
  rw [bne_iff_ne]
  rintro rfl
  have h := hedges e he
  simp only [isWordStart, Bool.and_eq_true, Bool.not_eq_true'] at hc
  simp_all

end Sable.Automaton
