import Sable.Proofs.Automaton.Layers
import Sable.Proofs.Printing.Lexing

/-!
# Single blanks keep the words of a text

The words of a text are its tokens that mean something. A word ends where the walk along it cannot go
on, or where it has to come back to. The state behind a word, and the state in which a walk ends that
comes to nothing, have no edge for a blank. So with single blanks between them the words are cut as
they were, recognized or not.

## Main definitions

* `Lexer.words`: the kinds and texts of the tokens that mean something.
* `Lexer.Splits`: a text is cut into lexemes, reading by reading.

## Main statements

* `Automaton.transition_blank_of_stuck`: where a walk ends, it also ends in front of a blank.
* `Lexer.Splits.exists_spaced`: the words of a text with blanks between them.
* `Lexer.words_respaced`: a text may be written as its words with single blanks between them.
-/
namespace Sable

open Text

namespace Automaton

/-- No state that can be stuck goes on over a blank, but that of whitespace. -/
def stuckBeforeBlanks (a : Automaton) : Bool :=
  a.states.toList.all fun state =>
    state.otherwise.isSome || (state.edge? ' ').isNone || state.accepting == some .whitespace

theorem standard_stuckBeforeBlanks : stuckBeforeBlanks standard = true := by
  decide +kernel

theorem transition_blank_of_stuck {s : StateId} {c : Char} (h : standard.transition s c = none)
    (hs : standard.accepting? s ≠ some .whitespace) : standard.transition s ' ' = none := by
  cases hstate : standard.state? s with
  | none => simp [transition, hstate]
  | some state =>
    have hmem : state ∈ standard.states.toList :=
      Array.mem_toList_iff.2 (Array.mem_of_getElem? hstate)
    have hall := List.all_eq_true.1 standard_stuckBeforeBlanks state hmem
    simp only [transition, accepting?, hstate, Option.bind_some] at h hs ⊢
    cases hotherwise : state.otherwise with
    | some t => cases hedge : state.edge? c <;> simp [hotherwise, hedge] at h
    | none => simpa [hotherwise, hs] using hall

/-- What goes on with whitespace is whitespace. -/
theorem kindFrom?_of_transition_run {c : Char} {next : StateId} (h : standard.transition run c = some next)
    {cs : List Char} {kind : TokenKind} (hkind : standard.kindFrom? root (c :: cs) = some kind) :
    kind = .whitespace := by
  obtain ⟨-, hroot⟩ := transition_run h
  rw [kindFrom?_cons hroot, kindFrom?, Option.bind_eq_some_iff] at hkind
  obtain ⟨s, hwalk, hkind⟩ := hkind
  obtain rfl := walkFrom_run hwalk
  exact Option.some.inj (hkind.symm.trans accepting?_run)

/-- Any character leads somewhere. -/
theorem transition_root_ne_none (c : Char) : standard.transition root c ≠ none := by
  obtain ⟨l⟩ : Nonempty (Layers .standard standard) := standard_eq ▸ exists_layers .standard
  obtain ⟨r, -, -, -, hr, hotherwise, -⟩ := l.exists_root
  rw [transition, hr, Option.bind_some, hotherwise]
  cases r.edge? c <;> simp

variable {text rest : List Char} {kind : TokenKind}

/-- How a word is cut off. -/
theorem exists_walkFrom_of_cut (hne : text ≠ [])
    (h : standard.readToken (text ++ rest) = some ⟨kind, byteLength text⟩) :
    ∃ s, standard.walkFrom root text = some s ∧ (standard.accepting? s = some kind ∨
      kind = .unrecognized ∧ (∀ p, p <+: text → p ≠ [] → standard.kindFrom? root p = none) ∧
        ∀ c ∈ rest.head?, standard.transition s c = none) := by
  have heq : ∀ {p q : List Char}, text ++ rest = p ++ q → byteLength text = byteLength p →
      p = text := by
    intro p q hpq hlength
    have hsplit := splitAt?_append text rest
    rw [hlength, hpq, splitAt?_append] at hsplit
    exact congrArg Prod.fst (Option.some.inj hsplit)
  rcases readToken_cases h with ⟨p, q, hpq, -, hkind, hlength, -⟩ |
    ⟨hnone, rfl, p, ⟨⟨q, hpq⟩, hwalk, hmax⟩, hlength⟩
  · obtain rfl := heq hpq hlength
    obtain ⟨s, hwalk, hs⟩ := Option.bind_eq_some_iff.1 hkind
    exact ⟨s, hwalk, .inl hs⟩
  · have hp : p ≠ [] := by
      rintro rfl
      obtain ⟨c, cs, rfl⟩ := List.exists_cons_of_ne_nil hne
      have hstuck := hmax [c] (cs ++ rest) rfl (by simp)
      simp [transition_root_ne_none c] at hstuck
    rw [if_neg hp] at hlength
    obtain rfl := heq hpq hlength
    obtain ⟨s, hs⟩ := Option.isSome_iff_exists.1 hwalk
    obtain rfl : q = rest := (List.append_cancel_left hpq).symm
    refine ⟨s, hs, .inr ⟨rfl, ?_, ?_⟩⟩
    · rintro p' ⟨q', rfl⟩ hp'
      exact hnone p' (q' ++ q) (by simp) hp'
    · intro c hc
      obtain ⟨q', rfl⟩ := List.head?_eq_some_iff.1 hc
      have hstuck := hmax (p ++ [c]) q' (by simp) (by simp)
      simpa [walkFrom_append, hs] using hstuck

/-- A word is cut off in the same way in front of a blank, and in front of nothing. Only if it is
unrecognized and ends a text, nothing but the end may follow. -/
theorem readToken_of_cut (hne : text ≠ []) (htrivia : kind.isTrivia = false)
    (h : standard.readToken (text ++ rest) = some ⟨kind, byteLength text⟩) {q : List Char}
    (hq : ∀ c ∈ q.head?, c = ' ' ∧ rest ≠ []) :
    standard.readToken (text ++ q) = some ⟨kind, byteLength text⟩ := by
  obtain ⟨s, hwalk, hs | ⟨rfl, hrejected, hstuck⟩⟩ := exists_walkFrom_of_cut hne h
  · refine readToken_of_stuck hne hwalk hs fun c hc => ?_
    rw [(hq c hc).1]
    exact transition_blank hs htrivia
  · refine readToken_of_rejected hne hwalk hrejected fun c hc => ?_
    obtain ⟨rfl, hrest⟩ := hq c hc
    obtain ⟨d, rest, rfl⟩ := List.exists_cons_of_ne_nil hrest
    refine transition_blank_of_stuck (hstuck d rfl) fun hblank => ?_
    have hnone := hrejected text List.prefix_rfl hne
    simp [kindFrom?, hwalk, hblank] at hnone

/-- A word does not go on with whitespace. -/
theorem transition_run_of_cut {c : Char} {cs : List Char} (htrivia : kind.isTrivia = false)
    (h : standard.readToken (c :: cs ++ rest) = some ⟨kind, byteLength (c :: cs)⟩) :
    standard.transition run c = none := by
  by_contra hne
  obtain ⟨next, hnext⟩ := Option.ne_none_iff_exists'.1 hne
  obtain ⟨s, hwalk, hs | ⟨rfl, hrejected, -⟩⟩ := exists_walkFrom_of_cut (List.cons_ne_nil c cs) h
  · have hkind : standard.kindFrom? root (c :: cs) = some kind := by rw [kindFrom?, hwalk]; exact hs
    obtain rfl := kindFrom?_of_transition_run hnext hkind
    simp [TokenKind.isTrivia] at htrivia
  · have hnone := hrejected [c] (by simp) (by simp)
    rw [kindFrom?_cons (transition_run hnext).2, kindFrom?_nil, accepting?_run] at hnone
    simp at hnone

end Automaton

namespace Lexer

/-! ## Splitting a text -/

/-- `cs` is cut into lexemes. -/
inductive Splits (lexer : Lexer) : List Char → List Lexeme → Prop
  | nil : Splits lexer [] []
  | cons {l : Lexeme} {rest : List Char} {ls : List Lexeme} (nonempty : l.text.toList ≠ [])
      (read : lexer.readToken (l.text.toList ++ rest) = some ⟨l.kind, byteLength l.text.toList⟩)
      (splits : Splits lexer rest ls) : Splits lexer (l.text.toList ++ rest) (l :: ls)

/-- The tokens that mean something, without the end of input. -/
def words (lexer : Lexer) (source : String) : List Lexeme :=
  ((Token.significant (lexer.tokenize source)).filter fun t => !t.isEof).map fun t =>
    ⟨t.kind, .ofList (t.lexeme source.toList)⟩

variable {lexer : Lexer} {cs : List Char} {ls : List Lexeme} {l : Lexeme}

theorem exists_splits (lexer : Lexer) (cs : List Char) : ∃ ls, lexer.Splits cs ls := by
  obtain ⟨tokens, hcuts⟩ := lexer.exists_cuts 0 cs
  generalize 0 = offset at hcuts
  induction hcuts with
  | nil => exact ⟨[], .nil⟩
  | @cons offset kind text rest tokens hne hread _ ih =>
    obtain ⟨ls, hls⟩ := ih
    have hcons := Splits.cons (l := ⟨kind, .ofList text⟩) (by simpa using hne)
      (by simpa using hread) hls
    exact ⟨_, by simpa using hcons⟩

/-- The tokens of a text have the kinds and texts of the lexemes that it is cut into. -/
theorem Splits.exists_cuts (h : lexer.Splits cs ls) (before : List Char) :
    ∃ tokens, lexer.Cuts (byteLength before) cs tokens ∧
      tokens.map (fun t => (⟨t.kind, .ofList (t.lexeme (before ++ cs))⟩ : Lexeme)) = ls := by
  induction h generalizing before with
  | nil => exact ⟨[], .nil _, rfl⟩
  | @cons l rest ls hne hread _ ih =>
    obtain ⟨tokens, hcuts, hmap⟩ := ih (before ++ l.text.toList)
    rw [byteLength_append] at hcuts
    refine ⟨_, .cons hne hread hcuts, ?_⟩
    rw [List.append_assoc] at hmap
    rw [List.map_cons, hmap, lexeme_tokenAt, String.ofList_toList]
    rfl

theorem Splits.words_eq {source : String} (h : lexer.Splits source.toList ls) :
    lexer.words source = ls.filter fun l => !l.kind.isTrivia := by
  obtain ⟨tokens, hcuts, rfl⟩ := h.exists_cuts []
  have heof : ∀ t ∈ tokens, t.isEof = false := fun t ht => by
    simpa [Token.isEof] using hcuts.covers.kind_ne_eof t ht
  have hfilter : (Token.significant (lexer.tokenize source)).filter (fun t => !t.isEof) =
      tokens.filter fun t => !t.isTrivia := by
    rw [tokenize_eq_iff.2 hcuts, Token.significant, List.filter_filter, List.filter_append]
    have hend : (List.filter (fun t => !t.isEof && !t.isTrivia)
        [Token.eof source.utf8ByteSize lexer.file]) = [] := rfl
    rw [hend, List.append_nil]
    exact List.filter_congr fun t ht => by simp [heof t ht]
  rw [words, hfilter, List.filter_map]
  rfl

/-! ## Words with blanks between them -/

open Lexeme (spaced)

/-- A lexeme that means something, as it is cut off in front of `rest`. -/
structure Cut (l : Lexeme) (rest : List Char) : Prop where
  nonempty : l.text.toList ≠ []
  read : standard.readToken (l.text.toList ++ rest) = some ⟨l.kind, byteLength l.text.toList⟩
  not_isTrivia : l.kind.isTrivia = false

theorem Cut.exists_found {rest : List Char} (h : Cut l rest) : ∃ found,
    Automaton.standard.readToken (l.text.toList ++ rest) =
        some ⟨found, byteLength l.text.toList⟩ ∧
      found.isTrivia = false ∧ standard.reclassify found l.text = l.kind := by
  obtain ⟨found, hread, hkind⟩ := readToken_append_eq_iff.1 h.read
  rw [automaton_standard] at hread
  rw [String.ofList_toList] at hkind
  refine ⟨found, hread, ?_, hkind⟩
  rw [← standard.isTrivia_reclassify found l.text, hkind, h.not_isTrivia]

theorem Cut.readToken_append {rest q : List Char} (h : Cut l rest)
    (hq : ∀ c ∈ q.head?, c = ' ' ∧ rest ≠ []) :
    standard.readToken (l.text.toList ++ q) = some ⟨l.kind, byteLength l.text.toList⟩ := by
  obtain ⟨found, hread, htrivia, hkind⟩ := h.exists_found
  refine readToken_append_eq_iff.2 ⟨found, ?_, by rwa [String.ofList_toList]⟩
  rw [automaton_standard]
  exact Automaton.readToken_of_cut h.nonempty htrivia hread hq

/-- A blank in front of it is read for itself. -/
theorem Cut.readToken_blank {rest q : List Char} (h : Cut l rest) :
    standard.readToken ([' '] ++ (l.text.toList ++ q)) = some ⟨.whitespace, byteLength [' ']⟩ := by
  obtain ⟨found, hread, htrivia, -⟩ := h.exists_found
  obtain ⟨c, cs, hcs⟩ := List.exists_cons_of_ne_nil h.nonempty
  rw [hcs] at hread ⊢
  refine readToken_append_eq_iff.2 ⟨.whitespace, ?_, rfl⟩
  rw [automaton_standard]
  refine Automaton.readToken_of_stuck (by simp) (s := Automaton.run) ?_ Automaton.accepting?_run ?_
  · rw [Automaton.walkFrom_cons, Automaton.transition_root_blank]
    rfl
  · intro d hd
    obtain rfl : c = d := Option.some.inj hd
    exact Automaton.transition_run_of_cut htrivia hread

theorem Splits.eq_nil (h : lexer.Splits [] ls) : ls = [] := by
  generalize hcs : ([] : List Char) = cs at h
  cases h with
  | nil => rfl
  | cons hne => exact absurd (List.append_eq_nil_iff.1 hcs.symm).1 hne

theorem Splits.exists_cut (h : standard.Splits cs ls) (hl : l ∈ ls)
    (htrivia : l.kind.isTrivia = false) : ∃ rest, Cut l rest := by
  induction h with
  | nil => simp at hl
  | @cons m rest ls hne hread _ ih =>
    rcases List.mem_cons.1 hl with rfl | hl
    · exact ⟨rest, hne, hread, htrivia⟩
    · exact ih hl

/-- One more word, and a blank behind it. -/
theorem Cut.splits_spaced {m : Lexeme} {ms : List Lexeme} {rest rest' : List Char} (hl : Cut l rest)
    (hrest : rest ≠ []) (hm : Cut m rest') (h : standard.Splits (spaced (m :: ms)).toList ls) :
    standard.Splits (spaced (l :: m :: ms)).toList (l :: ⟨.whitespace, " "⟩ :: ls) := by
  obtain ⟨q, hq⟩ := Lexeme.exists_toList_spaced_cons m ms
  have hblank := hm.readToken_blank (q := q)
  rw [← hq] at hblank
  have hspaced := Splits.cons (l := ⟨.whitespace, " "⟩) (by simp) hblank h
  have hread := hl.readToken_append (q := [' '] ++ (spaced (m :: ms)).toList) fun c hc =>
    ⟨by simpa using hc.symm, hrest⟩
  rw [Lexeme.toList_spaced_cons_cons]
  exact .cons hl.nonempty hread hspaced

/-- With single blanks between them, the lexemes that mean something are cut as before. -/
theorem Splits.exists_spaced (h : standard.Splits cs ls) : ∃ ls',
    standard.Splits (spaced (ls.filter fun l => !l.kind.isTrivia)).toList ls' ∧
      (ls'.filter fun l => !l.kind.isTrivia) = ls.filter fun l => !l.kind.isTrivia := by
  induction h with
  | nil => exact ⟨[], .nil, rfl⟩
  | @cons l rest ls hne hread hsplits ih =>
    obtain ⟨ls', hls', heq⟩ := ih
    cases htrivia : l.kind.isTrivia with
    | true => exact ⟨ls', by simpa [htrivia] using hls', by simpa [htrivia] using heq⟩
    | false =>
      have hcut : Cut l rest := ⟨hne, hread, htrivia⟩
      have hkept : ∀ ls : List Lexeme, (l :: ls).filter (fun l => !l.kind.isTrivia) =
          l :: ls.filter fun l => !l.kind.isTrivia := fun ls =>
        List.filter_cons_of_pos (by simp [htrivia])
      rw [hkept]
      cases hwords : ls.filter fun l => !l.kind.isTrivia with
      | nil =>
        have hlast := Splits.cons hne (hcut.readToken_append (q := []) (by simp)) .nil
        rw [Lexeme.toList_spaced_singleton]
        exact ⟨[l], by simpa using hlast, hkept []⟩
      | cons m ms =>
        obtain ⟨hm, hmtrivia⟩ : m ∈ ls ∧ m.kind.isTrivia = false := by
          rw [← Bool.not_eq_true', ← List.mem_filter (p := fun l : Lexeme => !l.kind.isTrivia), hwords]
          exact List.mem_cons_self
        have hrest : rest ≠ [] := by
          rintro rfl
          simp [hsplits.eq_nil] at hm
        obtain ⟨rest', hcut'⟩ := hsplits.exists_cut hm hmtrivia
        refine ⟨_, hcut.splits_spaced hrest hcut' (hwords ▸ hls'), ?_⟩
        rw [hkept, List.filter_cons_of_neg (by simp [TokenKind.isTrivia]), heq, hwords]

/-- A text that is written as its words with single blanks between them has the same words. -/
theorem words_respaced (source : String) :
    standard.words (" ".intercalate ((standard.words source).map Lexeme.text)) =
      standard.words source := by
  obtain ⟨ls, hls⟩ := standard.exists_splits source.toList
  obtain ⟨ls', hls', heq⟩ := hls.exists_spaced
  rw [hls.words_eq]
  exact hls'.words_eq.trans heq

end Lexer

end Sable
