import Mathlib.Data.List.Forall2
import Sable.Proofs.Automaton.Standard
import Sable.Proofs.Printing.Basic
import Sable.Proofs.Token.Tokenization

/-!
# Printed text is read back word by word

A blank ends every word, since no token that means something goes on over a blank, and whitespace
does not go on over what begins a word.

## Main definitions

* `Token.IsFor`: a token that stands for a word.

## Main statements

* `Lexeme.exists_significant_eq`: the tokens of words with blanks between them.
-/
namespace Sable

open Text

/-- The token stands for the word. -/
structure Token.IsFor (source : List Char) (t : Token) (l : Lexeme) : Prop where
  kind_eq : t.kind = l.kind
  lexeme_eq : t.lexeme source = l.text.toList
  text_eq : t.text = if l.kind.hasText then some l.text else none

theorem Lexer.isTrivia_reclassify (lexer : Lexer) (kind : TokenKind) (text : String) :
    (lexer.reclassify kind text).isTrivia = kind.isTrivia := by
  cases kind with
  | identifier =>
    cases h : lexer.vocabulary.keyword? text <;> simp [reclassify, h, TokenKind.isTrivia]
  | _ => rfl

theorem Lexer.automaton_standard : standard.automaton = .standard := by
  have hvocabulary : standard.vocabulary = .standard := by
    rw [standard, ofVocabulary]
  rw [standard.automaton_eq, hvocabulary, Automaton.standard_eq]

namespace Lexeme

open Lexer (standard automaton_standard)

/-- A word that the grammar can read. -/
structure IsWord (l : Lexeme) : Prop where
  isLexable : l.IsLexable
  isMeaningful : l.kind.IsMeaningful
  not_isTrivia : l.kind.isTrivia = false

variable {l : Lexeme} {ls : List Lexeme} {q : List Char}

/-- A word leads to an accepting state, whose kind may become that of a keyword. -/
theorem IsWord.exists_walk (h : l.IsWord) : ∃ s kind, kind.isTrivia = false ∧
    Automaton.standard.walkFrom Automaton.root l.text.toList = some s ∧
    Automaton.standard.accepting? s = some kind ∧ standard.reclassify kind l.text = l.kind := by
  have hread := h.isLexable
  rw [IsLexable, Lexer.readToken, automaton_standard] at hread
  obtain ⟨m, hm, heq⟩ := Option.map_eq_some_iff.1 hread
  obtain ⟨kind, length⟩ := m
  simp only [Munch.mk.injEq] at heq
  obtain ⟨hkind, rfl⟩ := heq
  rw [slice_toList, String.ofList_toList] at hkind
  have htrivia : kind.isTrivia = false := by
    rw [← standard.isTrivia_reclassify kind l.text]
    exact hkind ▸ h.not_isTrivia
  rw [← byteLength_toList] at hm
  have hrecognized : kind ≠ .unrecognized := by
    rintro rfl
    exact h.isMeaningful.2 hkind.symm
  obtain ⟨s, hs, hs'⟩ := Automaton.exists_walkFrom_of_readToken hm hrecognized
  exact ⟨s, kind, htrivia, hs, hs', hkind⟩

theorem IsWord.toList_ne_nil (h : l.IsWord) : l.text.toList ≠ [] := by
  intro hnil
  have hread := h.isLexable
  simp [IsLexable, hnil, Lexer.readToken, Automaton.readToken] at hread

/-- A word in front of a blank, or of nothing, is read as a whole. -/
theorem IsWord.readToken_append (h : l.IsWord) (hq : ∀ c ∈ q.head?, c = ' ') :
    standard.readToken (l.text.toList ++ q) = some ⟨l.kind, byteLength l.text.toList⟩ := by
  obtain ⟨s, kind, htrivia, hwalk, haccepting, hkind⟩ := h.exists_walk
  have hread := Automaton.readToken_of_stuck h.toList_ne_nil hwalk haccepting (q := q) (by
    intro c hc
    rw [hq c hc]
    exact Automaton.transition_blank haccepting htrivia)
  have hslice : slice 0 (byteLength l.text.toList) (l.text.toList ++ q) = l.text.toList := by
    simpa using slice_append [] l.text.toList q
  rw [Lexer.readToken, automaton_standard, hread, Option.map_some, hslice, String.ofList_toList,
    hkind]

/-- A blank in front of a word is read for itself. -/
theorem IsWord.readToken_blank (h : l.IsWord) :
    standard.readToken ([' '] ++ (l.text.toList ++ q)) = some ⟨.whitespace, byteLength [' ']⟩ := by
  have hstuck : ∀ c ∈ (l.text.toList ++ q).head?,
      Automaton.standard.transition Automaton.run c = none := by
    intro c hc
    obtain ⟨s, kind, htrivia, hwalk, haccepting, -⟩ := h.exists_walk
    by_contra hne
    obtain ⟨next, hnext⟩ := Option.ne_none_iff_exists'.1 hne
    obtain ⟨-, hroot⟩ := Automaton.transition_run hnext
    obtain ⟨cs, hcs⟩ : ∃ cs, l.text.toList = c :: cs := by
      cases htext : l.text.toList with
      | nil => exact absurd htext h.toList_ne_nil
      | cons d ds =>
        obtain rfl : d = c := by simpa [htext] using hc
        exact ⟨ds, rfl⟩
    rw [hcs, Automaton.walkFrom_cons, hroot, Option.bind_some] at hwalk
    obtain rfl := Automaton.walkFrom_run hwalk
    obtain rfl : TokenKind.whitespace = kind :=
      Option.some.inj (Automaton.accepting?_run.symm.trans haccepting)
    simp [TokenKind.isTrivia] at htrivia
  have hwalk : Automaton.standard.walkFrom Automaton.root [' '] = some Automaton.run := by
    rw [Automaton.walkFrom_cons, Automaton.transition_root_blank]
    rfl
  have hread := Automaton.readToken_of_stuck (by simp) hwalk Automaton.accepting?_run hstuck
  rw [Lexer.readToken, automaton_standard, hread]
  rfl

/-! ## Words with blanks between them -/

theorem toList_spaced_cons_cons (l m : Lexeme) (ls : List Lexeme) :
    (spaced (l :: m :: ls)).toList = l.text.toList ++ ([' '] ++ (spaced (m :: ls)).toList) := by
  simp [spaced, String.toList_intercalate]

theorem toList_spaced_singleton (l : Lexeme) : (spaced [l]).toList = l.text.toList := by
  simp [spaced]

theorem exists_toList_spaced_cons (l : Lexeme) (ls : List Lexeme) :
    ∃ q, (spaced (l :: ls)).toList = l.text.toList ++ q := by
  cases ls with
  | nil => exact ⟨[], by rw [toList_spaced_singleton, List.append_nil]⟩
  | cons m ls => exact ⟨_, toList_spaced_cons_cons l m ls⟩

theorem isFor_tokenAt (before rest : List Char) (l : Lexeme) :
    (standard.tokenAt (byteLength before) ⟨l.kind, byteLength l.text.toList⟩ l.text.toList).IsFor
      (before ++ (l.text.toList ++ rest)) l := by
  refine ⟨rfl, Lexer.lexeme_tokenAt before l.text.toList rest l.kind, ?_⟩
  simp [Lexer.tokenAt]

/-- Words with blanks between them are cut into the words, and blanks that mean nothing. -/
theorem exists_cuts_spaced (before : List Char) (h : ∀ l ∈ ls, l.IsWord) :
    ∃ tokens, standard.Cuts (byteLength before) (spaced ls).toList tokens ∧
      List.Forall₂ (Token.IsFor (before ++ (spaced ls).toList)) (Token.significant tokens) ls := by
  induction ls generalizing before with
  | nil => exact ⟨[], by simpa [spaced] using Lexer.Cuts.nil _, .nil⟩
  | cons l ls ih =>
    have hl := h l (by simp)
    have hkept : (standard.tokenAt (byteLength before) ⟨l.kind, byteLength l.text.toList⟩
        l.text.toList).isTrivia = false := hl.not_isTrivia
    cases ls with
    | nil =>
      have hread := hl.readToken_append (q := []) (by simp)
      have hcuts := Lexer.Cuts.cons hl.toList_ne_nil hread (.nil (byteLength before + _))
      rw [toList_spaced_singleton]
      refine ⟨_, by simpa using hcuts, ?_⟩
      rw [Token.significant, List.filter_cons_of_pos (by simp [hkept])]
      exact .cons (by simpa using isFor_tokenAt before [] l) .nil
    | cons m ls =>
      obtain ⟨q, hq⟩ := exists_toList_spaced_cons m ls
      have hblank := (h m (by simp)).readToken_blank (q := q)
      have hread := hl.readToken_append (q := [' '] ++ (spaced (m :: ls)).toList) (by simp)
      obtain ⟨tokens, hcuts, htokens⟩ :=
        ih (before ++ l.text.toList ++ [' ']) fun l hl => h l (List.mem_cons_of_mem _ hl)
      rw [← hq] at hblank
      rw [byteLength_append, byteLength_append] at hcuts
      rw [toList_spaced_cons_cons]
      refine ⟨_, .cons hl.toList_ne_nil hread (.cons (by simp) hblank hcuts), ?_⟩
      rw [Token.significant, List.filter_cons_of_pos (by simp [hkept]),
        List.filter_cons_of_neg (by simp [Lexer.tokenAt, Token.isTrivia, TokenKind.isTrivia])]
      refine .cons (isFor_tokenAt before _ l) ?_
      simpa [Token.significant] using htokens

/-- The tokens that mean something are those of the words, and the end of input. -/
theorem exists_significant_eq (h : ∀ l ∈ ls, l.IsWord) :
    ∃ ts eof, Token.significant (standard.tokenize (spaced ls)) = ts ++ [eof] ∧ eof.kind = .eof ∧
      List.Forall₂ (Token.IsFor (spaced ls).toList) ts ls := by
  obtain ⟨tokens, hcuts, htokens⟩ := exists_cuts_spaced [] h
  rw [byteLength_nil] at hcuts
  refine ⟨_, .eof (spaced ls).utf8ByteSize standard.file, ?_, rfl, htokens⟩
  rw [Lexer.tokenize_eq_iff.2 hcuts, Token.significant, List.filter_append]
  rfl

end Lexeme

end Sable
