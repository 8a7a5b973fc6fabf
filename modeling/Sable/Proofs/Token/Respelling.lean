import Sable.Proofs.Automaton.Respelling
import Sable.Proofs.Token.Tokenization

/-!
# What a vocabulary can spell

A vocabulary may spell a keyword or a sign in any way, but the automaton does not read each spelling
as what it stands for. A keyword must be a word. A sign must begin no literal and no comment, and no
later sign may be spelled the same, where blanks in front count as one.

## Main definitions

* `Vocabulary.IsSign`: the automaton reads the spelling of a sign as this sign.

## Main statements

* `Lexer.tokenize_spelling_iff`: the keywords and signs that can be written.
* `Lexer.tokenize_hyphen`: a keyword that cannot.
-/
namespace Sable

open Automaton Text

namespace Vocabulary

/-- The spelling of the sign begins no literal and no comment, and no later sign has the same one,
but for the blanks in front. -/
def IsSign (v : Vocabulary) (p : Punctuator) : Prop :=
  IsBare (v.punctuatorSpelling p).toList ∧ ∀ q, squeeze (v.punctuatorSpelling q).toList =
    squeeze (v.punctuatorSpelling p).toList → q.index ≤ p.index

theorem ofLists_eq_ok (v : Vocabulary) : ofLists v.keywords v.punctuators = .ok v := by
  unfold ofLists
  split
  · next fault hfault => simp [tableFault?_eq_none_iff.2 v.keywords_table] at hfault
  · split
    · next fault hfault => simp [tableFault?_eq_none_iff.2 v.punctuators_table] at hfault
    · rfl

theorem keywordSpelling_ne_empty (v : Vocabulary) (k : Keyword) : v.keywordSpelling k ≠ "" := by
  intro h
  refine v.keywords_table.2.1 ?_
  rw [← h]
  exact List.get_mem ..

/-- Two keywords are spelled differently. -/
theorem keywordSpelling_injective (v : Vocabulary) {k k' : Keyword}
    (h : v.keywordSpelling k = v.keywordSpelling k') : k = k' := by
  have hindex : k.index = k'.index := v.keywords_table.2.2.getElem_inj_iff.1 h
  exact Option.some.inj (k.ofIndex?_index.symm.trans (hindex ▸ k'.ofIndex?_index))

theorem keyword?_keywordSpelling (v : Vocabulary) (k : Keyword) :
    v.keyword? (v.keywordSpelling k) = some k := by
  have hsome : (v.keyword? (v.keywordSpelling k)).isSome := by
    rw [keyword?, List.find?_isSome]
    exact ⟨k, k.mem_all, by simp⟩
  obtain ⟨k', hk'⟩ := Option.isSome_iff_exists.1 hsome
  have heq := List.find?_some hk'
  rw [hk', v.keywordSpelling_injective (beq_iff_eq.1 heq)]

end Vocabulary

namespace Lexer

variable {lexer : Lexer} {v : Vocabulary}

/-- A text is a single token just if it is read as a whole. -/
theorem tokenize_eq_single_iff {source : String} (hne : source ≠ "") {kind : TokenKind}
    (htext : kind.hasText = false) :
    lexer.tokenize source = [⟨kind, ⟨0, source.utf8ByteSize, lexer.file⟩, none⟩,
        .eof source.utf8ByteSize lexer.file] ↔
      lexer.readToken source.toList = some ⟨kind, byteLength source.toList⟩ := by
  have htoken : lexer.tokenAt 0 ⟨kind, byteLength source.toList⟩ source.toList =
      ⟨kind, ⟨0, source.utf8ByteSize, lexer.file⟩, none⟩ := by
    simp [tokenAt, htext, byteLength_toList]
  have hone : [⟨kind, ⟨0, source.utf8ByteSize, lexer.file⟩, none⟩,
      Token.eof source.utf8ByteSize lexer.file] =
      [lexer.tokenAt 0 ⟨kind, byteLength source.toList⟩ source.toList] ++
        [.eof source.utf8ByteSize lexer.file] := by
    rw [htoken]
    rfl
  rw [hone, tokenize_eq_iff]
  constructor
  · intro hcuts
    generalize hcs : source.toList = cs at hcuts
    generalize htokens : [lexer.tokenAt 0 ⟨kind, byteLength cs⟩ cs] = tokens at hcuts
    cases hcuts with
    | nil => simp at htokens
    | @cons _ kind' text rest tokens hne' hread hcuts =>
      obtain ⟨htoken, rfl⟩ := List.cons.inj htokens
      cases hcuts with
      | nil =>
        obtain rfl : kind = kind' := congrArg Token.kind htoken
        simpa using hread
  · intro hread
    have hcuts : lexer.Cuts 0 (source.toList ++ [])
        [lexer.tokenAt 0 ⟨kind, byteLength source.toList⟩ source.toList] :=
      .cons (fun h => hne (String.toList_inj.1 h)) (by rwa [List.append_nil]) (.nil _)
    rwa [List.append_nil] at hcuts

theorem automaton_readToken_eq_iff {a : Automaton} {cs : List Char} (hne : cs ≠ [])
    {kind : TokenKind} (hkind : kind ≠ .unrecognized) :
    a.readToken cs = some ⟨kind, byteLength cs⟩ ↔ a.kindOf? cs = some kind := by
  constructor
  · intro h
    obtain ⟨s, hs, haccepting⟩ := exists_walkFrom_of_readToken h hkind
    rw [kindOf?, kindFrom?, hs]
    exact haccepting
  · intro h
    obtain ⟨s, hs, haccepting⟩ := Option.bind_eq_some_iff.1 h
    have hread := readToken_of_stuck (q := []) hne hs haccepting (by simp)
    rwa [List.append_nil] at hread

theorem readToken_eq_some_iff {cs : List Char} {kind : TokenKind} :
    lexer.readToken cs = some ⟨kind, byteLength cs⟩ ↔ ∃ found,
      lexer.automaton.readToken cs = some ⟨found, byteLength cs⟩ ∧
        lexer.reclassify found (.ofList cs) = kind := by
  have h := @readToken_append_eq_iff lexer cs [] kind
  rwa [List.append_nil] at h

theorem reclassify_eq_punctuator_iff {found : TokenKind} {text : String} {p : Punctuator} :
    lexer.reclassify found text = .punctuator p ↔ found = .punctuator p := by
  cases found with
  | identifier => cases h : lexer.vocabulary.keyword? text <;> simp [reclassify, h]
  | _ => simp [reclassify]

theorem reclassify_eq_keyword {found : TokenKind} {text : String} {k : Keyword}
    (h : lexer.reclassify found text = .keyword k) : found = .identifier ∨ found = .keyword k := by
  cases found with
  | identifier => exact .inl rfl
  | _ => exact .inr h

/-- The automaton itself makes no keywords. -/
theorem kindOf?_ne_keyword (v : Vocabulary) (cs : List Char) (k : Keyword) :
    (Automaton.ofVocabulary v).kindOf? cs ≠ some (.keyword k) := by
  intro h
  obtain ⟨s, -, hs⟩ := Option.bind_eq_some_iff.1 h
  exact (acceptsOnly_ofVocabulary v s _ hs).2.2 k rfl

theorem readToken_keyword_iff {k : Keyword} :
    lexer.readToken (lexer.vocabulary.keywordSpelling k).toList =
        some ⟨.keyword k, byteLength (lexer.vocabulary.keywordSpelling k).toList⟩ ↔
      lexer.vocabulary.IsWord (lexer.vocabulary.keywordSpelling k).toList := by
  have hne : (lexer.vocabulary.keywordSpelling k).toList ≠ [] := fun h =>
    lexer.vocabulary.keywordSpelling_ne_empty k (String.toList_inj.1 h)
  rw [readToken_eq_some_iff, lexer.automaton_eq, ← kindOf?_eq_identifier_iff]
  constructor
  · rintro ⟨found, hread, hkind⟩
    rcases reclassify_eq_keyword hkind with rfl | rfl
    · exact (automaton_readToken_eq_iff hne (by simp)).1 hread
    · exact absurd ((automaton_readToken_eq_iff hne (by simp)).1 hread) (kindOf?_ne_keyword _ _ _)
  · intro h
    refine ⟨.identifier, (automaton_readToken_eq_iff hne (by simp)).2 h, ?_⟩
    simp [reclassify, lexer.vocabulary.keyword?_keywordSpelling]

theorem readToken_punctuator_iff {p : Punctuator} :
    lexer.readToken (lexer.vocabulary.punctuatorSpelling p).toList =
        some ⟨.punctuator p, byteLength (lexer.vocabulary.punctuatorSpelling p).toList⟩ ↔
      lexer.vocabulary.IsSign p := by
  have hne : (lexer.vocabulary.punctuatorSpelling p).toList ≠ [] := fun h =>
    lexer.vocabulary.punctuatorSpelling_ne_empty p (String.toList_inj.1 h)
  rw [readToken_eq_some_iff, lexer.automaton_eq, Vocabulary.IsSign, ← kindOf?_spelling_iff,
    ← automaton_readToken_eq_iff hne (by simp)]
  simp only [reclassify_eq_punctuator_iff, exists_eq_right]

/-- A keyword can be written just if its spelling is a word, and a sign just if its spelling begins
no literal and no comment and belongs to no later sign. -/
theorem tokenize_spelling_iff (lexer : Lexer) :
    (∀ k, lexer.tokenize (lexer.vocabulary.keywordSpelling k) =
        [⟨.keyword k, ⟨0, (lexer.vocabulary.keywordSpelling k).utf8ByteSize, lexer.file⟩, none⟩,
          .eof (lexer.vocabulary.keywordSpelling k).utf8ByteSize lexer.file] ↔
      lexer.vocabulary.IsWord (lexer.vocabulary.keywordSpelling k).toList) ∧
    ∀ p, lexer.tokenize (lexer.vocabulary.punctuatorSpelling p) =
        [⟨.punctuator p, ⟨0, (lexer.vocabulary.punctuatorSpelling p).utf8ByteSize, lexer.file⟩, none⟩,
          .eof (lexer.vocabulary.punctuatorSpelling p).utf8ByteSize lexer.file] ↔
      lexer.vocabulary.IsSign p :=
  ⟨fun k => (tokenize_eq_single_iff (lexer.vocabulary.keywordSpelling_ne_empty k) rfl).trans
      readToken_keyword_iff,
    fun p => (tokenize_eq_single_iff (lexer.vocabulary.punctuatorSpelling_ne_empty p) rfl).trans
      readToken_punctuator_iff⟩

/-- The standard vocabulary, but for `goto`, which is spelled with a hyphen. -/
def hyphenated : Vocabulary where
  keywords := Keyword.all.map fun k => if k = .gotoWord then "go-to" else k.spelling
  punctuators := Punctuator.all.map Punctuator.spelling
  keywords_table := by unfold IsSpellingTable; decide
  punctuators_table := Vocabulary.standard.punctuators_table

/-- A vocabulary may spell `goto` with a hyphen, but the text is read as two identifiers and a sign. -/
theorem tokenize_hyphen :
    Vocabulary.ofLists hyphenated.keywords hyphenated.punctuators = .ok hyphenated ∧
      hyphenated.keywordSpelling .gotoWord = "go-to" ∧
      (ofVocabulary hyphenated).tokenize "go-to" = [⟨.identifier, ⟨0, 2, 0⟩, some "go"⟩,
        ⟨.punctuator .minus, ⟨2, 3, 0⟩, none⟩, ⟨.identifier, ⟨3, 5, 0⟩, some "to"⟩, .eof 5 0] ∧
      (ofVocabulary hyphenated).tokenize "go-to" ≠ [⟨.keyword .gotoWord, ⟨0, 5, 0⟩, none⟩, .eof 5 0] := by
  have htokens : (ofVocabulary hyphenated).tokenize "go-to" = [⟨.identifier, ⟨0, 2, 0⟩, some "go"⟩,
      ⟨.punctuator .minus, ⟨2, 3, 0⟩, none⟩, ⟨.identifier, ⟨3, 5, 0⟩, some "to"⟩, .eof 5 0] := by
    decide +kernel
  refine ⟨hyphenated.ofLists_eq_ok, by decide, htokens, ?_⟩
  rw [htokens]
  simp

end Lexer

end Sable
