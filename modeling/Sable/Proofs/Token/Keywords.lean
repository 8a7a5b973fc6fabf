import Mathlib.Data.List.Basic
import Sable.Proofs.Token.Respelling

/-!
# Tables of spellings and keywords

Two lists of spellings make a vocabulary just if neither has a fault. Of all faults one is reported:
the keywords are looked at before the signs, the length of a table before its entries, and the
entries one after another. In a table without faults every word stands at one place at most, so a
word is one keyword or none.

## Main definitions

* `IsFirstFault`: the first entry that is empty or repeats another one.
* `IsTableFault`: what is reported of a table.
* `Vocabulary.Renames`: the kind of a token, for the kind that the automaton has found.

## Main statements

* `tableFault?_eq_some_iff`: the fault that is found in a table.
* `Vocabulary.keyword?_eq_some_iff`: the keyword that a word spells.
* `Lexer.tables_and_keywords`: which tables are accepted, and what their keywords are.
-/
namespace Sable

open Text

/-! ## Faults -/

/-- The entry is empty or repeats an earlier one, and no entry in front of it does so. -/
structure IsFirstFault (entries : List String) (index : Nat) (s : String) : Prop where
  get : entries[index]? = some s
  isFault : s = "" ∨ s ∈ entries.take index
  first : ∀ j < index, ∀ r, entries[j]? = some r → r ≠ "" ∧ r ∉ entries.take j

/-- What is reported of a list that is no table. -/
inductive IsTableFault (table : VocabularyTable) (size : Nat) (entries : List String) :
    VocabularyError → Prop
  | length (h : entries.length ≠ size) :
    IsTableFault table size entries (.length table size entries.length)
  | entry {index : Nat} {s : String} (hlength : entries.length = size)
    (h : IsFirstFault entries index s) : IsTableFault table size entries
      (if s = "" then .emptySpelling table index else .duplicate table s)

variable {table : VocabularyTable} {size index : Nat} {entries before : List String} {s : String}
  {e : VocabularyError}

theorem IsFirstFault.unique {index' : Nat} {s' : String} (h : IsFirstFault entries index s)
    (h' : IsFirstFault entries index' s') : index = index' ∧ s = s' := by
  have hindex : index = index' := by
    rcases Nat.lt_trichotomy index index' with hlt | heq | hlt
    · obtain ⟨hne, hnotMem⟩ := h'.first index hlt s h.get
      exact absurd h.isFault (by simp [hne, hnotMem])
    · exact heq
    · obtain ⟨hne, hnotMem⟩ := h.first index' hlt s' h'.get
      exact absurd h'.isFault (by simp [hne, hnotMem])
  subst hindex
  exact ⟨rfl, Option.some.inj (h.get.symm.trans h'.get)⟩

/-- Behind entries without a fault, the next one may be the first fault. -/
theorem isFirstFault_append
    (hbefore : ∀ j < before.length, ∀ r, before[j]? = some r → r ≠ "" ∧ r ∉ before.take j)
    (rest : List String) (hs : s = "" ∨ s ∈ before) :
    IsFirstFault (before ++ s :: rest) before.length s where
  get := by simp
  isFault := by simpa using hs
  first j hj r hr := by
    rw [List.getElem?_append_left hj] at hr
    rw [List.take_append_of_le_length hj.le]
    exact hbefore j hj r hr

/-- The search goes on behind the entries `before`, which have no fault. -/
theorem entryFault?_eq_some_iff (table : VocabularyTable) (entries : List String)
    (hbefore : ∀ j < before.length, ∀ r, before[j]? = some r → r ≠ "" ∧ r ∉ before.take j) :
    entryFault? table before.reverse before.length entries = some e ↔
      ∃ index s, IsFirstFault (before ++ entries) index s ∧
        e = if s = "" then .emptySpelling table index else .duplicate table s := by
  induction entries generalizing before with
  | nil =>
    simp only [entryFault?, reduceCtorEq, List.append_nil, false_iff, not_exists, not_and]
    intro index s h
    have hindex : index < before.length := (List.getElem?_eq_some_iff.1 h.get).1
    obtain ⟨hne, hnotMem⟩ := hbefore index hindex s h.get
    exact absurd h.isFault (by simp [hne, hnotMem])
  | cons s rest ih =>
    by_cases hs : s = "" ∨ s ∈ before
    · -- the entry at hand is the first fault, and there is no other first one
      have hfirst := isFirstFault_append hbefore rest hs
      have hfound : entryFault? table before.reverse before.length (s :: rest) =
          some (if s = "" then .emptySpelling table before.length else .duplicate table s) := by
        by_cases hempty : s = ""
        · simp [entryFault?, hempty]
        · simp [entryFault?, hempty, hs.resolve_left hempty]
      rw [hfound, Option.some.injEq]
      constructor
      · rintro rfl
        exact ⟨_, s, hfirst, rfl⟩
      · rintro ⟨index, r, hr, rfl⟩
        obtain ⟨rfl, rfl⟩ := hfirst.unique hr
        rfl
    · rw [not_or] at hs
      have hnext : ∀ j < (before ++ [s]).length, ∀ r, (before ++ [s])[j]? = some r →
          r ≠ "" ∧ r ∉ (before ++ [s]).take j := by
        intro j hj r hr
        rw [List.length_append, List.length_singleton, Nat.lt_succ_iff] at hj
        rw [List.take_append_of_le_length hj]
        rcases hj.lt_or_eq with hlt | rfl
        · rw [List.getElem?_append_left hlt] at hr
          exact hbefore j hlt r hr
        · obtain rfl : s = r := by simpa using hr
          simpa using hs
      have hstep : entryFault? table before.reverse before.length (s :: rest) =
          entryFault? table (before ++ [s]).reverse (before ++ [s]).length rest := by
        simp [entryFault?, hs.1, hs.2]
      rw [hstep, ih hnext, List.append_assoc, List.singleton_append]

/-- What is reported of a table is its length, if that is wrong, or else the first entry that is
empty or repeats another one. -/
theorem tableFault?_eq_some_iff :
    tableFault? table size entries = some e ↔ IsTableFault table size entries e := by
  unfold tableFault?
  have hnone : ∀ j < ([] : List String).length, ∀ r, ([] : List String)[j]? = some r →
      r ≠ "" ∧ r ∉ ([] : List String).take j := by simp
  have hentries := entryFault?_eq_some_iff (e := e) table entries hnone
  simp only [List.reverse_nil, List.length_nil, List.nil_append] at hentries
  split
  · next hlength =>
    rw [hentries]
    constructor
    · rintro ⟨index, s, h, rfl⟩
      exact .entry hlength h
    · rintro (h | ⟨-, h⟩)
      · exact absurd hlength h
      · exact ⟨_, _, h, rfl⟩
  · next hlength =>
    rw [Option.some.injEq]
    constructor
    · rintro rfl
      exact .length hlength
    · rintro (_ | ⟨h, -⟩)
      · rfl
      · exact absurd h hlength

theorem Keyword.index_of_ofIndex? {i : Nat} {k : Keyword} (h : ofIndex? i = some k) :
    k.index = i := by
  have hi : i < all.length := (List.getElem?_eq_some_iff.1 h).1
  exact ((List.getElem?_inj hi (by decide)).1 (h.trans k.ofIndex?_index.symm)).symm

namespace Vocabulary

variable {ks ps : List String} {v : Vocabulary}

/-! ## Accepted tables -/

theorem ofLists_eq_ok_iff : ofLists ks ps = .ok v ↔ v.keywords = ks ∧ v.punctuators = ps := by
  constructor
  · intro h
    unfold ofLists at h
    split at h
    · simp at h
    · split at h
      · simp at h
      · obtain rfl := Except.ok.inj h
        exact ⟨rfl, rfl⟩
  · rintro ⟨rfl, rfl⟩
    exact v.ofLists_eq_ok

theorem exists_ofLists_eq_ok_iff : (∃ v, ofLists ks ps = .ok v) ↔
    IsSpellingTable Keyword.all.length ks ∧ IsSpellingTable Punctuator.all.length ps := by
  simp only [ofLists_eq_ok_iff]
  constructor
  · rintro ⟨v, rfl, rfl⟩
    exact ⟨v.keywords_table, v.punctuators_table⟩
  · rintro ⟨hks, hps⟩
    exact ⟨⟨ks, ps, hks, hps⟩, rfl, rfl⟩

theorem ofLists_eq_error_iff : ofLists ks ps = .error e ↔
    IsTableFault .keywords Keyword.all.length ks e ∨
      IsSpellingTable Keyword.all.length ks ∧
        IsTableFault .punctuators Punctuator.all.length ps e := by
  rw [← tableFault?_eq_some_iff, ← tableFault?_eq_some_iff,
    ← @tableFault?_eq_none_iff .keywords]
  unfold ofLists
  split
  · next hks => simp [hks]
  · next hks =>
    split
    · next hps => simp [hks, hps]
    · next hps => simp [hks, hps]

/-! ## Keywords -/

theorem keyword?_eq_some_iff {word : String} {k : Keyword} :
    v.keyword? word = some k ↔ v.keywordSpelling k = word := by
  constructor
  · intro h
    exact beq_iff_eq.1 (List.find?_some (p := (v.keywordSpelling · == word)) h)
  · rintro rfl
    exact v.keyword?_keywordSpelling k

theorem keyword?_eq_none_iff {word : String} :
    v.keyword? word = none ↔ ∀ k, v.keywordSpelling k ≠ word := by
  simp only [Option.eq_none_iff_forall_ne_some, ne_eq, keyword?_eq_some_iff]

/-- The keyword that a word spells is the one at the first place of the word in the table. -/
theorem keyword?_eq_ofIndex? (v : Vocabulary) (word : String) :
    v.keyword? word = (v.keywords.idxOf? word).bind Keyword.ofIndex? := by
  cases hplace : v.keywords.idxOf? word with
  | none =>
    rw [Option.bind_none, keyword?_eq_none_iff]
    rintro k rfl
    exact List.idxOf?_eq_none_iff.1 hplace (List.get_mem ..)
  | some i =>
    obtain ⟨hi, rfl, -⟩ := List.idxOf?_eq_some_iff.1 hplace
    obtain ⟨k, hk⟩ : ∃ k, Keyword.ofIndex? i = some k :=
      ⟨_, List.getElem?_eq_getElem (v.keywords_table.1 ▸ hi)⟩
    rw [Option.bind_some, hk, keyword?_eq_some_iff, keywordSpelling, List.get_eq_getElem]
    simp only [Keyword.index_of_ofIndex? hk]

/-- What becomes of the kind that the automaton has found for a text: an identifier that is spelled
as a keyword, and so as one only, becomes this keyword. -/
structure Renames (v : Vocabulary) (text : List Char) (found kind : TokenKind) : Prop where
  keyword_iff : ∀ k, kind = .keyword k ↔
    found = .identifier ∧ v.keywordSpelling k = .ofList text
  unique : ∀ k, kind = .keyword k → ∃! k', v.keywordSpelling k' = .ofList text
  eq_found : (∀ k, kind ≠ .keyword k) → kind = found

end Vocabulary

namespace Lexer

variable {lexer : Lexer} {cs : List Char} {m : Munch}

theorem ne_keyword_of_readToken (h : lexer.automaton.readToken cs = some m) (k : Keyword) :
    m.kind ≠ .keyword k := by
  intro hkind
  rcases Automaton.readToken_cases h with ⟨p, -, -, -, hp, -, -⟩ | ⟨-, hunrecognized, -⟩
  · rw [hkind, lexer.automaton_eq] at hp
    exact kindOf?_ne_keyword lexer.vocabulary p k hp
  · rw [hkind] at hunrecognized
    exact absurd hunrecognized (by simp)

theorem renames_reclassify {found : TokenKind} (hfound : ∀ k, found ≠ .keyword k)
    (text : List Char) :
    lexer.vocabulary.Renames text found (lexer.reclassify found (.ofList text)) := by
  have hkeyword : ∀ k, lexer.reclassify found (.ofList text) = .keyword k ↔
      found = .identifier ∧ lexer.vocabulary.keywordSpelling k = .ofList text := by
    intro k
    cases found with
    | identifier =>
      rw [← Vocabulary.keyword?_eq_some_iff]
      cases hword : lexer.vocabulary.keyword? (.ofList text) <;> simp [reclassify, hword]
    | keyword k' => exact absurd rfl (hfound k')
    | _ => simp [reclassify]
  refine ⟨hkeyword, fun k hk => ?_, fun hne => ?_⟩
  · obtain ⟨-, hspelling⟩ := (hkeyword k).1 hk
    exact ⟨k, hspelling, fun k' hk' =>
      lexer.vocabulary.keywordSpelling_injective (hk'.trans hspelling.symm)⟩
  · cases found with
    | identifier =>
      cases hword : lexer.vocabulary.keyword? (.ofList text) with
      | none => simp [reclassify, hword]
      | some k => exact absurd (by simp [reclassify, hword]) (hne k)
    | _ => rfl

/-- The lexer reads a token wherever the automaton does, and as long a one; its text decides whether
it is a keyword. -/
theorem rel_readToken (lexer : Lexer) (cs : List Char) :
    Option.Rel (fun found read => found.length = read.length ∧ ∃ text rest, cs = text ++ rest ∧
        byteLength text = read.length ∧ lexer.vocabulary.Renames text found.kind read.kind)
      (lexer.automaton.readToken cs) (lexer.readToken cs) := by
  rw [readToken]
  cases h : lexer.automaton.readToken cs with
  | none => exact .none
  | some m =>
    obtain ⟨text, rest, rfl, -, hlength⟩ := Automaton.readToken_isPrefix h
    have hslice : slice 0 m.length (text ++ rest) = text := by
      rw [hlength]
      simpa using slice_append [] text rest
    refine .some ⟨rfl, text, rest, rfl, hlength.symm, ?_⟩
    simp only [hslice]
    exact renames_reclassify (ne_keyword_of_readToken h) text

/-- Two lists are a vocabulary just if they have the lengths of the tables and consist of distinct
words, none of them empty. Of anything else the first fault is reported, that of the keywords before
that of the signs. Of a vocabulary, the keyword that a word spells is the one at its first place,
and a lexer reads what the automaton reads, but for the identifiers that are spelled as a
keyword. -/
theorem tables_and_keywords :
    (∀ ks ps,
      ((∃ v, Vocabulary.ofLists ks ps = .ok v) ↔
        IsSpellingTable Keyword.all.length ks ∧ IsSpellingTable Punctuator.all.length ps) ∧
      (∀ v, Vocabulary.ofLists ks ps = .ok v ↔ v.keywords = ks ∧ v.punctuators = ps) ∧
      ∀ e, Vocabulary.ofLists ks ps = .error e ↔
        IsTableFault .keywords Keyword.all.length ks e ∨
          IsSpellingTable Keyword.all.length ks ∧
            IsTableFault .punctuators Punctuator.all.length ps e) ∧
    (∀ (v : Vocabulary) word,
      v.keyword? word = (v.keywords.idxOf? word).bind Keyword.ofIndex?) ∧
    ∀ (lexer : Lexer) cs,
      Option.Rel (fun found read => found.length = read.length ∧ ∃ text rest, cs = text ++ rest ∧
          byteLength text = read.length ∧ lexer.vocabulary.Renames text found.kind read.kind)
        (lexer.automaton.readToken cs) (lexer.readToken cs) :=
  ⟨fun _ _ => ⟨Vocabulary.exists_ofLists_eq_ok_iff, fun _ => Vocabulary.ofLists_eq_ok_iff,
      fun _ => Vocabulary.ofLists_eq_error_iff⟩,
    Vocabulary.keyword?_eq_ofIndex?, rel_readToken⟩

end Lexer

end Sable
