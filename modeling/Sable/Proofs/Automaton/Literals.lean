import Sable.Proofs.Token.Lexemes

/-!
# Literals and comments of any vocabulary

Numbers, quoted literals and comments are parts of their own. The vocabulary decides which numbers
their states have, and what the state of `/` accepts, but not how a reading goes on once it is in a
part. So two vocabularies read the same, wherever the first characters lead into the same part and
what was accepted on the way does not count.

## Main definitions

* `Automaton.BeginsPart`: the text begins with a literal, a line comment or a whole block comment.

## Main statements

* `Automaton.Part.Within.munch_eq`: what is read within a part.
* `Automaton.readToken_respelled`: literals and comments are read as in the standard vocabulary.
-/
namespace Sable.Automaton

open Lexeme Text
open Builder (digits)

/-- A literal begins so, or a line comment, or a block comment, which ends in the text. -/
inductive BeginsPart : List Char → Prop
  | digit {c : Char} (hc : c.isDigit) (cs : List Char) : BeginsPart (c :: cs)
  | quote {c : Char} (hc : isQuote c) (cs : List Char) : BeginsPart (c :: cs)
  | line (cs : List Char) : BeginsPart ('/' :: '/' :: cs)
  | block (u cs : List Char) : BeginsPart ('/' :: '*' :: (u ++ '*' :: '/' :: cs))

variable {a b : Automaton} {σ : Type} {part : Part σ} {place place' : σ → StateId}

/-! ## Readings within a part -/

/-- What is accepted behind the character replaces what was accepted before. -/
theorem munch_cons {s next : StateId} {c : Char} (h : a.transition s c = some next)
    (consumed : Nat) (best : Option Munch) (cs : List Char) :
    a.munch s consumed best (c :: cs) = a.munch next (consumed + c.utf8Size)
      (((a.accepting? next).map fun kind => ⟨kind, consumed + c.utf8Size⟩).or best) cs := by
  cases hkind : a.accepting? next <;> simp [munch, h, hkind]

/-- A reading does not depend on where the part stands in the automaton. -/
theorem Part.Within.munch_eq (ha : part.Within a place) (hb : part.Within b place') (s : σ)
    (consumed : Nat) (best : Option Munch) (cs : List Char) :
    a.munch (place s) consumed best cs = b.munch (place' s) consumed best cs := by
  induction cs generalizing s consumed best with
  | nil => rfl
  | cons c cs ih =>
    have hstep := ha.transition s c
    have hstep' := hb.transition s c
    cases hnext : part.next s c with
    | none => simp [munch, hstep, hstep', hnext]
    | some t =>
      rw [hnext, Option.map_some] at hstep hstep'
      rw [munch_cons hstep, munch_cons hstep', ha.accepting?, hb.accepting?, ih]

/-- Where the first character leads into the same part, the same is read. -/
theorem Part.Within.readToken_eq (ha : part.Within a place) (hb : part.Within b place') {s : σ}
    {c : Char} (hs : a.transition root c = some (place s))
    (hs' : b.transition root c = some (place' s)) (cs : List Char) :
    a.readToken (c :: cs) = b.readToken (c :: cs) := by
  rw [readToken, readToken, munch_cons hs, munch_cons hs', ha.accepting?, hb.accepting?,
    ha.munch_eq hb]

theorem Part.Within.kindFrom?_eq (ha : part.Within a place) (hb : part.Within b place') (s : σ)
    (cs : List Char) : a.kindFrom? (place s) cs = b.kindFrom? (place' s) cs := by
  rw [kindFrom?, kindFrom?, ha.walkFrom, hb.walkFrom]
  cases part.walk s cs with
  | none => rfl
  | some t => simp [ha.accepting?, hb.accepting?]

/-! ## The longest prefix behind a common beginning -/

theorem kindOf?_append {w : List Char} {s : StateId} (h : a.walkFrom root w = some s)
    (u : List Char) : a.kindOf? (w ++ u) = a.kindFrom? s u := by
  rw [kindOf?, kindFrom?, walkFrom_append, h]
  rfl

theorem LongestFrom.unique {s : StateId} {cs : List Char} {m m' : Munch}
    (h : a.LongestFrom s cs m) (h' : a.LongestFrom s cs m') : m = m' := by
  obtain ⟨p, q, hpq, -, hp, hlength, hmax⟩ := h
  obtain ⟨p', q', hpq', -, hp', hlength', hmax'⟩ := h'
  have hle : p.length ≤ p'.length := by
    by_contra hlt
    simp [hmax' p q hpq (by omega)] at hp
  have hge : p'.length ≤ p.length := by
    by_contra hlt
    simp [hmax p' q' hpq' (by omega)] at hp'
  obtain rfl : p = p' := (List.append_inj (hpq.symm.trans hpq') (by omega)).1
  obtain ⟨kind, length⟩ := m
  obtain ⟨kind', length'⟩ := m'
  simp_all

/-- Two automata that agree on what begins with `w` have the same longest prefix, if something that
begins so is accepted. -/
theorem Longest.congr {w p q : List Char} {m : Munch}
    (hw : ∀ u, a.kindOf? (w ++ u) = b.kindOf? (w ++ u)) (hp : (a.kindOf? (w ++ p)).isSome)
    (h : a.Longest (w ++ p ++ q) m) : b.Longest (w ++ p ++ q) m := by
  obtain ⟨r, z, hrz, hne, hr, hlength, hmax⟩ := h
  have hle : (w ++ p).length ≤ r.length := by
    by_contra hlt
    rw [kindOf?, hmax (w ++ p) q rfl (by omega)] at hp
    simp at hp
  have hagree : ∀ r' z', w ++ p ++ q = r' ++ z' → r.length ≤ r'.length →
      a.kindOf? r' = b.kindOf? r' := by
    intro r' z' hrz' hle'
    have hprefix : w <+: w ++ p ++ q := by simp
    obtain ⟨u, rfl⟩ := List.prefix_of_prefix_length_le hprefix ⟨z', hrz'.symm⟩ (by
      rw [List.length_append] at hle
      omega)
    exact hw u
  refine ⟨r, z, hrz, hne, (hagree r z hrz (Nat.le_refl _)).symm.trans hr, hlength, ?_⟩
  intro r' z' hrz' hlt
  exact (hagree r' z' hrz' (by omega)).symm.trans (hmax r' z' hrz' hlt)

/-- Where the same characters lead into the same part, the same is read, if something is accepted
there. -/
theorem Part.Within.readToken_append_eq (ha : part.Within a place) (hb : part.Within b place')
    {s : σ} {w p : List Char} (hne : w ≠ []) (hs : a.walkFrom root w = some (place s))
    (hs' : b.walkFrom root w = some (place' s)) (hp : (a.kindFrom? (place s) p).isSome)
    (q : List Char) : a.readToken (w ++ p ++ q) = b.readToken (w ++ p ++ q) := by
  have hagree : ∀ u, a.kindOf? (w ++ u) = b.kindOf? (w ++ u) := by
    intro u
    rw [kindOf?_append hs, kindOf?_append hs', ha.kindFrom?_eq hb]
  have hp' : (a.kindOf? (w ++ p)).isSome := by rwa [kindOf?_append hs]
  have hne' : w ++ p ≠ [] := by simp [hne]
  obtain ⟨m, hm, hlongest⟩ := exists_longest (List.prefix_append (w ++ p) q) hp' hne'
  obtain ⟨m', hm', hlongest'⟩ :=
    exists_longest (List.prefix_append (w ++ p) q) (hagree p ▸ hp') hne'
  rw [hm, hm', (hlongest.congr hagree hp').unique hlongest']

/-! ## Two vocabularies -/

/-- A comment that ends ends for the first time. -/
theorem exists_mem_blockEnd (u cs : List Char) :
    ∃ p q, u ++ '*' :: '/' :: cs = p ++ q ∧ p ∈ blockEnd := by
  induction u with
  | nil => exact ⟨['*', '/'], cs, rfl, star_slash_mem_blockEnd.2 rfl⟩
  | cons c u ih =>
    by_cases hends : ['*', '/'] <+: c :: (u ++ '*' :: '/' :: cs)
    · obtain ⟨q, hq⟩ := hends
      exact ⟨['*', '/'], q, hq.symm, star_slash_mem_blockEnd.2 rfl⟩
    · obtain ⟨p, q, hpq, hp⟩ := ih
      refine ⟨c :: p, q, by rw [List.cons_append, hpq]; rfl, (cons_mem_blockEnd ?_).2 hp⟩
      intro hstart
      rw [hpq, ← List.cons_append] at hends
      exact hends (hstart.trans (List.prefix_append _ q))

/-- Literals and comments are read alike, whatever the vocabulary. -/
theorem readToken_eq_of_beginsPart (v v' : Vocabulary) {cs : List Char} (h : BeginsPart cs) :
    (ofVocabulary v).readToken cs = (ofVocabulary v').readToken cs := by
  obtain ⟨l⟩ := exists_layers v
  obtain ⟨l'⟩ := exists_layers v'
  cases h with
  | digit hc cs =>
    have hdigit := (mem_digits _).2 hc
    exact l.numeric_within.readToken_eq l'.numeric_within (l.transition_digit hdigit)
      (l'.transition_digit hdigit) cs
  | @quote c hc cs =>
    obtain rfl | rfl : c = '\'' ∨ c = '"' := by simpa [isQuote] using hc
    · exact l.character_within.readToken_eq l'.character_within l.transition_apostrophe
        l'.transition_apostrophe cs
    · exact l.string_within.readToken_eq l'.string_within l.transition_quote l'.transition_quote cs
  | line cs =>
    have hline : ((ofVocabulary v).kindFrom? (l.comment .line) []).isSome := by
      rw [kindFrom?_nil, l.comment_within.accepting?]
      rfl
    exact l.comment_within.readToken_append_eq l'.comment_within (w := ['/', '/']) (by simp)
      (by simp [l.transition_slash, l.transition_slash_slash])
      (by simp [l'.transition_slash, l'.transition_slash_slash]) hline cs
  | block u cs =>
    obtain ⟨p, q, hpq, hp⟩ := exists_mem_blockEnd u cs
    have hblock : ((ofVocabulary v).kindFrom? (l.comment .block) p).isSome := by
      rw [(Comment.solves_block.kindFrom? l.comment_within .block p).2 hp]
      rfl
    rw [hpq]
    exact l.comment_within.readToken_append_eq l'.comment_within (w := ['/', '*']) (by simp)
      (by simp [l.transition_slash, l.transition_slash_star])
      (by simp [l'.transition_slash, l'.transition_slash_star]) hblock q

/-- Literals and comments are read as in the standard vocabulary. -/
theorem readToken_respelled (v : Vocabulary) {cs : List Char} (h : BeginsPart cs) :
    ∃ m, (ofVocabulary v).readToken cs = some m ∧
      (ofVocabulary .standard).readToken cs = some m := by
  have hne : cs ≠ [] := by rintro rfl; cases h
  obtain ⟨m, hm⟩ := Option.ne_none_iff_exists'.1 (readToken_ne_none (a := ofVocabulary v) hne)
  exact ⟨m, hm, (readToken_eq_of_beginsPart v .standard h) ▸ hm⟩

/-- A vocabulary whose signs begin as literals and comments do. -/
def disguised : Vocabulary where
  keywords := Vocabulary.standard.keywords
  punctuators := Punctuator.all.map fun
    | .plus => "1" | .minus => "'" | .star => "//" | .slash => "/* 1" | p => p.spelling
  keywords_table := Vocabulary.standard.keywords_table
  punctuators_table := by unfold IsSpellingTable; decide

/-- A sign is spelled at the beginning of the comment, but the comment is read. -/
theorem readToken_respelled_comment : BeginsPart "/* 1 */ 1".toList ∧
    ∃ m, (ofVocabulary disguised).readToken "/* 1 */ 1".toList = some m ∧
      (ofVocabulary .standard).readToken "/* 1 */ 1".toList = some m := by
  have hbegins : BeginsPart "/* 1 */ 1".toList := .block [' ', '1', ' '] [' ', '1']
  exact ⟨hbegins, readToken_respelled disguised hbegins⟩

end Sable.Automaton
