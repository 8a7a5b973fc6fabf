import Sable.Proofs.Token.StandardLexemes
import Sable.Proofs.Token.Tokenization

/-!
# Texts on consecutive lines

A text is put on the line behind another one. Nearly every token of the first text ends where it
ended, since only blanks, quoted literals and block comments go across the end of a line, and what
could be read of the first text alone has no literal that is not closed. The exception is a slash in
front of a star: it is a sign by itself, but it begins a comment if the second text ends one.

## Main definitions

* `Token.OpensComment`: a slash in front of a star.
* `Lexer.LeavesOpen`: a text with such a slash.
* `Token.shift`: a token further on.

## Main statements

* `LongestLexeme.append_newline`: what is read of the first text.
* `Lexer.significant_append_newline`: the tokens of the second text follow those of the first one.
-/
namespace Sable

open Lexeme Text
open scoped Computability

/-! ## Characters that a language does not use -/

namespace Lexeme

/-- No text of the language has the character in it. -/
def Avoids (d : Char) (L : Language Char) : Prop := ∀ cs ∈ L, d ∉ cs

variable {d : Char} {L M : Language Char} {p : Char → Bool}

theorem Avoids.mul (h : Avoids d L) (h' : Avoids d M) : Avoids d (L * M) := by
  rintro _ ⟨u, hu, v, hv, rfl⟩
  exact List.not_mem_append (h u hu) (h' v hv)

theorem Avoids.optional (h : Avoids d L) : Avoids d (optional L) := by
  intro cs hcs
  rcases mem_optional.1 hcs with rfl | hcs
  · exact List.not_mem_nil
  · exact h cs hcs

theorem avoids_chars (h : p d = false) : Avoids d (chars p) := by
  rintro _ ⟨c, hc, rfl⟩ hmem
  obtain rfl := List.mem_singleton.1 hmem
  simp [h] at hc

theorem avoids_kstar (h : p d = false) : Avoids d (chars p)∗ := by
  intro cs hcs hmem
  have hd := mem_kstar_chars.1 hcs d hmem
  simp [h] at hd

theorem avoids_digitRun (h : d.isDigit = false) : Avoids d digitRun :=
  (avoids_chars h).mul (avoids_kstar h)

/-! ## Lexemes of more than one line -/

theorem newline_notMem_spelling (p : Punctuator) : '\n' ∉ p.spelling.toList := by
  cases p <;> decide

/-- Blanks, quoted literals and block comments go across the end of a line. -/
theorem multiline_cases {c : Char} {r u : List Char} {kind : TokenKind}
    (h : c :: (r ++ '\n' :: u) ∈ kind.lexemes) : (∀ d ∈ c :: r, isBlank d) ∨
      isQuote c ∧ r ++ '\n' :: u ∈ content c * only c ∨
      c = '/' ∧ ∃ v, r = '*' :: v ∧ v ++ '\n' :: u ∈ blockEnd := by
  have hmem : '\n' ∈ c :: (r ++ '\n' :: u) := by simp
  have hquoted : ∀ quote : Char, c :: (r ++ '\n' :: u) ∈ only quote * content quote * only quote →
      c = quote ∧ r ++ '\n' :: u ∈ content c * only c := by
    intro quote h
    rw [mul_assoc, cons_mem_only_mul] at h
    obtain ⟨rfl, h⟩ := h
    exact ⟨rfl, h⟩
  cases kind with
  | whitespace =>
    obtain ⟨hc, hrest⟩ := cons_mem_chars_mul.1 h
    have hblank := mem_kstar_chars.1 hrest
    exact .inl (List.forall_mem_cons.2 ⟨hc, fun d hd => hblank d (List.mem_append_left _ hd)⟩)
  | characterLiteral =>
    obtain ⟨rfl, h⟩ := hquoted _ h
    exact .inr (.inl ⟨rfl, h⟩)
  | stringLiteral =>
    obtain ⟨rfl, h⟩ := hquoted _ h
    exact .inr (.inl ⟨rfl, h⟩)
  | multiLineComment =>
    have hcomment : c :: (r ++ '\n' :: u) ∈ only '/' * only '*' * blockEnd := h
    rw [mul_assoc, cons_mem_only_mul] at hcomment
    obtain ⟨rfl, hstar⟩ := hcomment
    cases r with
    | nil => exact absurd (cons_mem_only_mul.1 hstar).1 (by decide)
    | cons d v =>
      obtain ⟨rfl, hend⟩ := cons_mem_only_mul.1 hstar
      exact .inr (.inr ⟨rfl, v, rfl, hend⟩)
  | punctuator q =>
    rw [TokenKind.mem_lexemes_punctuator.1 h] at hmem
    exact absurd hmem (newline_notMem_spelling q)
  | singleLineComment =>
    exact absurd hmem ((((avoids_chars rfl).mul (avoids_chars rfl)).mul (avoids_kstar rfl)) _ h)
  | identifier => exact absurd hmem (((avoids_chars rfl).mul (avoids_kstar rfl)) _ h)
  | integerLiteral => exact absurd hmem (avoids_digitRun rfl _ h)
  | floatLiteral =>
    have hexponent : Avoids '\n' exponentPart :=
      ((avoids_chars rfl).mul ((avoids_chars rfl).optional.mul (avoids_digitRun rfl))).optional
    exact absurd hmem (((((avoids_digitRun rfl).mul (avoids_chars rfl)).mul
      (avoids_digitRun rfl)).mul hexponent |>.mul (avoids_chars rfl).optional) _ h)
  | keyword _ | unrecognized | eof => exact absurd h (Language.notMem_zero _)

/-- A quoted literal ends at the first quote that ends it. -/
theorem eq_nil_of_quoted {quote : Char} (hquote : isQuote quote) {v : List Char} :
    ∀ {u : List Char}, u ∈ content quote * only quote → u ++ v ∈ content quote * only quote →
      v = []
  | [], h, _ => by simp [nil_mem_content_mul, only] at h
  | c :: u, h, h' => by
    have hne : quote ≠ '\\' := by
      rintro rfl
      simp [isQuote] at hquote
    rw [cons_mem_content_mul, cons_mem_only] at h
    rw [List.cons_append, cons_mem_content_mul, cons_mem_only] at h'
    rcases h with ⟨rfl, rfl⟩ | ⟨⟨hc, hc'⟩, h⟩ | ⟨rfl, h⟩
    · simpa [hne] using h'
    · exact eq_nil_of_quoted hquote h (by simpa [hc, hc'] using h')
    · cases u with
      | nil => simp at h
      | cons d u =>
        have h' : d :: (u ++ v) ∈ chars isEscape * (content quote * only quote) := by
          simpa [hne.symm] using h'
        exact eq_nil_of_quoted hquote (cons_mem_chars_mul.1 h).2 (cons_mem_chars_mul.1 h').2

/-- A block comment ends at the first sign that ends it. -/
theorem eq_nil_of_blockEnd {u v : List Char} (h : u ∈ blockEnd) (h' : u ++ v ∈ blockEnd) :
    v = [] := by
  obtain ⟨w, rfl, -⟩ := h
  obtain ⟨-, -, hfirst⟩ := h'
  exact hfirst w v (by simp)

/-- If a comment ends behind the end of a line, the sign that ends it is there. -/
theorem suffix_of_blockEnd {v u : List Char} (h : v ++ '\n' :: u ∈ blockEnd) :
    ['*', '/'] <:+ u := by
  obtain ⟨w, hw, -⟩ := h
  have hsuffix : ['*', '/'] <:+ v ++ '\n' :: u := ⟨w, hw.symm⟩
  rcases List.suffix_or_suffix_of_suffix hsuffix (List.suffix_append v ('\n' :: u)) with h | h
  · rcases List.suffix_cons_iff.1 h with h | h
    · simp at h
    · exact h
  · have hmem := h.subset List.mem_cons_self
    simp at hmem

end Lexeme

/-! ## What is read -/

namespace LongestLexeme

variable {cs : List Char} {m m' : Munch}

theorem unique (h : LongestLexeme cs m) (h' : LongestLexeme cs m') : m = m' := by
  obtain ⟨p, q, rfl, hp, hlength, hmax⟩ := h
  obtain ⟨p', q', hpq, hp', hlength', hmax'⟩ := h'
  have hle := hmax p' q' _ hpq hp'
  have hle' := hmax' p q _ rfl hp
  obtain ⟨rfl, -⟩ := List.append_inj hpq (by omega)
  obtain ⟨kind, length⟩ := m
  obtain ⟨kind', length'⟩ := m'
  obtain rfl : kind = kind' := Automaton.lexemes_disjoint hp hp'
  obtain rfl : length = length' := hlength.trans hlength'.symm
  rfl

/-- What is read of a text is read of it in front of another line, unless the text is blank or
leaves a comment open. -/
theorem append_newline {r : List Char} (h : LongestLexeme r m) (hblank : ¬ ∀ c ∈ r, isBlank c)
    (hopen : m.kind = .punctuator .slash → ['/', '*'] <+: r → ¬ ['*', '/'] <:+: cs) :
    LongestLexeme (r ++ '\n' :: cs) m := by
  obtain ⟨p, q, rfl, hp, hlength, hmax⟩ := h
  refine ⟨p, q ++ '\n' :: cs, List.append_assoc .., hp, hlength, fun p' q' kind hpq hp' => ?_⟩
  by_contra hlt
  obtain ⟨c, p, rfl⟩ := List.exists_cons_of_ne_nil fun hnil : p = [] =>
    TokenKind.nil_notMem_lexemes _ (hnil ▸ hp)
  -- a longer lexeme takes the end of the line
  obtain ⟨u, rfl, hu⟩ : ∃ u, p' = c :: (p ++ q ++ '\n' :: u) ∧ cs = u ++ q' := by
    rcases List.append_eq_append_iff.1 hpq with ⟨a, rfl, ha⟩ | ⟨a, ha, -⟩
    · cases a with
      | nil => exact absurd (hmax _ [] kind (by simp) hp') (by simpa using hlt)
      | cons d u =>
        obtain ⟨rfl, hu⟩ := List.cons.inj ha
        exact ⟨u, by simp, hu⟩
    · exact absurd (hmax p' a kind ha hp') hlt
  rcases multiline_cases hp' with hall | ⟨hquote, hclosed⟩ | ⟨rfl, v, hv, hend⟩
  · exact hblank hall
  · have hread : p ∈ content c * only c := by
      have hcases := hquote
      simp only [isQuote, Bool.or_eq_true, beq_iff_eq] at hcases
      rcases hcases with rfl | rfl
      · exact (TokenKind.apostrophe_mem_lexemes.1 hp).2
      · exact (TokenKind.quote_mem_lexemes.1 hp).2
    rw [List.append_assoc] at hclosed
    simpa using eq_nil_of_quoted hquote hread hclosed
  · cases p with
    | nil =>
      have hkind : m.kind = .punctuator .slash :=
        Automaton.lexemes_disjoint hp (TokenKind.mem_lexemes_punctuator.2 rfl)
      refine hopen hkind ⟨v, by simpa using hv.symm⟩ ?_
      rw [hu]
      exact (suffix_of_blockEnd hend).isInfix.trans (List.prefix_append u q').isInfix
    | cons d p =>
      obtain ⟨rfl, rfl⟩ : d = '*' ∧ p ++ q = v := by simpa using hv
      have hread := (TokenKind.slash_star_mem_lexemes.1 hp).2
      rw [List.append_assoc] at hend
      simpa using eq_nil_of_blockEnd hread hend

/-- All the blanks in front of what is no blank. -/
theorem blanks {bs : List Char} (hne : bs ≠ []) (hbs : ∀ c ∈ bs, isBlank c)
    (hcs : ∀ c ∈ cs.head?, ¬ isBlank c) :
    LongestLexeme (bs ++ cs) ⟨.whitespace, byteLength bs⟩ := by
  obtain ⟨c, bs, rfl⟩ := List.exists_cons_of_ne_nil hne
  obtain ⟨hc, hbs⟩ := List.forall_mem_cons.1 hbs
  refine ⟨c :: bs, cs, rfl, (TokenKind.cons_mem_lexemes_of_isBlank hc).2
    ⟨rfl, mem_kstar_chars.2 hbs⟩, rfl, fun p' q' kind hpq hp' => ?_⟩
  by_contra hlt
  rcases List.append_eq_append_iff.1 hpq with ⟨a, rfl, ha⟩ | ⟨a, ha, -⟩
  · cases a with
    | nil => simp at hlt
    | cons d a =>
      have hall := mem_kstar_chars.1 ((TokenKind.cons_mem_lexemes_of_isBlank hc).1 hp').2
      exact hcs d (by rw [ha]; rfl) (hall d (by simp))
  · have hlength := congrArg List.length ha
    rw [List.length_append] at hlength
    omega

end LongestLexeme

namespace Automaton

variable {cs : List Char} {m : Munch}

theorem longestLexeme_of_readToken (h : standard.readToken cs = some m)
    (hkind : m.kind ≠ .unrecognized) : LongestLexeme cs m := by
  rcases readToken_cases h with hlongest | ⟨-, hnone, -⟩
  · exact longest_iff.1 hlongest
  · exact absurd hnone hkind

theorem readToken_of_longestLexeme (h : LongestLexeme cs m) : standard.readToken cs = some m := by
  obtain ⟨p, q, hpq, hp, -⟩ := id h
  have hne : cs ≠ [] := by
    rintro rfl
    obtain ⟨rfl, -⟩ := List.append_eq_nil_iff.1 hpq.symm
    exact TokenKind.nil_notMem_lexemes _ hp
  obtain ⟨m', hm'⟩ := Option.ne_none_iff_exists'.1 (readToken_ne_none (a := standard) hne)
  rcases readToken_cases hm' with hlongest | ⟨hnone, -⟩
  · rwa [h.unique (longest_iff.1 hlongest)]
  · exact absurd hp (noneFrom_iff.1 hnone p q _ hpq)

end Automaton

namespace Lexer

variable {lexer : Lexer} (hlexer : lexer.vocabulary = .standard)

include hlexer

theorem automaton_eq_standard : lexer.automaton = Automaton.standard := by
  rw [lexer.automaton_eq, hlexer, Automaton.standard_eq]

theorem readToken_append_newline {text rest cs : List Char} {kind : TokenKind}
    (h : lexer.readToken (text ++ rest) = some ⟨kind, byteLength text⟩)
    (hkind : kind ≠ .unrecognized) (hblank : ¬ ∀ c ∈ text ++ rest, isBlank c)
    (hopen : kind = .punctuator .slash → ['/', '*'] <+: text ++ rest → ¬ ['*', '/'] <:+: cs) :
    lexer.readToken (text ++ (rest ++ '\n' :: cs)) = some ⟨kind, byteLength text⟩ := by
  obtain ⟨found, hread, rfl⟩ := readToken_append_eq_iff.1 h
  refine readToken_append_eq_iff.2 ⟨found, ?_, rfl⟩
  rw [automaton_eq_standard hlexer] at hread ⊢
  have hfound : found ≠ .unrecognized := by
    rintro rfl
    exact hkind rfl
  rw [← List.append_assoc]
  apply Automaton.readToken_of_longestLexeme
  apply (Automaton.longestLexeme_of_readToken hread hfound).append_newline hblank
  rintro rfl
  exact hopen rfl

theorem readToken_blanks {bs cs : List Char} (hne : bs ≠ []) (hbs : ∀ c ∈ bs, isBlank c)
    (hcs : ∀ c ∈ cs.head?, ¬ isBlank c) :
    lexer.readToken (bs ++ cs) = some ⟨.whitespace, byteLength bs⟩ := by
  refine readToken_append_eq_iff.2 ⟨.whitespace, ?_, rfl⟩
  rw [automaton_eq_standard hlexer]
  exact Automaton.readToken_of_longestLexeme (.blanks hne hbs hcs)

end Lexer

/-! ## Tokens -/

def Span.shift (n : Nat) (s : Span) : Span := ⟨s.start + n, s.stop + n, s.file⟩

namespace Token

def shift (n : Nat) (t : Token) : Token := { t with span := t.span.shift n }

theorem significant_map_shift (n : Nat) (tokens : List Token) :
    significant (tokens.map (shift n)) = (significant tokens).map (shift n) := by
  rw [significant, significant, List.filter_map]
  rfl

theorem significant_append (ts us : List Token) :
    significant (ts ++ us) = significant ts ++ significant us := List.filter_append ..

/-- A slash in front of a star. A comment begins there if one ends behind it. -/
def OpensComment (source : List Char) (t : Token) : Prop :=
  t.kind = .punctuator .slash ∧ slice t.span.start (t.span.start + 2) source = ['/', '*']

instance (source : List Char) (t : Token) : Decidable (t.OpensComment source) :=
  inferInstanceAs (Decidable (_ ∧ _))

end Token

namespace Lexer

/-- The text has a slash in front of a star, outside of comments and literals. -/
def LeavesOpen (lexer : Lexer) (source : String) : Prop :=
  ∃ t ∈ lexer.tokenize source, t.OpensComment source.toList

instance (lexer : Lexer) (source : String) : Decidable (lexer.LeavesOpen source) :=
  inferInstanceAs (Decidable (∃ t ∈ _, _))

variable {lexer : Lexer} {offset : Nat} {cs : List Char} {tokens tokens' : List Token}

theorem Cuts.unique (h : lexer.Cuts offset cs tokens) (h' : lexer.Cuts offset cs tokens') :
    tokens = tokens' := by
  have htokens := h.tokensFrom_eq (Nat.le_refl cs.length)
  rw [h'.tokensFrom_eq (Nat.le_refl cs.length)] at htokens
  exact (List.append_cancel_right htokens).symm

theorem Cuts.shift (h : lexer.Cuts offset cs tokens) (n : Nat) :
    lexer.Cuts (offset + n) cs (tokens.map (Token.shift n)) := by
  induction h with
  | nil => exact .nil _
  | @cons offset kind text rest tokens hne hread _ ih =>
    rw [Nat.add_right_comm] at ih
    have htoken : (lexer.tokenAt offset ⟨kind, byteLength text⟩ text).shift n =
        lexer.tokenAt (offset + n) ⟨kind, byteLength text⟩ text := by
      simp [tokenAt, Token.shift, Span.shift, Nat.add_right_comm]
    rw [List.map_cons, htoken]
    exact .cons hne hread ih

section Standard

variable (hlexer : lexer.vocabulary = .standard)

include hlexer

theorem Cuts.behind_blanks {bs : List Char} (hbs : ∀ c ∈ bs, isBlank c)
    (hcs : ∀ c ∈ cs.head?, ¬ isBlank c) (h : lexer.Cuts offset (bs ++ cs) tokens) :
    ∃ tokens', lexer.Cuts (offset + byteLength bs) cs tokens' ∧
      Token.significant tokens = Token.significant tokens' := by
  by_cases hne : bs = []
  · subst hne
    exact ⟨tokens, h, rfl⟩
  · obtain ⟨tokens', h'⟩ := lexer.exists_cuts (offset + byteLength bs) cs
    obtain rfl := h.unique (.cons hne (readToken_blanks hlexer hne hbs hcs) h')
    refine ⟨tokens', h', List.filter_cons_of_neg ?_⟩
    simp [Token.isTrivia, tokenAt, TokenKind.isTrivia]

/-- Blanks in front mean nothing. -/
theorem Cuts.significant_blanks {bs : List Char} (hbs : ∀ c ∈ bs, isBlank c)
    (h : lexer.Cuts offset (bs ++ cs) tokens)
    (h' : lexer.Cuts (offset + byteLength bs) cs tokens') :
    Token.significant tokens = Token.significant tokens' := by
  have hsplit := List.takeWhile_append_dropWhile (p := isBlank) (l := cs)
  have htake : ∀ c ∈ cs.takeWhile isBlank, isBlank c :=
    List.all_eq_true.1 List.all_takeWhile
  have hdrop : ∀ c ∈ (cs.dropWhile isBlank).head?, ¬ isBlank c := fun c hc => by
    have := List.head?_dropWhile_not isBlank cs
    rw [Option.mem_def.1 hc] at this
    simpa using this
  generalize cs.takeWhile isBlank = bs', cs.dropWhile isBlank = rest at hsplit htake hdrop
  subst hsplit
  rw [← List.append_assoc] at h
  obtain ⟨us, hus, heq⟩ := h.behind_blanks hlexer
    (List.forall_mem_append.2 ⟨hbs, htake⟩) hdrop
  obtain ⟨us', hus', heq'⟩ := h'.behind_blanks hlexer htake hdrop
  rw [byteLength_append, ← Nat.add_assoc] at hus
  rw [heq, heq', hus.unique hus']

/-- Blanks on the line in front mean nothing either. -/
theorem Cuts.append_newline_of_blank {cs' : List Char} (h : lexer.Cuts offset cs tokens)
    (h' : lexer.Cuts (offset + byteLength cs + 1) cs' tokens') (hblank : ∀ c ∈ cs, isBlank c) :
    ∃ us, lexer.Cuts offset (cs ++ '\n' :: cs') us ∧
      Token.significant us = Token.significant tokens ++ Token.significant tokens' := by
  obtain ⟨us, hus⟩ := lexer.exists_cuts offset (cs ++ ['\n'] ++ cs')
  have hnone : Token.significant tokens = Token.significant [] := by
    rw [← List.append_nil cs] at h
    exact h.significant_blanks hlexer hblank (.nil _)
  have hsome : Token.significant us = Token.significant tokens' := by
    refine hus.significant_blanks hlexer (List.forall_mem_append.2 ⟨hblank, ?_⟩) ?_
    · exact List.forall_mem_singleton.2 rfl
    · rwa [byteLength_append, ← Nat.add_assoc]
  refine ⟨us, by simpa using hus, ?_⟩
  rw [hnone, hsome]
  rfl

/-- The tokens of two texts on consecutive lines. -/
theorem Cuts.append_newline {before cs' : List Char}
    (h : lexer.Cuts (byteLength before) cs tokens)
    (h' : lexer.Cuts (byteLength before + byteLength cs + 1) cs' tokens')
    (hkind : ∀ t ∈ tokens, t.kind ≠ .unrecognized)
    (hopen : ∀ t ∈ tokens, t.OpensComment (before ++ cs) → ¬ ['*', '/'] <:+: cs') :
    ∃ us, lexer.Cuts (byteLength before) (cs ++ '\n' :: cs') us ∧
      Token.significant us = Token.significant tokens ++ Token.significant tokens' := by
  generalize hoffset : byteLength before = offset at h h'
  induction h generalizing before with
  | nil offset =>
    exact (Cuts.nil offset).append_newline_of_blank hlexer h' (by simp)
  | @cons offset kind text rest tokens hne hread hrest ih =>
    subst hoffset
    rw [List.forall_mem_cons] at hkind hopen
    by_cases hblank : ∀ c ∈ text ++ rest, isBlank c
    · exact (Cuts.cons hne hread hrest).append_newline_of_blank hlexer h' hblank
    -- the first token is read as before, and the others by induction
    rw [byteLength_append, ← Nat.add_assoc] at h'
    rw [← List.append_assoc] at hopen
    obtain ⟨us, hus, heq⟩ := ih hkind.2 hopen.2 (byteLength_append before text) h'
    have hread' : lexer.readToken (text ++ (rest ++ '\n' :: cs')) =
        some ⟨kind, byteLength text⟩ := by
      refine readToken_append_newline hlexer hread hkind.1 hblank ?_
      rintro rfl ⟨w, hw⟩
      refine hopen.1 ⟨rfl, ?_⟩
      rw [List.append_assoc, ← hw]
      exact slice_append before ['/', '*'] w
    have hcuts := Cuts.cons hne hread' hus
    rw [← List.append_assoc] at hcuts
    refine ⟨_, hcuts, ?_⟩
    simp only [Token.significant] at heq ⊢
    rw [List.filter_cons, List.filter_cons, heq]
    split <;> rfl

/-- Behind the tokens of the first text come those of the second one, a line further on. -/
theorem significant_append_newline {source source' : String}
    (h : lexer.Cuts 0 source.toList tokens) (hkind : ∀ t ∈ tokens, t.kind ≠ .unrecognized)
    (hopen : lexer.LeavesOpen source → ¬ ['*', '/'] <:+: source'.toList) :
    Token.significant (lexer.tokenize (source ++ "\n" ++ source')) = Token.significant tokens ++
      (Token.significant (lexer.tokenize source')).map (Token.shift (source.utf8ByteSize + 1)) := by
  obtain ⟨tokens', h', htokens'⟩ := lexer.exists_tokenize_eq source'
  have hshift := h'.shift (source.utf8ByteSize + 1)
  rw [Nat.zero_add] at hshift
  have hfirst : lexer.Cuts (byteLength []) source.toList tokens := h
  have hfollow : lexer.Cuts (byteLength [] + byteLength source.toList + 1) source'.toList
      (tokens'.map (Token.shift (source.utf8ByteSize + 1))) := by
    rwa [byteLength_nil, Nat.zero_add, byteLength_toList]
  have hstars : ∀ t ∈ tokens, t.OpensComment ([] ++ source.toList) →
      ¬ ['*', '/'] <:+: source'.toList := by
    intro t ht hstar
    refine hopen ⟨t, ?_, hstar⟩
    rw [tokenize_eq_iff.2 h]
    exact List.mem_append_left _ ht
  obtain ⟨us, hus, heq⟩ := hfirst.append_newline hlexer hfollow hkind hstars
  have hjoined : lexer.Cuts 0 (source ++ "\n" ++ source').toList us := by
    simpa using hus
  have heof : (Token.eof source'.utf8ByteSize lexer.file).shift (source.utf8ByteSize + 1) =
      .eof (source ++ "\n" ++ source').utf8ByteSize lexer.file := by
    have hnewline : "\n".utf8ByteSize = 1 := rfl
    simp only [Token.eof, Token.shift, Span.shift, Span.empty, String.utf8ByteSize_append, hnewline]
    rw [Nat.add_comm]
  rw [tokenize_eq_iff.2 hjoined, htokens', ← Token.significant_map_shift, List.map_append,
    List.map_singleton, heof, Token.significant_append, heq, Token.significant_append,
    List.append_assoc]

end Standard

/-! ## Texts of tokens -/

variable {t : Token} {source : String}

theorem exists_of_mem_tokenize (ht : t ∈ lexer.tokenize source) (hkind : t.kind ≠ .eof) :
    ∃ before kind text rest, source.toList = before ++ (text ++ rest) ∧
      t = lexer.tokenAt (byteLength before) ⟨kind, byteLength text⟩ text := by
  obtain ⟨tokens, hcuts, htokens⟩ := lexer.exists_tokenize_eq source
  rw [htokens, List.mem_append, List.mem_singleton] at ht
  rcases ht with ht | rfl
  · obtain ⟨before, kind, text, rest, hsource, -, -, rfl⟩ := hcuts.mem ht
    exact ⟨before, kind, text, rest, hsource, by rw [Nat.zero_add]⟩
  · exact absurd rfl hkind

/-- A token has the same text where more is written behind. -/
theorem lexeme_append (ht : t ∈ lexer.tokenize source) (hkind : t.kind ≠ .eof) (cs : List Char) :
    t.lexeme (source.toList ++ cs) = t.lexeme source.toList := by
  obtain ⟨before, kind, text, rest, hsource, rfl⟩ := exists_of_mem_tokenize ht hkind
  rw [hsource, lexeme_tokenAt, List.append_assoc, List.append_assoc, lexeme_tokenAt]

/-- A token has the same text where more is written in front. -/
theorem lexeme_shift (ht : t ∈ lexer.tokenize source) (hkind : t.kind ≠ .eof) (cs : List Char) :
    (t.shift (byteLength cs)).lexeme (cs ++ source.toList) = t.lexeme source.toList := by
  obtain ⟨before, kind, text, rest, hsource, rfl⟩ := exists_of_mem_tokenize ht hkind
  have hshift : (lexer.tokenAt (byteLength before) ⟨kind, byteLength text⟩ text).shift
      (byteLength cs) = lexer.tokenAt (byteLength (cs ++ before)) ⟨kind, byteLength text⟩ text := by
    simp only [tokenAt, Token.shift, Span.shift, byteLength_append, Nat.add_comm (byteLength cs),
      Nat.add_right_comm]
  rw [hshift, hsource, lexeme_tokenAt, ← List.append_assoc, lexeme_tokenAt]

end Lexer

end Sable
