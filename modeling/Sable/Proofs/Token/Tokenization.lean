import Mathlib.Data.List.Basic
import Mathlib.Data.List.Pairwise
import Sable.Proofs.Automaton.Building
import Sable.Proofs.Automaton.Reading
import Sable.Token.Lexer

/-!
# Tokenization loses nothing

The tokens of a text lie side by side from its start to its end, on character boundaries, and the
end of input stands behind them. Identifiers and literals are numbered by their texts.

## Main definitions

* `Lexer.Cuts`: a text cut into tokens, reading by reading.
* `Token.Tiles`: tokens side by side.
* `Token.InOrder`: tokens one behind another, none of them empty.
* `Token.symbolIn?`: the number of a token's text among the distinct texts of a list of tokens.

## Main statements

* `Lexer.tokenize_eq_iff`: what tokenization gives is the one way to cut a text.
* `Lexer.tokenize_lossless`: the tokens cover the text.
-/
namespace Sable

open Text

namespace Text

/-- A position between two characters, or at an end. -/
def IsBoundary (cs : List Char) (offset : Nat) : Prop :=
  ∃ before rest, cs = before ++ rest ∧ byteLength before = offset

theorem byteLength_pos {cs : List Char} (h : cs ≠ []) : 0 < byteLength cs := by
  cases cs with
  | nil => exact absurd rfl h
  | cons c cs =>
    have := c.utf8Size_pos
    simp only [byteLength_cons]
    omega

theorem byteLength_toList (s : String) : byteLength s.toList = s.utf8ByteSize := by
  have h : ∀ cs : List Char, byteLength cs = (String.ofList cs).utf8ByteSize := by
    intro cs
    induction cs with
    | nil => rfl
    | cons c cs ih => simp [String.ofList_cons, ih]
  rw [h, String.ofList_toList]

theorem slice_append (before cs rest : List Char) :
    slice (byteLength before) (byteLength before + byteLength cs) (before ++ (cs ++ rest)) = cs := by
  simp [slice, slice?, drop?_append, take?_append]

theorem slice_toList (s : String) : slice 0 s.utf8ByteSize s.toList = s.toList := by
  rw [← byteLength_toList]
  simpa using slice_append [] s.toList []

end Text

namespace Lexer

variable {lexer : Lexer}

/-! ## Cutting a text -/

/-- `cs`, which stands at `offset`, is cut into tokens. -/
inductive Cuts (lexer : Lexer) : Nat → List Char → List Token → Prop
  | nil (offset : Nat) : Cuts lexer offset [] []
  | cons {offset : Nat} {kind : TokenKind} {text rest : List Char} {tokens : List Token}
      (nonempty : text ≠ [])
      (read : lexer.readToken (text ++ rest) = some ⟨kind, byteLength text⟩)
      (cuts : Cuts lexer (offset + byteLength text) rest tokens) :
      Cuts lexer offset (text ++ rest)
        (lexer.tokenAt offset ⟨kind, byteLength text⟩ text :: tokens)

/-- A reading cuts off the first characters. -/
theorem readToken_isPrefix (lexer : Lexer) {cs : List Char} (h : cs ≠ []) :
    ∃ kind text rest, cs = text ++ rest ∧ text ≠ [] ∧
      lexer.readToken cs = some ⟨kind, byteLength text⟩ := by
  obtain ⟨m, hm⟩ := Option.ne_none_iff_exists'.1 (lexer.automaton.readToken_ne_none h)
  obtain ⟨text, rest, rfl, hne, hlen⟩ := Automaton.readToken_isPrefix hm
  refine ⟨lexer.reclassify m.kind (.ofList (slice 0 m.length (text ++ rest))), text, rest, rfl, hne, ?_⟩
  rw [readToken, hm, ← hlen]
  rfl

/-- A reading is that of the automaton, but for keywords. -/
theorem readToken_append_eq_iff {text rest : List Char} {kind : TokenKind} :
    lexer.readToken (text ++ rest) = some ⟨kind, byteLength text⟩ ↔ ∃ found,
      lexer.automaton.readToken (text ++ rest) = some ⟨found, byteLength text⟩ ∧
        lexer.reclassify found (.ofList text) = kind := by
  have hslice : slice 0 (byteLength text) (text ++ rest) = text := by
    simpa using slice_append [] text rest
  rw [readToken, Option.map_eq_some_iff]
  constructor
  · rintro ⟨⟨found, length⟩, hread, heq⟩
    obtain ⟨hkind, hlength⟩ := Munch.mk.inj heq
    subst hlength
    exact ⟨found, hread, by rwa [hslice] at hkind⟩
  · rintro ⟨found, hread, hkind⟩
    exact ⟨_, hread, by rw [hslice, hkind]⟩

theorem exists_cuts (lexer : Lexer) (offset : Nat) (cs : List Char) :
    ∃ tokens, lexer.Cuts offset cs tokens := by
  induction hn : cs.length using Nat.strongRecOn generalizing cs offset with
  | ind n ih =>
    by_cases h : cs = []
    · exact ⟨[], h ▸ .nil offset⟩
    · obtain ⟨kind, text, rest, rfl, hne, hread⟩ := lexer.readToken_isPrefix h
      have hlt : rest.length < n := by
        have := List.length_pos_of_ne_nil hne
        simp only [List.length_append] at hn
        omega
      obtain ⟨tokens, htokens⟩ := ih _ hlt (offset + byteLength text) rest rfl
      exact ⟨_, .cons hne hread htokens⟩

/-- The bound of `tokensFrom` does not matter if it is large enough. -/
theorem Cuts.tokensFrom_eq {offset bound : Nat} {cs : List Char} {tokens : List Token}
    (h : lexer.Cuts offset cs tokens) (hb : cs.length ≤ bound) :
    lexer.tokensFrom bound offset cs =
      tokens ++ [.eof (offset + byteLength cs) lexer.file] := by
  induction h generalizing bound with
  | nil offset => cases bound <;> rfl
  | @cons offset kind text rest tokens hne hread _ ih =>
    have hpos := List.length_pos_of_ne_nil hne
    rw [List.length_append] at hb
    obtain ⟨bound, rfl⟩ : ∃ b, bound = b + 1 := ⟨bound - 1, by omega⟩
    have hrest := ih (show rest.length ≤ bound by omega)
    simp only [tokensFrom, hread, splitAt?_append, hrest, List.cons_append, byteLength_append,
      Nat.add_assoc]

theorem tokenize_eq_iff {source : String} {tokens : List Token} :
    lexer.tokenize source = tokens ++ [.eof source.utf8ByteSize lexer.file] ↔
      lexer.Cuts 0 source.toList tokens := by
  have htokens : ∀ {tokens}, lexer.Cuts 0 source.toList tokens →
      lexer.tokenize source = tokens ++ [.eof source.utf8ByteSize lexer.file] := by
    intro tokens h
    rw [tokenize, h.tokensFrom_eq (Nat.le_refl _), Nat.zero_add, byteLength_toList]
  refine ⟨fun h => ?_, htokens⟩
  obtain ⟨tokens', h'⟩ := lexer.exists_cuts 0 source.toList
  obtain rfl : tokens = tokens' := by simpa [h] using htokens h'
  exact h'

theorem exists_tokenize_eq (lexer : Lexer) (source : String) :
    ∃ tokens, lexer.Cuts 0 source.toList tokens ∧
      lexer.tokenize source = tokens ++ [.eof source.utf8ByteSize lexer.file] := by
  obtain ⟨tokens, h⟩ := lexer.exists_cuts 0 source.toList
  exact ⟨tokens, h, tokenize_eq_iff.2 h⟩

/-- Each token stands where the text before it ends. -/
theorem Cuts.mem {offset : Nat} {cs : List Char} {tokens : List Token}
    (h : lexer.Cuts offset cs tokens) {t : Token} (ht : t ∈ tokens) :
    ∃ before kind text rest, cs = before ++ (text ++ rest) ∧ text ≠ [] ∧
      lexer.readToken (text ++ rest) = some ⟨kind, byteLength text⟩ ∧
      t = lexer.tokenAt (offset + byteLength before) ⟨kind, byteLength text⟩ text := by
  induction h with
  | nil => simp at ht
  | @cons offset kind text rest tokens hne hread _ ih =>
    rcases List.mem_cons.1 ht with rfl | ht
    · exact ⟨[], kind, text, rest, rfl, hne, hread, rfl⟩
    · obtain ⟨before, kind', text', rest', rfl, hne', hread', rfl⟩ := ih ht
      exact ⟨text ++ before, kind', text', rest', by simp, hne', hread', by simp [Nat.add_assoc]⟩

theorem reclassify_ne_eof {kind : TokenKind} (h : kind ≠ .eof) (text : String) :
    lexer.reclassify kind text ≠ .eof := by
  cases kind with
  | identifier =>
    cases hk : lexer.vocabulary.keyword? text <;> simp [reclassify, hk]
  | eof => exact absurd rfl h
  | _ => simp [reclassify]

theorem readToken_kind_ne_eof {cs : List Char} {m : Munch} (h : lexer.readToken cs = some m) :
    m.kind ≠ .eof := by
  obtain ⟨n, hn, rfl⟩ := Option.map_eq_some_iff.1 h
  apply reclassify_ne_eof
  rcases Automaton.readToken_cases hn with ⟨p, q, -, -, hkind, -⟩ | ⟨-, hkind, -⟩
  · obtain ⟨s, -, hs⟩ := Option.bind_eq_some_iff.1 hkind
    rw [lexer.automaton_eq] at hs
    exact (Automaton.acceptsOnly_ofVocabulary _ s _ hs).1
  · simp [hkind]

end Lexer

namespace Token

/-! ## Texts and symbols -/

/-- The text of a token, recovered from the source. -/
def lexeme (source : List Char) (t : Token) : List Char := slice t.span.start t.span.stop source

/-- The tokens lie side by side from `start` to `stop`, none of them empty. -/
def Tiles : Nat → List Token → Nat → Prop
  | start, [], stop => start = stop
  | start, t :: ts, stop =>
    t.span.start = start ∧ start < t.span.stop ∧ Tiles t.span.stop ts stop

variable {ts us : List Token} {t u : Token}

/-- The tokens come one behind another, and none is empty. -/
structure InOrder (ts : List Token) : Prop where
  start_lt_stop : ∀ t ∈ ts, t.span.start < t.span.stop
  pairwise : ts.Pairwise fun t u => t.span.stop ≤ u.span.start

theorem Tiles.inOrder {start stop : Nat} (h : Tiles start ts stop) :
    InOrder ts ∧ ∀ t ∈ ts, start ≤ t.span.start := by
  induction ts generalizing start with
  | nil => exact ⟨⟨by simp, .nil⟩, by simp⟩
  | cons t ts ih =>
    obtain ⟨hstart, hlt, htiles⟩ := h
    obtain ⟨⟨hlts, hpairwise⟩, hbehind⟩ := ih htiles
    refine ⟨⟨?_, List.pairwise_cons.2 ⟨hbehind, hpairwise⟩⟩, ?_⟩
    · rw [List.forall_mem_cons]
      exact ⟨by omega, hlts⟩
    · rw [List.forall_mem_cons]
      exact ⟨by omega, fun u hu => by
        have := hbehind u hu
        omega⟩

namespace InOrder

theorem sublist (h : InOrder ts) (hus : us.Sublist ts) : InOrder us :=
  ⟨fun t ht => h.start_lt_stop t (hus.subset ht), h.pairwise.sublist hus⟩

/-- No token lies within another one. -/
theorem eq_of_within (h : InOrder ts) (ht : t ∈ ts) (hu : u ∈ ts)
    (hstart : t.span.start ≤ u.span.start) (hstop : u.span.stop ≤ t.span.stop) : u = t := by
  by_contra hne
  have hapart : ts.Pairwise fun t u =>
      t.span.stop ≤ u.span.start ∨ u.span.stop ≤ t.span.start := h.pairwise.imp .inl
  have : Std.Symm fun t u : Token =>
      t.span.stop ≤ u.span.start ∨ u.span.stop ≤ t.span.start := ⟨fun _ _ hor => hor.symm⟩
  have hcases := hapart.forall hu ht hne
  have htlt := h.start_lt_stop t ht
  have hult := h.start_lt_stop u hu
  omega

theorem nodup_spans (h : InOrder ts) : (ts.map Token.span).Nodup := by
  rw [List.Nodup, List.pairwise_map]
  refine h.pairwise.imp_of_mem fun ht hu hle heq => ?_
  have := h.start_lt_stop _ ht
  rw [heq] at hle this
  omega

/-- The first token starts no later than any other. -/
theorem head_le_start (h : InOrder ts) (ht : ts.head? = some t) (hu : u ∈ ts) :
    t.span.start ≤ u.span.start := by
  obtain ⟨us, rfl⟩ := List.head?_eq_some_iff.1 ht
  rcases List.mem_cons.1 hu with rfl | hu
  · exact Nat.le_refl _
  · have hle := (List.pairwise_cons.1 h.pairwise).1 u hu
    have hlt := h.start_lt_stop t List.mem_cons_self
    omega

/-- The last token stops no earlier than any other. -/
theorem stop_le_getLast (h : InOrder ts) (ht : ts.getLast? = some t) (hu : u ∈ ts) :
    u.span.stop ≤ t.span.stop := by
  obtain ⟨us, rfl⟩ := List.getLast?_eq_some_iff.1 ht
  rcases List.mem_append.1 hu with hu | hu
  · have hle := (List.pairwise_append.1 h.pairwise).2.2 u hu t List.mem_cons_self
    have hlt := h.start_lt_stop t (by simp)
    omega
  · exact Nat.le_of_eq (by rw [List.mem_singleton.1 hu])

end InOrder

/-- The symbol of a token: the number of its text among the texts of all tokens, each of which
counts once. -/
def symbolIn? (tokens : List Token) (t : Token) : Option Nat :=
  t.text.bind (distinctTexts tokens).idxOf?

theorem mem_distinctTexts {tokens : List Token} {t : Token} {text : String} (ht : t ∈ tokens)
    (h : t.text = some text) : text ∈ distinctTexts tokens := by
  rw [distinctTexts, List.mem_eraseDups, List.mem_filterMap]
  exact ⟨t, ht, h⟩

theorem exists_symbolIn?_iff {tokens : List Token} {t : Token} (ht : t ∈ tokens) :
    (∃ i, t.symbolIn? tokens = some i) ↔ ∃ text, t.text = some text := by
  constructor
  · rintro ⟨i, hi⟩
    obtain ⟨text, htext, -⟩ := Option.bind_eq_some_iff.1 hi
    exact ⟨text, htext⟩
  · rintro ⟨text, htext⟩
    have hmem := List.isSome_idxOf?.2 (mem_distinctTexts ht htext)
    obtain ⟨i, hi⟩ := Option.isSome_iff_exists.1 hmem
    exact ⟨i, by rw [symbolIn?, htext, Option.bind_some, hi]⟩

/-- A symbol leads back to the text. -/
theorem getElem?_of_symbolIn? {tokens : List Token} {t : Token} {i : Nat}
    (h : t.symbolIn? tokens = some i) : (distinctTexts tokens)[i]? = t.text := by
  obtain ⟨text, htext, hi⟩ := Option.bind_eq_some_iff.1 h
  obtain ⟨hlt, heq, -⟩ := List.idxOf?_eq_some_iff.1 hi
  rw [htext, List.getElem?_eq_getElem hlt, heq]

/-- Tokens that make up a text: they lie side by side from its start to its end, each takes at
least one character and no part of one, and together their texts are the text. -/
structure Covers (source : String) (tokens : List Token) : Prop where
  tiles : Tiles 0 tokens source.utf8ByteSize
  kind_ne_eof : ∀ t ∈ tokens, t.kind ≠ .eof
  isBoundary_start : ∀ t ∈ tokens, IsBoundary source.toList t.span.start
  isBoundary_stop : ∀ t ∈ tokens, IsBoundary source.toList t.span.stop
  flatten_lexemes : (tokens.map (lexeme source.toList)).flatten = source.toList

/-- Identifiers and literals, and no other tokens, have symbols. A symbol leads to the text of its
token, and two symbols are the same just if the texts are. -/
structure Interned (source : String) (tokens : List Token) : Prop where
  exists_symbol_iff : ∀ t ∈ tokens, (∃ i, t.symbolIn? tokens = some i) ↔
    t.kind ∈ [.identifier, .integerLiteral, .floatLiteral, .characterLiteral, .stringLiteral]
  resolves : ∀ t ∈ tokens, ∀ i, t.symbolIn? tokens = some i →
    (distinctTexts tokens)[i]? = some (.ofList (t.lexeme source.toList))
  symbol_eq_iff : ∀ t ∈ tokens, ∀ u ∈ tokens, ∀ i j, t.symbolIn? tokens = some i →
    u.symbolIn? tokens = some j → (i = j ↔ t.lexeme source.toList = u.lexeme source.toList)

theorem interned_of_text {source : String} {tokens : List Token}
    (h : ∀ t ∈ tokens,
      t.text = if t.kind.hasText then some (.ofList (t.lexeme source.toList)) else none) :
    Interned source tokens := by
  have hresolves : ∀ t ∈ tokens, ∀ i, t.symbolIn? tokens = some i →
      t.text = some (.ofList (t.lexeme source.toList)) := by
    intro t ht i hi
    obtain ⟨text, htext, -⟩ := Option.bind_eq_some_iff.1 hi
    have heq := h t ht
    split at heq
    · exact heq
    · simp [heq] at htext
  refine ⟨?_, ?_, ?_⟩
  · intro t ht
    rw [exists_symbolIn?_iff ht, h t ht]
    cases t.kind <;> simp [TokenKind.hasText, TokenKind.isLiteral]
  · intro t ht i hi
    rw [getElem?_of_symbolIn? hi, hresolves t ht i hi]
  · intro t ht u hu i j hi hj
    have htext := hresolves t ht i hi
    have hutext := hresolves u hu j hj
    constructor
    · rintro rfl
      have heq := (getElem?_of_symbolIn? hi).symm.trans (getElem?_of_symbolIn? hj)
      rw [htext, hutext, Option.some.injEq] at heq
      simpa using congrArg String.toList heq
    · intro heq
      have htu : t.text = u.text := by rw [htext, hutext, heq]
      rw [symbolIn?, htu] at hi
      exact Option.some.inj (hi.symm.trans hj)

end Token

namespace Lexer

variable {lexer : Lexer}

theorem Cuts.tiles {offset : Nat} {cs : List Char} {tokens : List Token}
    (h : lexer.Cuts offset cs tokens) : Token.Tiles offset tokens (offset + byteLength cs) := by
  induction h with
  | nil => rfl
  | @cons offset kind text rest tokens hne _ _ ih =>
    have hpos := byteLength_pos hne
    refine ⟨rfl, by simp only [tokenAt]; omega, ?_⟩
    simpa [tokenAt, Nat.add_assoc] using ih

theorem lexeme_tokenAt (before text rest : List Char) (kind : TokenKind) :
    (lexer.tokenAt (byteLength before) ⟨kind, byteLength text⟩ text).lexeme
      (before ++ (text ++ rest)) = text :=
  slice_append before text rest

theorem Cuts.flatten_lexemes {before cs : List Char} {tokens : List Token}
    (h : lexer.Cuts (byteLength before) cs tokens) :
    (tokens.map (Token.lexeme (before ++ cs))).flatten = cs := by
  generalize hoffset : byteLength before = offset at h
  induction h generalizing before with
  | nil => rfl
  | @cons offset kind text rest tokens _ _ _ ih =>
    subst hoffset
    have hrest := ih (byteLength_append before text)
    rw [List.append_assoc] at hrest
    rw [List.map_cons, List.flatten_cons, hrest, lexeme_tokenAt]

theorem Cuts.covers {source : String} {tokens : List Token}
    (h : lexer.Cuts 0 source.toList tokens) : Token.Covers source tokens := by
  refine ⟨?_, ?_, ?_, ?_, ?_⟩
  · simpa [byteLength_toList] using h.tiles
  · intro t ht
    obtain ⟨before, kind, text, rest, -, -, hread, rfl⟩ := h.mem ht
    exact readToken_kind_ne_eof hread
  · intro t ht
    obtain ⟨before, kind, text, rest, hsource, -, -, rfl⟩ := h.mem ht
    exact ⟨before, text ++ rest, hsource, by simp [tokenAt]⟩
  · intro t ht
    obtain ⟨before, kind, text, rest, hsource, -, -, rfl⟩ := h.mem ht
    exact ⟨before ++ text, rest, by simp [hsource], by simp [tokenAt]⟩
  · have h' : lexer.Cuts (byteLength []) source.toList tokens := h
    simpa using h'.flatten_lexemes

theorem Cuts.text_eq {source : String} {tokens : List Token}
    (h : lexer.Cuts 0 source.toList tokens) {t : Token} (ht : t ∈ tokens) :
    t.text = if t.kind.hasText then some (.ofList (t.lexeme source.toList)) else none := by
  obtain ⟨before, kind, text, rest, hsource, -, -, rfl⟩ := h.mem ht
  rw [hsource, Nat.zero_add, lexeme_tokenAt]
  rfl

/-- The tokens cover the text, and one empty end of input follows them. The spans lie within the
text, so that they fit into the same words as its length. -/
theorem tokenize_lossless (lexer : Lexer) (source : String) :
    ∃ tokens, lexer.tokenize source = tokens ++ [.eof source.utf8ByteSize lexer.file] ∧
      Token.Covers source tokens ∧ Token.Interned source (lexer.tokenize source) := by
  obtain ⟨tokens, hcuts, htokens⟩ := lexer.exists_tokenize_eq source
  refine ⟨tokens, htokens, hcuts.covers, Token.interned_of_text ?_⟩
  intro t ht
  rw [htokens, List.mem_append, List.mem_singleton] at ht
  rcases ht with ht | rfl
  · exact hcuts.text_eq ht
  · rfl

end Lexer

end Sable
