import Sable.Proofs.Automaton.Respelling
import Sable.Proofs.Token.StandardLexemes
import Sable.Proofs.Token.Tokenization

/-!
# The texts of numbers

Whatever the vocabulary, a number begins with a digit: signs, comments, words and quoted literals
lead to places where no number ends. And behind a digit, the automaton is in the part of numbers. So
the texts that make a number are those of the standard vocabulary.

## Main statements

* `Automaton.isDigit_of_kindOf?`: the first character of a number.
* `Lexer.lexeme_number`: the text of a number token.
-/
namespace Sable

open Automaton Lexeme Text

/-- The kinds of numbers. -/
def TokenKind.IsNumber (kind : TokenKind) : Prop := kind = .integerLiteral ∨ kind = .floatLiteral

namespace Automaton

variable {v : Vocabulary} {c : Char} {cs : List Char} {kind : TokenKind}

theorem signKind?_not_isNumber {ps : List Punctuator} {w : List Char}
    (h : signKind? v ps w = some kind) : ¬kind.IsNumber := by
  rw [signKind?, Option.or_eq_some_iff] at h
  rcases h with h | ⟨-, h⟩
  · obtain ⟨p, -, rfl⟩ := Option.map_eq_some_iff.1 h
    simp [TokenKind.IsNumber]
  · split at h
    · rw [← Option.some.inj h]
      simp [TokenKind.IsNumber]
    · simp at h

/-- No number ends in a part without places of numbers. -/
theorem Part.Within.not_isNumber {σ : Type} {part : Part σ} {place : σ → StateId} {a : Automaton}
    (h : part.Within a place) (hpart : ∀ t k, (part t).accepting = some k → ¬k.IsNumber) {s : σ}
    (hkind : a.kindFrom? (place s) cs = some kind) : ¬kind.IsNumber := by
  obtain ⟨t, ht⟩ := h.exists_accepting hkind
  exact hpart t kind ht

theorem Quoted.not_isNumber {quote : Char} {own : TokenKind} (hown : ¬own.IsNumber) (t : Quoted)
    (k : TokenKind) (h : (Quoted.part quote own t).accepting = some k) : ¬k.IsNumber := by
  cases t with
  | close => exact Option.some.inj h ▸ hown
  | body | escape => simp [Quoted.part] at h

theorem Comment.not_isNumber (t : Comment) (k : TokenKind)
    (h : (Comment.part t).accepting = some k) : ¬k.IsNumber := by
  cases t <;> simp only [Comment.part, Option.some.injEq, reduceCtorEq] at h <;> subst h <;>
    simp [TokenKind.IsNumber]

theorem Word.not_isNumber (t : Word) (k : TokenKind) (h : (Word.part t).accepting = some k) :
    ¬k.IsNumber := by
  cases t
  simp only [Word.part, Option.some.injEq] at h
  subst h
  simp [TokenKind.IsNumber]

/-- A text without a literal or a comment at its beginning is no number. -/
theorem not_isNumber_of_isBare (hbare : IsBare (c :: cs))
    (h : (ofVocabulary v).kindOf? (c :: cs) = some kind) : ¬kind.IsNumber := by
  obtain ⟨l⟩ := exists_layers v
  obtain ⟨hdigit, hquote⟩ := hbare.1 c rfl
  by_cases hedge : ((base v).transition root c).isSome
  · rw [kindOf?_of_isBare hbare hedge] at h
    exact signKind?_not_isNumber h
  · -- what begins nothing else begins a word
    rw [Option.not_isSome_iff_eq_none] at hedge
    obtain ⟨r, state, hstate, -, hr, -, hedges⟩ := l.exists_root
    have hbase : state.edge? c = none := by
      rw [transition, hstate, Option.bind_some, (mute_base v root state hstate).1,
        Option.orElse_eq_orElse, Option.orElse_eq_or, Option.or_none] at hedge
      exact hedge
    have hquotes : c ≠ '"' ∧ c ≠ '\'' := by
      constructor <;> rintro rfl <;> simp [isQuote] at hquote
    have hnone : r.edge? c = none := by
      rw [hedges, if_neg hquotes.1, if_neg hquotes.2, if_neg (by rwa [mem_digits]), hbase]
    rw [kindOf?, kindFrom?_cons (l.transition_of_edge?_eq_none hr hnone)] at h
    exact l.word_within.not_isNumber Word.not_isNumber h

/-- A number begins with a digit. -/
theorem isDigit_of_kindOf? (h : (ofVocabulary v).kindOf? (c :: cs) = some kind)
    (hkind : kind.IsNumber) : c.isDigit := by
  obtain ⟨l⟩ := exists_layers v
  by_contra hdigit
  have hquote : ¬isQuote c := by
    intro hquote
    obtain rfl | rfl : c = '\'' ∨ c = '"' := by simpa [isQuote] using hquote
    · rw [kindOf?, kindFrom?_cons l.transition_apostrophe] at h
      exact l.character_within.not_isNumber (Quoted.not_isNumber (by simp [TokenKind.IsNumber])) h
        hkind
    · rw [kindOf?, kindFrom?_cons l.transition_quote] at h
      exact l.string_within.not_isNumber (Quoted.not_isNumber (by simp [TokenKind.IsNumber])) h
        hkind
  have hcomment : ∀ {next place rest}, (ofVocabulary v).transition (slash v) next =
      some (l.comment place) → c :: cs ≠ '/' :: next :: rest := by
    rintro next place rest hnext heq
    rw [heq, kindOf?, kindFrom?_cons l.transition_slash, kindFrom?_cons hnext] at h
    exact l.comment_within.not_isNumber Comment.not_isNumber h hkind
  refine not_isNumber_of_isBare ⟨fun d hd => ?_, ?_, ?_⟩ h hkind
  · exact Option.some.inj hd ▸ ⟨hdigit, hquote⟩
  · rintro ⟨rest, heq⟩
    exact hcomment l.transition_slash_slash heq.symm
  · rintro ⟨rest, heq⟩
    exact hcomment l.transition_slash_star heq.symm

/-- The texts of numbers are those of the standard vocabulary. -/
theorem mem_lexemes_of_kindOf? (hne : cs ≠ []) (h : (ofVocabulary v).kindOf? cs = some kind)
    (hkind : kind.IsNumber) : cs ∈ kind.lexemes := by
  obtain ⟨l⟩ := exists_layers v
  cases cs with
  | nil => exact absurd rfl hne
  | cons c cs =>
    have hdigit := isDigit_of_kindOf? h hkind
    rw [kindOf?, kindFrom?_cons (l.transition_digit ((mem_digits c).2 hdigit))] at h
    rw [TokenKind.cons_mem_lexemes_of_isDigit hdigit]
    exact (Numeric.solves_integer.kindFrom?_iff_or Numeric.solves_float l.numeric_within
      (by rintro (_ | _) k h <;> simp_all [Numeric.part]) .integer cs).1 h

end Automaton

namespace Lexer

variable {lexer : Lexer} {source : String} {t : Token}

/-- What is read as a number is a number of the standard vocabulary. -/
theorem mem_lexemes_of_readToken {text rest : List Char} {kind : TokenKind} (hne : text ≠ [])
    (h : lexer.readToken (text ++ rest) = some ⟨kind, byteLength text⟩) (hkind : kind.IsNumber) :
    text ∈ kind.lexemes := by
  obtain ⟨found, hread, hfound⟩ := readToken_append_eq_iff.1 h
  obtain rfl : found = kind := by
    cases found with
    | identifier =>
      cases hword : lexer.vocabulary.keyword? (.ofList text) <;>
        rcases hkind with rfl | rfl <;> simp [reclassify, hword] at hfound
    | _ => exact hfound
  rw [lexer.automaton_eq] at hread
  rcases Automaton.readToken_cases hread with ⟨p, q, hpq, hp, hkindOf, hlength, -⟩ | ⟨-, hother, -⟩
  · obtain rfl : p = text := by
      have hsplit := splitAt?_append p q
      rw [← hpq, ← hlength, splitAt?_append] at hsplit
      exact (congrArg Prod.fst (Option.some.inj hsplit)).symm
    exact mem_lexemes_of_kindOf? hne hkindOf hkind
  · rcases hkind with rfl | rfl <;> simp at hother

/-- The text of a number token is a number of the standard vocabulary. -/
theorem lexeme_number (ht : t ∈ lexer.tokenize source) (hkind : t.kind.IsNumber) :
    t.lexeme source.toList ∈ t.kind.lexemes := by
  obtain ⟨tokens, hcuts, htokens⟩ := lexer.exists_tokenize_eq source
  rw [htokens, List.mem_append, List.mem_singleton] at ht
  rcases ht with ht | rfl
  · obtain ⟨before, kind, text, rest, hsource, hne, hread, rfl⟩ := hcuts.mem ht
    rw [hsource, Nat.zero_add, lexeme_tokenAt]
    exact mem_lexemes_of_readToken hne hread hkind
  · simp [Token.eof, TokenKind.IsNumber] at hkind

end Lexer

end Sable
