import Sable.Proofs.Automaton.Signs

/-!
# The lexical grammar of the standard vocabulary

The automaton of the standard vocabulary accepts a text as a token of some kind exactly if the text
is one of the kind's lexemes, so no text is a lexeme of two kinds. Reading cuts the longest lexeme
off an input. An input that begins with no lexeme begins with a quote, or with a bar that stands
alone.

## Main definitions

* `LongestLexeme`: the longest lexeme at the beginning of an input.
* `Unreadable`: what is cut off where no lexeme is.

## Main statements

* `Automaton.kindOf?_standard`: a text is accepted as what it is a lexeme of.
* `Automaton.readToken_standard`: what is read of an input.
-/
namespace Sable

open Lexeme Text
open scoped Computability

/-! ## First characters -/

theorem Lexeme.isSignStart_spec {c : Char} (h : isSignStart c) :
    isBlank c = false ∧ c.isDigit = false ∧ isQuote c = false := by
  have hall : ∀ p : Punctuator, ∀ c ∈ p.spelling.toList.head?,
      isBlank c = false ∧ c.isDigit = false ∧ isQuote c = false := by
    intro p c hc
    cases p <;> cases hc <;> decide
  simp only [isSignStart, List.any_eq_true, beq_iff_eq] at h
  obtain ⟨p, -, hp⟩ := h
  exact hall p c hp

theorem Lexeme.isSignStart_of_cons_eq {c : Char} {cs : List Char} {p : Punctuator}
    (h : c :: cs = p.spelling.toList) : isSignStart c := by
  simp only [isSignStart, List.any_eq_true, beq_iff_eq]
  exact ⟨p, p.mem_all, by rw [← h]; rfl⟩

namespace TokenKind

variable {c : Char} {cs : List Char} {kind : TokenKind}

theorem mem_lexemes_punctuator {p : Punctuator} :
    cs ∈ (punctuator p).lexemes ↔ cs = p.spelling.toList := Iff.rfl

/-- No lexeme is empty. -/
theorem nil_notMem_lexemes (kind : TokenKind) : [] ∉ kind.lexemes := by
  cases kind with
  | punctuator p =>
    rw [mem_lexemes_punctuator]
    cases p <;> decide
  | _ => simp [lexemes, digitRun, mul_assoc]

/-- What a lexeme that begins with a blank is. -/
theorem cons_mem_lexemes_of_isBlank (hc : isBlank c) :
    c :: cs ∈ kind.lexemes ↔ kind = .whitespace ∧ cs ∈ (chars isBlank)∗ := by
  have hfirst : c ≠ '/' ∧ c ≠ '\'' ∧ c ≠ '"' ∧ c.isDigit = false ∧ isSignStart c = false := by
    simp only [isBlank, Bool.or_eq_true, beq_iff_eq] at hc
    rcases hc with ((rfl | rfl) | rfl) | rfl <;> decide
  cases kind with
  | punctuator p =>
    rw [mem_lexemes_punctuator]
    simpa using fun h => absurd (isSignStart_of_cons_eq h) (by simp [hfirst])
  | _ => simp [lexemes, digitRun, mul_assoc, isWordStart, hfirst, hc]

theorem cons_mem_lexemes_of_isDigit (hc : c.isDigit) :
    c :: cs ∈ kind.lexemes ↔ kind = .integerLiteral ∧ cs ∈ (chars Char.isDigit)∗ ∨
      kind = .floatLiteral ∧ cs ∈ (chars Char.isDigit)∗ *
        (only '.' * (digitRun * (exponentPart * optional (only 'f')))) := by
  have hfirst : c ≠ '/' ∧ c ≠ '\'' ∧ c ≠ '"' ∧ isBlank c = false ∧ isSignStart c = false := by
    have hne : ∀ d : Char, d.isDigit = false → c ≠ d := by
      rintro d hd rfl
      exact absurd hc (by simp [hd])
    have hblank : isBlank c = false := by
      simp [isBlank, hne ' ' rfl, hne '\t' rfl, hne '\n' rfl, hne '\r' rfl]
    have hsign : isSignStart c = false :=
      Bool.eq_false_iff.2 fun h => absurd hc (by simp [(isSignStart_spec h).2.1])
    exact ⟨hne '/' rfl, hne '\'' rfl, hne '"' rfl, hblank, hsign⟩
  cases kind with
  | punctuator p =>
    rw [mem_lexemes_punctuator]
    simpa using fun h => absurd (isSignStart_of_cons_eq h) (by simp [hfirst])
  | _ => simp [lexemes, digitRun, mul_assoc, isWordStart, hfirst, hc]

theorem cons_mem_lexemes_of_isWordStart (hc : isWordStart c) :
    c :: cs ∈ kind.lexemes ↔ kind = .identifier ∧ cs ∈ (chars isWordChar)∗ := by
  have hnot := hc
  simp only [isWordStart, Bool.and_eq_true, Bool.not_eq_true', isQuote, Bool.or_eq_false_iff,
    beq_eq_false_iff_ne] at hnot
  have hslash : c ≠ '/' := by rintro rfl; revert hc; decide
  cases kind with
  | punctuator p =>
    rw [mem_lexemes_punctuator]
    simpa using fun h => absurd (isSignStart_of_cons_eq h) (by simp [hnot])
  | _ => simp [lexemes, digitRun, mul_assoc, hslash, hnot, hc]

theorem apostrophe_mem_lexemes :
    '\'' :: cs ∈ kind.lexemes ↔ kind = .characterLiteral ∧ cs ∈ content '\'' * only '\'' := by
  cases kind with
  | punctuator p =>
    rw [mem_lexemes_punctuator]
    simpa using fun h => absurd (isSignStart_of_cons_eq h) (by decide)
  | _ => simp [lexemes, digitRun, mul_assoc, isWordStart, isQuote, isBlank]

theorem quote_mem_lexemes :
    '"' :: cs ∈ kind.lexemes ↔ kind = .stringLiteral ∧ cs ∈ content '"' * only '"' := by
  cases kind with
  | punctuator p =>
    rw [mem_lexemes_punctuator]
    simpa using fun h => absurd (isSignStart_of_cons_eq h) (by decide)
  | _ => simp [lexemes, digitRun, mul_assoc, isWordStart, isQuote, isBlank]

theorem cons_mem_lexemes_of_isSignStart (hc : isSignStart c) :
    c :: cs ∈ kind.lexemes ↔ (∃ p, kind = .punctuator p ∧ c :: cs = p.spelling.toList) ∨
      kind = .singleLineComment ∧ c = '/' ∧
        cs ∈ only '/' * (chars fun c => c != '\r' && c != '\n')∗ ∨
      kind = .multiLineComment ∧ c = '/' ∧ cs ∈ only '*' * blockEnd := by
  obtain ⟨hblank, hdigit, hquote⟩ := isSignStart_spec hc
  have hquotes := hquote
  simp only [isQuote, Bool.or_eq_false_iff, beq_eq_false_iff_ne] at hquotes
  cases kind with
  | punctuator p => simp [mem_lexemes_punctuator]
  | _ => simp [lexemes, digitRun, mul_assoc, isWordStart, hblank, hdigit, hquotes, hc]

theorem slash_slash_mem_lexemes : '/' :: '/' :: cs ∈ kind.lexemes ↔
    kind = .singleLineComment ∧ cs ∈ (chars fun c => c != '\r' && c != '\n')∗ := by
  have hsign : ∀ p : Punctuator, '/' :: '/' :: cs ≠ p.spelling.toList := by
    intro p
    cases p <;> simp [Punctuator.spelling]
  rw [cons_mem_lexemes_of_isSignStart (by decide)]
  simp [hsign]

theorem slash_star_mem_lexemes : '/' :: '*' :: cs ∈ kind.lexemes ↔
    kind = .multiLineComment ∧ cs ∈ blockEnd := by
  have hsign : ∀ p : Punctuator, '/' :: '*' :: cs ≠ p.spelling.toList := by
    intro p
    cases p <;> simp [Punctuator.spelling]
  rw [cons_mem_lexemes_of_isSignStart (by decide)]
  simp [hsign]

/-- The lexemes that begin with the first character of a sign are signs and comments. -/
theorem sign_or_comment (hc : isSignStart c) (h : c :: cs ∈ kind.lexemes) :
    (∃ p, kind = .punctuator p ∧ c :: cs = p.spelling.toList) ∨
      c = '/' ∧ ∃ d u, (d = '/' ∨ d = '*') ∧ cs = d :: u := by
  rcases (cons_mem_lexemes_of_isSignStart hc).1 h with hp | ⟨-, rfl, hcs⟩ | ⟨-, rfl, hcs⟩
  · exact .inl hp
  all_goals
    cases cs with
    | nil => simp at hcs
    | cons d u => exact .inr ⟨rfl, d, u, by simp at hcs; simp [hcs.1], rfl⟩

end TokenKind

namespace Automaton

variable {kind : TokenKind}

/-! ## What is accepted -/

theorem Run.solves : Part.Solves Run.part .whitespace fun _ => (chars isBlank)∗ where
  nil s := by cases s; simp [part]
  cons s c cs := by
    cases s
    simp only [part, Part.next, target?, mem_blanks]
    split
    · next h =>
      refine ⟨fun hcs => ⟨.blanks, rfl, (cons_mem_kstar.1 hcs).2⟩, ?_⟩
      rintro ⟨_, _, hcs⟩
      exact cons_mem_kstar.2 ⟨h, hcs⟩
    · next h => simp [h]

/-- A part of one kind accepts the language of that kind. -/
theorem Part.Solves.kindFrom?_iff {σ : Type} {part : Part σ} {place : σ → StateId} {a : Automaton}
    {own : TokenKind} {L : σ → Language Char} (hL : part.Solves own L) (h : part.Within a place)
    (hown : ∀ t k, (part t).accepting = some k → k = own) (s : σ) (cs : List Char) :
    a.kindFrom? (place s) cs = some kind ↔ kind = own ∧ cs ∈ L s := by
  constructor
  · intro hkind
    obtain ⟨t, ht⟩ := h.exists_accepting hkind
    obtain rfl := hown t kind ht
    exact ⟨rfl, (hL.kindFrom? h s cs).1 hkind⟩
  · rintro ⟨rfl, hcs⟩
    exact (hL.kindFrom? h s cs).2 hcs

/-- A part of two kinds accepts the languages of both. -/
theorem Part.Solves.kindFrom?_iff_or {σ : Type} {part : Part σ} {place : σ → StateId} {a : Automaton}
    {k₁ k₂ : TokenKind} {L₁ L₂ : σ → Language Char} (h₁ : part.Solves k₁ L₁)
    (h₂ : part.Solves k₂ L₂) (h : part.Within a place)
    (hown : ∀ t k, (part t).accepting = some k → k = k₁ ∨ k = k₂) (s : σ) (cs : List Char) :
    a.kindFrom? (place s) cs = some kind ↔ kind = k₁ ∧ cs ∈ L₁ s ∨ kind = k₂ ∧ cs ∈ L₂ s := by
  constructor
  · intro hkind
    obtain ⟨t, ht⟩ := h.exists_accepting hkind
    rcases hown t kind ht with rfl | rfl
    · exact .inl ⟨rfl, (h₁.kindFrom? h s cs).1 hkind⟩
    · exact .inr ⟨rfl, (h₂.kindFrom? h s cs).1 hkind⟩
  · rintro (⟨rfl, hcs⟩ | ⟨rfl, hcs⟩)
    · exact (h₁.kindFrom? h s cs).2 hcs
    · exact (h₂.kindFrom? h s cs).2 hcs

variable (l : Layers .standard standard)

theorem kindFrom?_comment (s : Comment) (cs : List Char) :
    standard.kindFrom? (l.comment s) cs = some kind ↔
      kind = .singleLineComment ∧ cs ∈ Comment.lines s ∨
        kind = .multiLineComment ∧ cs ∈ Comment.blocks s :=
  Comment.solves_line.kindFrom?_iff_or Comment.solves_block l.comment_within
    (by rintro (_ | _) k h <;> simp_all [Comment.part]) s cs

theorem isSignStart_of_isStem {c : Char} {w : List Char} (h : isStem (c :: w)) : isSignStart c :=
  isSignStart_iff.2 (isStem_of_append (List.cons_ne_nil c []) (u := w) h)

/-- Signs do not begin as comments do. -/
theorem not_isStem_comment {c : Char} {w : List Char} (hc : c = '/' ∨ c = '*') :
    ¬ isStem ('/' :: c :: w) := by
  intro h
  have hshort : isStem ['/', c] := isStem_of_append (List.cons_ne_nil _ _) (u := w) h
  rcases hc with rfl | rfl <;> revert hshort <;> decide

theorem mem_lexemes_of_isStem {w : List Char} (hw : isStem w) :
    w ∈ kind.lexemes ↔ ∃ p, kind = .punctuator p ∧ w = p.spelling.toList := by
  cases w with
  | nil => simp [isStem] at hw
  | cons c w =>
    have hc := isSignStart_of_isStem hw
    constructor
    · intro h
      rcases TokenKind.sign_or_comment hc h with hp | ⟨rfl, d, u, hd, rfl⟩
      · exact hp
      · exact absurd hw (not_isStem_comment hd)
    · rintro ⟨p, rfl, hp⟩
      exact hp

include l in
theorem walkFrom_slash : standard.walkFrom root ['/'] = some (slash .standard) := by
  simp [l.transition_slash]

include l in
/-- A lexeme goes on behind a stem only where there is an edge. -/
theorem transition_ne_none {w u : List Char} {s : StateId} {c : Char} (hw : isStem w)
    (hs : standard.walkFrom root w = some s) (h : w ++ c :: u ∈ kind.lexemes) :
    standard.transition s c ≠ none := by
  intro hstuck
  cases w with
  | nil => simp [isStem] at hw
  | cons d w =>
    rcases TokenKind.sign_or_comment (isSignStart_of_isStem hw) h with
      ⟨p, -, hp⟩ | ⟨rfl, e, v, he, hv⟩
    · have hlonger : isStem (d :: w ++ [c]) := by
        refine isStem_of_append (by simp) (u := u) ?_
        have hp : d :: w ++ c :: u = p.spelling.toList := hp
        rw [List.append_assoc, List.singleton_append, hp]
        exact isStem_spelling p
      obtain ⟨t, -, ht, -⟩ := stem_spec hlonger
      rw [walkFrom_append, hs] at ht
      simp [hstuck] at ht
    · cases w with
      | nil =>
        obtain rfl : slash .standard = s := Option.some.inj ((walkFrom_slash l).symm.trans hs)
        obtain ⟨rfl, rfl⟩ := List.cons.inj hv
        rcases he with rfl | rfl
        · exact absurd (hstuck.symm.trans l.transition_slash_slash) (by simp)
        · exact absurd (hstuck.symm.trans l.transition_slash_star) (by simp)
      | cons f w =>
        obtain ⟨rfl, -⟩ := List.cons.inj hv
        exact not_isStem_comment he hw

include l in
/-- Behind a stem, a sign or a comment is completed. -/
theorem kindFrom?_stem {w u : List Char} {s : StateId} (hw : isStem w)
    (hs : standard.walkFrom root w = some s) :
    standard.kindFrom? s u = some kind ↔ w ++ u ∈ kind.lexemes := by
  induction u generalizing w s with
  | nil =>
    obtain ⟨t, state, ht, hstate, -, haccepting, -⟩ := stem_spec hw
    obtain rfl : t = s := Option.some.inj (ht.symm.trans hs)
    rw [kindFrom?_nil, List.append_nil, mem_lexemes_of_isStem hw, accepting?, hstate,
      Option.bind_some, haccepting, Option.map_eq_some_iff]
    simp only [signOf?_eq_some_iff]
    exact exists_congr fun p => and_comm.trans (and_congr_left' eq_comm)
  | cons c u ih =>
    cases hnext : standard.transition s c with
    | none =>
      have hstuck : standard.kindFrom? s (c :: u) = none := by simp [kindFrom?, hnext]
      simpa [hstuck] using fun h => transition_ne_none l hw hs h hnext
    | some t =>
      rw [kindFrom?_cons hnext]
      obtain ⟨s', state, hs', hstate, hotherwise, -, hedges⟩ := stem_spec hw
      obtain rfl : s' = s := Option.some.inj (hs'.symm.trans hs)
      have hedge : state.edge? c = some t := by
        simpa [transition, hstate, hotherwise] using hnext
      obtain ⟨before, after, hmem, -⟩ := List.lookup_eq_some_iff.1 hedge
      rcases hedges (c, t) (by simp [hmem]) with hlonger | ⟨rfl, hc⟩
      · have ht : standard.walkFrom root (w ++ [c]) = some t := by
          rw [walkFrom_append, hs]
          simp [hnext]
        simpa using ih hlonger ht
      · obtain rfl : slash .standard = s' := Option.some.inj ((walkFrom_slash l).symm.trans hs)
        rcases hc with hc | hc
        all_goals obtain rfl : c = _ := hc
        · obtain rfl := Option.some.inj (l.transition_slash_slash.symm.trans hnext)
          rw [kindFrom?_comment]
          exact TokenKind.slash_slash_mem_lexemes.trans (by simp [Comment.lines, Comment.blocks]) |>.symm
        · obtain rfl := Option.some.inj (l.transition_slash_star.symm.trans hnext)
          rw [kindFrom?_comment]
          exact TokenKind.slash_star_mem_lexemes.trans (by simp [Comment.lines, Comment.blocks]) |>.symm

/-! ## What a text is -/

/-- The automaton accepts a text as what it is a lexeme of. -/
theorem kindOf?_standard (cs : List Char) :
    standard.kindOf? cs = some kind ↔ cs ∈ kind.lexemes := by
  obtain ⟨l⟩ : Nonempty (Layers .standard standard) := standard_eq ▸ exists_layers .standard
  cases cs with
  | nil =>
    have hroot : standard.kindOf? [] = none := accepting?_root
    simp [hroot, TokenKind.nil_notMem_lexemes]
  | cons c cs =>
    by_cases hblank : isBlank c
    · rw [kindOf?, kindFrom?_cons (transition_root_of_isBlank hblank),
        TokenKind.cons_mem_lexemes_of_isBlank hblank]
      exact Run.solves.kindFrom?_iff run_within (by simp [Run.part, eq_comm]) .blanks cs
    by_cases hdigit : c.isDigit
    · rw [kindOf?, kindFrom?_cons (l.transition_digit ((mem_digits c).2 hdigit)),
        TokenKind.cons_mem_lexemes_of_isDigit hdigit]
      exact Numeric.solves_integer.kindFrom?_iff_or Numeric.solves_float l.numeric_within
        (by rintro (_ | _) k h <;> simp_all [Numeric.part]) .integer cs
    by_cases hquote : isQuote c
    · simp only [isQuote, Bool.or_eq_true, beq_iff_eq] at hquote
      rcases hquote with rfl | rfl
      · rw [kindOf?, kindFrom?_cons l.transition_apostrophe, TokenKind.apostrophe_mem_lexemes]
        exact (Quoted.solves (by decide)).kindFrom?_iff l.character_within
          (by rintro (_ | _) k h <;> simp_all [Quoted.part]) .body cs
      · rw [kindOf?, kindFrom?_cons l.transition_quote, TokenKind.quote_mem_lexemes]
        exact (Quoted.solves (by decide)).kindFrom?_iff l.string_within
          (by rintro (_ | _) k h <;> simp_all [Quoted.part]) .body cs
    by_cases hsign : isSignStart c
    · have hstem := isSignStart_iff.1 hsign
      obtain ⟨s, -, hs, -⟩ := stem_spec hstem
      have hnext : standard.transition root c = some s := by simpa using hs
      rw [kindOf?, kindFrom?_cons hnext]
      exact kindFrom?_stem l hstem hs
    · have hword : isWordStart c := by simp [isWordStart, hblank, hdigit, hquote, hsign]
      obtain ⟨state, hstate, hedge⟩ := exists_root_edge?_eq_none hword
      rw [kindOf?, kindFrom?_cons (l.transition_of_edge?_eq_none hstate hedge),
        TokenKind.cons_mem_lexemes_of_isWordStart hword]
      exact Word.solves.kindFrom?_iff l.word_within (by rintro ⟨⟩ k h; simp_all [Word.part]) .word cs

/-- No text is a lexeme of two kinds. -/
theorem lexemes_disjoint {cs : List Char} {kind kind' : TokenKind} (h : cs ∈ kind.lexemes)
    (h' : cs ∈ kind'.lexemes) : kind = kind' :=
  Option.some.inj (((kindOf?_standard cs).2 h).symm.trans ((kindOf?_standard cs).2 h'))

end Automaton

/-! ## What is read -/

/-- `m` cuts the longest lexeme off `cs`. -/
def LongestLexeme (cs : List Char) (m : Munch) : Prop :=
  ∃ p q, cs = p ++ q ∧ p ∈ m.kind.lexemes ∧ m.length = byteLength p ∧
    ∀ p' q' kind, cs = p' ++ q' → p' ∈ TokenKind.lexemes kind → p'.length ≤ p.length

/-- No lexeme is at the beginning of `cs`. -/
def NoLexeme (cs : List Char) : Prop := ∀ p q kind, cs = p ++ q → p ∉ TokenKind.lexemes kind

/-- What is cut off, in front of `q`, where there is no lexeme: a bar that stands alone, or a
quoted literal up to a backslash that does not begin an escape, or all of one that is not closed. -/
inductive Unreadable : List Char → List Char → Prop
  | bar {q : List Char} (hq : q.head? ≠ some '|') : Unreadable ['|'] q
  | escape {quote : Char} {u q : List Char} (hquote : isQuote quote) (hu : u ∈ content quote)
      (hq : ∀ c ∈ q.head?, ¬ isEscape c) : Unreadable (quote :: (u ++ ['\\'])) q
  | unclosed {quote : Char} {u : List Char} (hquote : isQuote quote) (hu : u ∈ content quote) :
      Unreadable (quote :: u) []

theorem Lexeme.nil_mem_content (quote : Char) : [] ∈ content quote := nil_mem_kstar

theorem Lexeme.cons_mem_content {quote c : Char} {u : List Char} (hquote : c ≠ quote)
    (hc : c ≠ '\\') (hu : u ∈ content quote) : c :: u ∈ content quote := by
  have h : c :: u ∈ content quote * 1 := cons_mem_content_mul.2 (.inr (.inl ⟨⟨hquote, hc⟩, by simpa⟩))
  simpa using h

theorem Lexeme.escape_mem_content {quote c : Char} {u : List Char} (hc : isEscape c)
    (hu : u ∈ content quote) : '\\' :: c :: u ∈ content quote := by
  have h : '\\' :: c :: u ∈ content quote * 1 :=
    cons_mem_content_mul.2 (.inr (.inr ⟨rfl, cons_mem_chars_mul.2 ⟨hc, by simpa⟩⟩))
  simpa using h

namespace Automaton

section

variable {a : Automaton} {quote : Char} {kind : TokenKind} {place : Quoted → StateId}

/-- How the walk over a quoted literal ends: at its end, behind a backslash, or with the input. -/
theorem Quoted.reaches_body (h : (Quoted.part quote kind).Within a place) :
    ∀ cs, (∃ u q, cs = u ++ quote :: q ∧ u ∈ content quote) ∨
      (∃ u q, cs = u ++ '\\' :: q ∧ u ∈ content quote ∧ (∀ c ∈ q.head?, ¬ isEscape c) ∧
        a.Reaches (place .body) cs (u ++ ['\\'])) ∨
      cs ∈ content quote ∧ a.Reaches (place .body) cs cs
  | [] => .inr (.inr ⟨nil_mem_content quote, reaches_nil _⟩)
  | c :: cs => by
    have hstep := h.transition .body c
    simp only [Part.next, Quoted.part, target?, List.mem_singleton] at hstep
    by_cases hc : c = '\\'
    · subst hc
      simp only [if_true, Option.map_some] at hstep
      cases cs with
      | nil =>
        exact .inr (.inl ⟨[], [], rfl, nil_mem_content quote, by simp, (reaches_nil _).cons hstep⟩)
      | cons d cs =>
        have hescape := h.transition .escape d
        simp only [Part.next, Quoted.part, target?, mem_escapes] at hescape
        by_cases hd : isEscape d
        · simp only [hd, if_true, Option.map_some] at hescape
          rcases Quoted.reaches_body h cs with ⟨u, q, rfl, hu⟩ | ⟨u, q, rfl, hu, hq, hreach⟩ |
            ⟨hu, hreach⟩
          · exact .inl ⟨'\\' :: d :: u, q, rfl, escape_mem_content hd hu⟩
          · exact .inr (.inl ⟨'\\' :: d :: u, q, rfl, escape_mem_content hd hu, hq,
              (hreach.cons hescape).cons hstep⟩)
          · exact .inr (.inr ⟨escape_mem_content hd hu, (hreach.cons hescape).cons hstep⟩)
        · simp only [hd] at hescape
          exact .inr (.inl ⟨[], d :: cs, rfl, nil_mem_content quote, by simpa using hd,
            (reaches_of_transition_eq_none hescape cs).cons hstep⟩)
    · by_cases hq : c = quote
      · exact .inl ⟨[], cs, by rw [hq]; rfl, nil_mem_content quote⟩
      · simp only [hc, hq, if_false, Option.map_some] at hstep
        rcases Quoted.reaches_body h cs with ⟨u, q, rfl, hu⟩ | ⟨u, q, rfl, hu, hq', hreach⟩ |
          ⟨hu, hreach⟩
        · exact .inl ⟨c :: u, q, rfl, cons_mem_content hq hc hu⟩
        · exact .inr (.inl ⟨c :: u, q, rfl, cons_mem_content hq hc hu, hq', hreach.cons hstep⟩)
        · exact .inr (.inr ⟨cons_mem_content hq hc hu, hreach.cons hstep⟩)

end

theorem noneFrom_iff {cs : List Char} : standard.NoneFrom root cs ↔ NoLexeme cs := by
  constructor
  · intro h p q kind hpq hp
    have hne : p ≠ [] := by
      rintro rfl
      exact kind.nil_notMem_lexemes hp
    exact absurd ((h p q hpq hne).symm.trans ((kindOf?_standard p).2 hp)) (by simp)
  · intro h p q hpq _
    cases hk : standard.kindFrom? root p with
    | none => rfl
    | some kind => exact absurd ((kindOf?_standard p).1 hk) (h p q kind hpq)

theorem longest_iff {cs : List Char} {m : Munch} : standard.Longest cs m ↔ LongestLexeme cs m := by
  constructor
  · rintro ⟨p, q, hpq, -, hkind, hlength, hmax⟩
    refine ⟨p, q, hpq, (kindOf?_standard p).1 hkind, hlength, ?_⟩
    intro p' q' kind hpq' hp'
    by_contra hlt
    have hnone := hmax p' q' hpq' (by omega)
    exact absurd (hnone.symm.trans ((kindOf?_standard p').2 hp')) (by simp)
  · rintro ⟨p, q, hpq, hp, hlength, hmax⟩
    refine ⟨p, q, hpq, ?_, (kindOf?_standard p).2 hp, hlength, ?_⟩
    · rintro rfl
      exact m.kind.nil_notMem_lexemes hp
    · intro p' q' hpq' hlt
      cases hk : standard.kindFrom? root p' with
      | none => rfl
      | some kind =>
        have hle := hmax p' q' kind hpq' ((kindOf?_standard p').1 hk)
        omega

/-- Every first character of a sign but the bar is a sign by itself. -/
theorem exists_sign {c : Char} (h : isSignStart c) :
    c = '|' ∨ ∃ p : Punctuator, [c] = p.spelling.toList := by
  have hall : ∀ p : Punctuator, ∀ c ∈ p.spelling.toList.head?,
      c = '|' ∨ ∃ p ∈ Punctuator.all, [c] = p.spelling.toList := by
    intro p c hc
    cases p <;> cases hc <;> decide
  simp only [isSignStart, List.any_eq_true, beq_iff_eq] at h
  obtain ⟨p, -, hp⟩ := h
  refine (hall p c hp).imp_right ?_
  rintro ⟨q, -, hq⟩
  exact ⟨q, hq⟩

/-- An input that begins with no lexeme begins with a bar or with a quote. -/
theorem first_of_noLexeme {c : Char} {cs : List Char} (h : NoLexeme (c :: cs)) :
    c = '|' ∨ isQuote c := by
  have hfirst : ∀ kind : TokenKind, [c] ∉ kind.lexemes := fun kind => h [c] cs kind rfl
  by_cases hblank : isBlank c
  · exact absurd ((TokenKind.cons_mem_lexemes_of_isBlank hblank).2 ⟨rfl, nil_mem_kstar⟩) (hfirst _)
  by_cases hdigit : c.isDigit
  · exact absurd ((TokenKind.cons_mem_lexemes_of_isDigit hdigit).2 (.inl ⟨rfl, nil_mem_kstar⟩))
      (hfirst _)
  by_cases hsign : isSignStart c
  · rcases exists_sign hsign with hbar | ⟨p, hp⟩
    · exact .inl hbar
    · exact absurd (TokenKind.mem_lexemes_punctuator.2 hp) (hfirst _)
  by_cases hquote : isQuote c
  · exact .inr hquote
  · have hword : isWordStart c := by simp [isWordStart, hblank, hdigit, hquote, hsign]
    exact absurd ((TokenKind.cons_mem_lexemes_of_isWordStart hword).2 ⟨rfl, nil_mem_kstar⟩)
      (hfirst _)

/-- Behind a bar, only a second one is walked over. -/
theorem reaches_bar {cs : List Char} (h : cs.head? ≠ some '|') :
    standard.Reaches root ('|' :: cs) ['|'] := by
  obtain ⟨s, state, hs, hstate, hotherwise, -, hedges⟩ := stem_spec (w := ['|']) (by decide)
  have hnext : standard.transition root '|' = some s := by simpa using hs
  refine Reaches.cons hnext ?_
  cases cs with
  | nil => exact reaches_nil s
  | cons c cs =>
    refine reaches_of_transition_eq_none ?_ cs
    have hedge : state.edge? c = none := by
      refine List.lookup_eq_none_iff.2 fun e he => bne_iff_ne.2 ?_
      rintro rfl
      rcases hedges e he with hstem | ⟨hslash, -⟩
      · obtain ⟨-, p, hp⟩ := isStem_iff.1 hstem
        have hall : ∀ p : Punctuator, ∀ d, ['|', d] <+: p.spelling.toList → d = '|' := by
          intro p d
          cases p <;> simp [Punctuator.spelling]
        exact h (by rw [List.head?_cons, hall p e.1 hp])
      · simp at hslash
    rw [transition, hstate, Option.bind_some, hedge, hotherwise]
    rfl

/-- Where there is no lexeme, the walk goes over what is unreadable. -/
theorem unreadable_of_reaches {c : Char} {cs p : List Char} (hnone : NoLexeme (c :: cs))
    (hp : standard.Reaches root (c :: cs) p) : ∃ q, c :: cs = p ++ q ∧ Unreadable p q := by
  obtain ⟨l⟩ : Nonempty (Layers .standard standard) := standard_eq ▸ exists_layers .standard
  rcases first_of_noLexeme hnone with rfl | hquote
  · have hbar : cs.head? ≠ some '|' := by
      intro h
      obtain ⟨q, rfl⟩ := List.head?_eq_some_iff.1 h
      exact hnone ['|', '|'] q (.punctuator .orOr) rfl (TokenKind.mem_lexemes_punctuator.2 rfl)
    obtain rfl := hp.unique (reaches_bar hbar)
    exact ⟨cs, rfl, .bar hbar⟩
  · -- Both quotes enter a part of the same table, of which no closing quote is reached.
    obtain ⟨kind, place, hwithin, hnext, hclosed⟩ : ∃ (kind : TokenKind) (place : Quoted → StateId),
        (Quoted.part c kind).Within standard place ∧
          standard.transition root c = some (place .body) ∧
          ∀ u, u ∈ content c * only c → c :: u ∈ kind.lexemes := by
      have hcases := hquote
      simp only [isQuote, Bool.or_eq_true, beq_iff_eq] at hcases
      rcases hcases with rfl | rfl
      · exact ⟨_, l.character, l.character_within, l.transition_apostrophe,
          fun u hu => TokenKind.apostrophe_mem_lexemes.2 ⟨rfl, hu⟩⟩
      · exact ⟨_, l.string, l.string_within, l.transition_quote,
          fun u hu => TokenKind.quote_mem_lexemes.2 ⟨rfl, hu⟩⟩
    rcases Quoted.reaches_body hwithin cs with ⟨u, q, rfl, hu⟩ | ⟨u, q, rfl, hu, hq, hreach⟩ |
      ⟨hu, hreach⟩
    · exact absurd (hclosed (u ++ [c]) ⟨u, hu, [c], cons_mem_only.2 ⟨rfl, rfl⟩, rfl⟩)
        (hnone (c :: (u ++ [c])) q kind (by simp))
    · obtain rfl := hp.unique (hreach.cons hnext)
      exact ⟨q, by simp, .escape hquote hu hq⟩
    · obtain rfl := hp.unique (hreach.cons hnext)
      exact ⟨[], by simp, .unclosed hquote hu⟩

/-- Reading cuts off the longest lexeme. Where there is none, the input begins with a quote or
with a bar that stands alone, and what is unreadable is cut off as unrecognized. -/
theorem readToken_standard (c : Char) (cs : List Char) :
    (∀ (w : List Char) (kind kind' : TokenKind), w ∈ kind.lexemes → w ∈ kind'.lexemes →
      kind = kind') ∧
    ∃ m, (ofVocabulary .standard).readToken (c :: cs) = some m ∧
      (LongestLexeme (c :: cs) m ∨
        NoLexeme (c :: cs) ∧ m.kind = .unrecognized ∧
          ∃ p q, c :: cs = p ++ q ∧ Unreadable p q ∧ m.length = byteLength p) := by
  refine ⟨fun w kind kind' => lexemes_disjoint, ?_⟩
  rw [← standard_eq]
  obtain ⟨m, hm⟩ := Option.ne_none_iff_exists'.1
    (readToken_ne_none (a := standard) (List.cons_ne_nil c cs))
  refine ⟨m, hm, ?_⟩
  rcases readToken_cases hm with hlongest | ⟨hnone, hkind, p, hp, hlength⟩
  · exact .inl (longest_iff.1 hlongest)
  · have hnone := noneFrom_iff.1 hnone
    obtain ⟨q, hq, hunreadable⟩ := unreadable_of_reaches hnone hp
    have hne : p ≠ [] := by
      rintro rfl
      cases hunreadable
    exact .inr ⟨hnone, hkind, p, q, hq, hunreadable, by rw [hlength, if_neg hne]⟩

end Automaton

end Sable
