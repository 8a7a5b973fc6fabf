import Mathlib.Algebra.Ring.Defs
import Sable.Proofs.Automaton.Layers

/-!
# The lexemes of the standard vocabulary

For every kind of token, the language of the texts that make a token of it. The languages are
given by their grammar, without a look at the automaton; `Sable.Proofs.Token.StandardLexemes` shows
that the automaton reads them. For this the languages of the places within a lexeme are needed as
well, and that they follow the edges of the automaton's parts.

## Main definitions

* `Lexeme.chars`: the texts of one character out of a set.
* `TokenKind.lexemes`: the texts of a kind.

## Main statements

* `Automaton.Comment.solves_line`, `Comment.solves_block`, `Word.solves`, `Numeric.solves_integer`,
  `Numeric.solves_float`, `Quoted.solves`: what the parts accept.
-/
namespace Sable

open scoped Computability

namespace Lexeme

/-- The texts of one character that satisfies `p`. -/
def chars (p : Char → Bool) : Language Char := {cs | ∃ c, p c ∧ cs = [c]}

/-- The one character `c`. -/
def only (c : Char) : Language Char := chars (· == c)

def optional (L : Language Char) : Language Char := 1 + L

section

variable {p : Char → Bool} {L M : Language Char} {c : Char} {cs : List Char}

@[simp] theorem nil_notMem_chars_mul : [] ∉ chars p * L := by
  rintro ⟨u, ⟨d, -, rfl⟩, w, -, h⟩
  simp at h

@[simp] theorem cons_mem_chars_mul : c :: cs ∈ chars p * L ↔ p c ∧ cs ∈ L := by
  constructor
  · rintro ⟨u, ⟨d, hd, rfl⟩, w, hw, h⟩
    obtain ⟨rfl, rfl⟩ := List.cons.inj h
    exact ⟨hd, hw⟩
  · rintro ⟨hc, hcs⟩
    exact ⟨[c], ⟨c, hc, rfl⟩, cs, hcs, rfl⟩

@[simp] theorem nil_notMem_chars : [] ∉ chars p := by
  simpa using nil_notMem_chars_mul (p := p) (L := 1)

@[simp] theorem cons_mem_chars : c :: cs ∈ chars p ↔ p c ∧ cs = [] := by
  rw [← mul_one (chars p), cons_mem_chars_mul, Language.mem_one]

/-- A repetition either is over or begins once more. -/
theorem kstar_eq (L : Language Char) : L∗ = 1 + L * L∗ :=
  (Language.one_add_self_mul_kstar_eq_kstar L).symm

theorem kstar_mul_eq (L M : Language Char) : L∗ * M = M + L * (L∗ * M) := by
  conv_lhs => rw [kstar_eq, add_mul, one_mul, mul_assoc]

@[simp] theorem nil_mem_kstar_mul : [] ∈ (chars p)∗ * M ↔ [] ∈ M := by
  rw [kstar_mul_eq, Language.mem_add]
  simp

@[simp] theorem cons_mem_kstar_mul :
    c :: cs ∈ (chars p)∗ * M ↔ c :: cs ∈ M ∨ p c ∧ cs ∈ (chars p)∗ * M := by
  conv_lhs => rw [kstar_mul_eq, Language.mem_add]
  simp

@[simp] theorem nil_mem_kstar : [] ∈ L∗ := Language.nil_mem_kstar L

@[simp] theorem cons_mem_kstar : c :: cs ∈ (chars p)∗ ↔ p c ∧ cs ∈ (chars p)∗ := by
  conv_lhs => rw [kstar_eq, Language.mem_add]
  simp [Language.mem_one]

theorem mem_kstar_chars : cs ∈ (chars p)∗ ↔ ∀ c ∈ cs, p c := by
  induction cs with
  | nil => simp
  | cons c cs ih => rw [cons_mem_kstar, ih, List.forall_mem_cons]

@[simp] theorem nil_mem_only_mul : [] ∉ only c * L := nil_notMem_chars_mul

@[simp] theorem cons_mem_only_mul {d : Char} : d :: cs ∈ only c * L ↔ d = c ∧ cs ∈ L := by
  simp [only]

@[simp] theorem cons_mem_only {d : Char} : d :: cs ∈ only c ↔ d = c ∧ cs = [] := by
  simp [only]

@[simp] theorem mem_optional : cs ∈ optional L ↔ cs = [] ∨ cs ∈ L := by
  rw [optional, Language.mem_add, Language.mem_one]

@[simp] theorem mem_optional_mul : cs ∈ optional L * M ↔ cs ∈ M ∨ cs ∈ L * M := by
  rw [optional, add_mul, one_mul, Language.mem_add]

end

def isBlank (c : Char) : Bool := c == ' ' || c == '\t' || c == '\r' || c == '\n'

def isQuote (c : Char) : Bool := c == '\'' || c == '"'

/-- The characters that a backslash may stand before. -/
def isEscape (c : Char) : Bool := c == 'n' || c == 'r' || c == 't' || c == '\'' || c == '"'

def isWordChar (c : Char) : Bool := c.isAlphanum || c == '_'

/-- Signs begin with these characters, in the standard vocabulary. -/
def isSignStart (c : Char) : Bool :=
  Punctuator.all.any fun p => p.spelling.toList.head? == some c

/-- Whatever begins nothing else begins a word. -/
def isWordStart (c : Char) : Bool := !isBlank c && !c.isDigit && !isQuote c && !isSignStart c

def digitRun : Language Char := chars Char.isDigit * (chars Char.isDigit)∗

/-- The end of a block comment, with nothing in front that ends it as well. -/
def blockEnd : Language Char :=
  {cs | ∃ u, cs = u ++ ['*', '/'] ∧ ∀ v w, cs = v ++ '*' :: '/' :: w → w = []}

/-- What stands between quotes. -/
def content (quote : Char) : Language Char :=
  (chars (fun c => c != quote && c != '\\') + only '\\' * chars isEscape)∗

/-- What ends a block comment behind the character `c`. -/
def blockEndBehind (c : Char) : Language Char := {cs | c :: cs ∈ blockEnd}

/-! ## Taking off a first character -/

theorem mem_blockEndBehind {c : Char} {cs : List Char} :
    cs ∈ blockEndBehind c ↔ c :: cs ∈ blockEnd := Iff.rfl

theorem nil_notMem_blockEnd : [] ∉ blockEnd := by
  rintro ⟨u, h, -⟩
  simp at h

/-- What does not end the comment at once may stand in it. -/
theorem cons_mem_blockEnd {c : Char} {cs : List Char} (h : ¬ ['*', '/'] <+: c :: cs) :
    c :: cs ∈ blockEnd ↔ cs ∈ blockEnd := by
  constructor
  · rintro ⟨u, hu, hfirst⟩
    cases u with
    | nil => exact absurd ⟨[], hu.symm⟩ h
    | cons d u =>
      rw [List.cons_append, List.cons.injEq] at hu
      exact ⟨u, hu.2, fun v w hv => hfirst (c :: v) w (by rw [hv]; rfl)⟩
  · rintro ⟨u, rfl, hfirst⟩
    refine ⟨c :: u, rfl, ?_⟩
    rintro v w hv
    cases v with
    | nil => exact absurd ⟨w, hv.symm⟩ h
    | cons d v => exact hfirst v w (List.cons.inj hv).2

theorem star_slash_mem_blockEnd {cs : List Char} : '*' :: '/' :: cs ∈ blockEnd ↔ cs = [] := by
  constructor
  · rintro ⟨-, -, hfirst⟩
    exact hfirst [] cs rfl
  · rintro rfl
    refine ⟨[], rfl, ?_⟩
    rintro v w hv
    have hlength := congrArg List.length hv
    simp only [List.length_append, List.length_cons, List.length_nil] at hlength
    exact List.eq_nil_of_length_eq_zero (by omega)

theorem nil_mem_content_mul {quote : Char} {L : Language Char} :
    [] ∈ content quote * L ↔ [] ∈ L := by
  rw [content, kstar_mul_eq, add_mul, mul_assoc, Language.mem_add, Language.mem_add]
  simp

theorem cons_mem_content_mul {quote c : Char} {L : Language Char} {cs : List Char} :
    c :: cs ∈ content quote * L ↔ c :: cs ∈ L ∨ (c ≠ quote ∧ c ≠ '\\') ∧ cs ∈ content quote * L ∨
      c = '\\' ∧ cs ∈ chars isEscape * (content quote * L) := by
  conv_lhs => rw [content, kstar_mul_eq, add_mul, mul_assoc, Language.mem_add, Language.mem_add,
    ← content]
  simp

/-- The exponent and the letter that may stand behind the fraction of a number. -/
def exponentPart : Language Char :=
  optional (chars (fun c => c == 'e' || c == 'E') *
    (optional (chars fun c => c == '+' || c == '-') * digitRun))

end Lexeme

open Lexeme in
/-- The texts that make a token of a kind, in the standard vocabulary. Keywords are words. -/
def TokenKind.lexemes : TokenKind → Language Char
  | .whitespace => chars isBlank * (chars isBlank)∗
  | .singleLineComment => only '/' * only '/' * (chars fun c => c != '\r' && c != '\n')∗
  | .multiLineComment => only '/' * only '*' * blockEnd
  | .identifier => chars isWordStart * (chars isWordChar)∗
  | .integerLiteral => digitRun
  | .floatLiteral => digitRun * only '.' * digitRun * exponentPart * optional (only 'f')
  | .characterLiteral => only '\'' * content '\'' * only '\''
  | .stringLiteral => only '"' * content '"' * only '"'
  | .punctuator p => {p.spelling.toList}
  | .keyword _ | .unrecognized | .eof => 0

namespace Automaton

open Builder (letters escapes)
open Lexeme

/-- Letters and digits are among the first characters, which can be looked at one by one. -/
theorem toNat_lt_of_isAlphanum {c : Char} (hc : c.isAlphanum) : c.toNat < 128 := by
  delta Char.isAlphanum Char.isAlpha Char.isUpper Char.isLower Char.isDigit at hc
  simp only [Bool.or_eq_true, Bool.and_eq_true, decide_eq_true_eq, UInt32.le_iff_toNat_le,
    ge_iff_le] at hc
  have : c.toNat = c.val.toNat := rfl
  have : 'z'.val.toNat = 122 := rfl
  have : 'Z'.val.toNat = 90 := rfl
  have : '9'.val.toNat = 57 := rfl
  omega

theorem mem_blanks {c : Char} : c ∈ Builder.blanks ↔ isBlank c := by
  simp [Builder.blanks, isBlank, or_assoc]

theorem mem_digits (c : Char) : c ∈ Builder.digits ↔ c.isDigit := by
  constructor
  · have h : ∀ d ∈ Builder.digits, d.isDigit := List.all_eq_true.1 (by decide)
    exact h c
  · intro h
    have hall : ∀ n < 128, (Char.ofNat n).isDigit → Char.ofNat n ∈ Builder.digits := by decide
    have hc := hall c.toNat (toNat_lt_of_isAlphanum (by simp [Char.isAlphanum, h]))
    rw [Char.ofNat_toNat] at hc
    exact hc h

theorem mem_escapes (c : Char) : c ∈ escapes ↔ isEscape c := by
  simp [escapes, isEscape, or_assoc]

theorem mem_wordChars (c : Char) :
    c ∈ Builder.digits ∨ c = '_' ∨ c ∈ letters ↔ isWordChar c := by
  constructor
  · have hdigit : ∀ d ∈ Builder.digits, isWordChar d := List.all_eq_true.1 (by decide)
    have hletter : ∀ d ∈ letters, isWordChar d := List.all_eq_true.1 (by decide)
    rintro (h | rfl | h)
    · exact hdigit c h
    · decide
    · exact hletter c h
  · intro h
    have hall : ∀ n < 128, (Char.ofNat n).isAlphanum →
        Char.ofNat n ∈ Builder.digits ∨ Char.ofNat n ∈ letters := by decide
    rcases Bool.or_eq_true_iff.1 h with h | h
    · have hc := hall c.toNat (toNat_lt_of_isAlphanum h)
      rw [Char.ofNat_toNat] at hc
      exact (hc h).imp_right .inr
    · exact .inr (.inl (by simpa using h))

namespace Numeric

/-- What may follow the integer digits of a number with a fraction, and each further place. -/
def rest : Numeric → Language Char
  | .integer => (chars Char.isDigit)∗ * (only '.' * (digitRun * (exponentPart * optional (only 'f'))))
  | .point => digitRun * (exponentPart * optional (only 'f'))
  | .fraction => (chars Char.isDigit)∗ * (exponentPart * optional (only 'f'))
  | .mark => optional (chars fun c => c == '+' || c == '-') * (digitRun * optional (only 'f'))
  | .sign => digitRun * optional (only 'f')
  | .exponent => (chars Char.isDigit)∗ * optional (only 'f')
  | .suffix => 1

theorem solves_float : Part.Solves part .floatLiteral rest where
  nil s := by
    cases s <;> simp [part, rest, digitRun, exponentPart, mul_assoc]
  cons s c cs := by
    have hmark : c = 'e' ∨ c = 'E' → ¬ c.isDigit := by rintro (rfl | rfl) <;> decide
    have hsign : c.isDigit → ¬ (c = '+' ∨ c = '-') := by rintro h (rfl | rfl) <;> revert h <;> decide
    cases s <;> simp only [part, Part.next, target?, mem_digits]
    all_goals
      repeat' split
      all_goals simp_all [rest, digitRun, exponentPart, mul_assoc]

/-- The integers are the digits in front of a point. -/
def integers : Numeric → Language Char
  | .integer => (chars Char.isDigit)∗
  | _ => 0

theorem solves_integer : Part.Solves part .integerLiteral integers where
  nil s := by cases s <;> simp [part, integers]
  cons s c cs := by
    cases s <;> simp only [part, Part.next, target?, mem_digits]
    all_goals
      repeat' split
      all_goals simp_all [integers]

end Numeric

namespace Comment

def lines : Comment → Language Char
  | .line => (chars fun c => c != '\r' && c != '\n')∗
  | _ => 0

theorem solves_line : Part.Solves part .singleLineComment lines where
  nil s := by cases s <;> simp [part, lines]
  cons s c cs := by
    cases s <;> simp only [part, Part.next, target?]
    all_goals
      repeat' split
      all_goals simp_all [lines]
    grind

/-- Behind a star, the rest of a comment ends it together with the star. -/
def blocks : Comment → Language Char
  | .block => blockEnd
  | .star => blockEndBehind '*'
  | .close => 1
  | _ => 0

theorem solves_block : Part.Solves part .multiLineComment blocks where
  nil s := by cases s <;> simp [part, blocks, nil_notMem_blockEnd, cons_mem_blockEnd, mem_blockEndBehind]
  cons s c cs := by
    cases s with
    | line | lineEnd => 
      simp only [part, Part.next, target?]
      repeat' split
      all_goals simp [blocks]
    | block =>
      simp only [part, Part.next, target?, List.mem_singleton]
      split
      · next h => simp [blocks, h, mem_blockEndBehind]
      · next h => simp [blocks, cons_mem_blockEnd, Ne.symm h]
    | star =>
      simp only [part, Part.next, target?, List.mem_singleton]
      repeat' split
      · next h => simp [blocks, h, star_slash_mem_blockEnd, mem_blockEndBehind]
      · next hslash h => simp [blocks, h, cons_mem_blockEnd, mem_blockEndBehind]
      · next hslash h => simp [blocks, cons_mem_blockEnd, mem_blockEndBehind, Ne.symm hslash, Ne.symm h]
    | close => simp [part, Part.next, target?, blocks]

end Comment

namespace Word

def rest : Word → Language Char
  | .word => (chars isWordChar)∗

theorem solves : Part.Solves part .identifier rest where
  nil s := by cases s; simp [part, rest]
  cons s c cs := by
    cases s
    have hnext : Part.next part .word c = if isWordChar c then some .word else none := by
      simp only [part, Part.next, target?, List.mem_append, List.mem_singleton, ← mem_wordChars]
      grind
    rw [hnext]
    split
    · next h =>
      refine ⟨fun hcs => ⟨.word, rfl, (cons_mem_kstar.1 hcs).2⟩, ?_⟩
      rintro ⟨⟨⟩, -, hcs⟩
      exact cons_mem_kstar.2 ⟨h, hcs⟩
    · next h => simp [rest, h]

end Word

namespace Quoted

variable {quote : Char} {kind : TokenKind}

def rest (quote : Char) : Quoted → Language Char
  | .body => content quote * only quote
  | .close => 1
  | .escape => chars isEscape * (content quote * only quote)

theorem solves (hquote : quote ≠ '\\') : Part.Solves (part quote kind) kind (rest quote) where
  nil s := by cases s <;> simp [part, rest, nil_mem_content_mul, only]
  cons s c cs := by
    have hquote' := hquote.symm
    cases s <;> simp only [part, Part.next, target?]
    all_goals
      repeat' split
      all_goals simp_all [rest, cons_mem_content_mul, mem_escapes]

end Quoted

end Automaton

end Sable
