import Sable.Grammar.Expression
import Sable.Proofs.Number.Rounding
import Sable.Proofs.Token.Lexemes

/-!
# The values of numbers

The texts of number tokens are read as numbers. A text of digits has a value unless this does not
fit into 64 bits with a sign. A text with a point always has one: the nearest to the number that it
denotes.

## Main definitions

* `Number.Denotes`: the number that a text with a point denotes.

## Main statements

* `Number.int64?_eq`: the value of digits.
* `Number.Denotes.read?`: the value of a text with a point.
* `Grammar.numberValue?_integer`, `Grammar.numberValue?_float`: the values of number tokens.
-/
namespace Sable

open Lexeme
open scoped Computability

namespace Number

/-! ## Digits -/

variable {cs whole fraction exponent rest : List Char}

theorem mem_digitRun : cs ∈ digitRun ↔ cs ≠ [] ∧ ∀ c ∈ cs, c.isDigit := by
  cases cs with
  | nil => simp [digitRun]
  | cons c cs => simp [digitRun, mem_kstar_chars]

theorem digits?_eq (h : cs ∈ digitRun) : digits? cs = some (Nat.ofDigitChars 10 cs 0) := by
  obtain ⟨hne, hdigits⟩ := mem_digitRun.1 h
  have hall : cs.all Char.isDigit = true := by simpa using hdigits
  rw [digits?, hall, if_neg (by simpa using hne)]
  rfl

/-- Digits have no sign in front. -/
theorem splitSign_eq (h : ∀ c ∈ cs.head?, c.isDigit) : splitSign cs = (false, cs) := by
  unfold splitSign
  split
  · exact absurd (h '-' rfl) (by decide)
  · exact absurd (h '+' rfl) (by decide)
  · rfl

theorem isDigit_head? (h : cs ∈ digitRun) : ∀ c ∈ cs.head?, c.isDigit := fun c hc =>
  (mem_digitRun.1 h).2 c (List.mem_of_mem_head? hc)

theorem isDigit_head?_append (h : whole ∈ digitRun) : ∀ c ∈ (whole ++ rest).head?, c.isDigit := by
  obtain ⟨hne, hdigits⟩ := mem_digitRun.1 h
  intro c hc
  rw [List.head?_append_of_ne_nil _ hne] at hc
  exact isDigit_head? h c hc

/-- The value of digits, if there is room for it. -/
theorem int64?_eq (h : cs ∈ digitRun) : int64? cs =
    if Nat.ofDigitChars 10 cs 0 < 2 ^ 63 then some (Nat.ofDigitChars 10 cs 0 : Int) else none := by
  rw [int64?, splitSign_eq (isDigit_head? h)]
  dsimp only
  rw [digits?_eq h, Option.bind_some, ofMagnitude?, if_neg (by decide)]
  rfl

/-! ## Digits with a point -/

/-- The number that a text with a point denotes: all its digits without the point, as many powers of
ten less as there are digits behind it, and the power of ten that stands at the end. -/
inductive Denotes : List Char → ℚ → Prop
  | plain {whole fraction : List Char} (hwhole : whole ∈ digitRun) (hfraction : fraction ∈ digitRun) :
      Denotes (whole ++ '.' :: fraction)
        (Nat.ofDigitChars 10 (whole ++ fraction) 0 / 10 ^ fraction.length)
  | scaled {whole fraction sign exponent : List Char} {mark : Char} {power : Int}
      (hwhole : whole ∈ digitRun) (hfraction : fraction ∈ digitRun) (hmark : mark = 'e' ∨ mark = 'E')
      (hexponent : exponent ∈ digitRun)
      (hpower : (sign = [] ∨ sign = ['+']) ∧ power = Nat.ofDigitChars 10 exponent 0 ∨
        sign = ['-'] ∧ power = -(Nat.ofDigitChars 10 exponent 0 : Int)) :
      Denotes (whole ++ '.' :: (fraction ++ mark :: (sign ++ exponent)))
        (Nat.ofDigitChars 10 (whole ++ fraction) 0 / 10 ^ fraction.length * 10 ^ power)

theorem takeWhile_digits (h : whole ∈ digitRun) (hrest : ∀ c ∈ rest.head?, ¬c.isDigit) :
    (whole ++ rest).takeWhile Char.isDigit = whole ∧
      (whole ++ rest).dropWhile Char.isDigit = rest := by
  obtain ⟨-, hdigits⟩ := mem_digitRun.1 h
  rw [List.takeWhile_append_of_pos hdigits, List.dropWhile_append_of_pos hdigits]
  cases rest with
  | nil => simp
  | cons c rest => simp [hrest c rfl]

/-- Digits, a point, digits and an exponent. -/
theorem readUnsigned?_eq (hwhole : whole ∈ digitRun) (hfraction : fraction ∈ digitRun)
    (hrest : ∀ c ∈ rest.head?, ¬c.isDigit) (negative : Bool) :
    Decimal.readUnsigned? negative (whole ++ '.' :: (fraction ++ rest)) =
      (Decimal.readExponent? rest).map fun e =>
        ⟨negative, Nat.ofDigitChars 10 (whole ++ fraction) 0, e - fraction.length⟩ := by
  have hpoint : ∀ c ∈ ('.' :: (fraction ++ rest)).head?, ¬c.isDigit := by simp
  obtain ⟨hbefore, hafter⟩ := takeWhile_digits hwhole hpoint
  obtain ⟨hbefore', hafter'⟩ := takeWhile_digits hfraction hrest
  have hne : whole.isEmpty = false := by simpa using (mem_digitRun.1 hwhole).1
  unfold Decimal.readUnsigned?
  simp only [hbefore, hafter, hbefore', hafter', hne, Bool.false_and, if_neg, Bool.false_eq_true,
    not_false_eq_true]
  rfl

theorem readExponent?_eq {sign : List Char} {mark : Char} {power : Int}
    (hmark : mark = 'e' ∨ mark = 'E') (hexponent : exponent ∈ digitRun)
    (hpower : (sign = [] ∨ sign = ['+']) ∧ power = Nat.ofDigitChars 10 exponent 0 ∨
      sign = ['-'] ∧ power = -(Nat.ofDigitChars 10 exponent 0 : Int)) :
    Decimal.readExponent? (mark :: (sign ++ exponent)) = some power := by
  rw [Decimal.readExponent?, if_pos hmark]
  rcases hpower with ⟨rfl | rfl, rfl⟩ | ⟨rfl, rfl⟩
  · rw [List.nil_append, splitSign_eq (isDigit_head? hexponent)]
    simp [digits?_eq hexponent]
  · simp [splitSign, digits?_eq hexponent]
  · simp [splitSign, digits?_eq hexponent]

/-- What a text denotes is read, and rounded to the nearest. -/
theorem Denotes.read? {value : ℚ} (h : Denotes cs value) : ∃ x, Binary64.read? cs = some x ∧
    x.negative = false ∧ Binary64.IsNearest value x.code := by
  have hread : ∀ {d : Decimal}, Decimal.read? cs = some d → d.negative = false →
      d.magnitude = value → ∃ x, Binary64.read? cs = some x ∧ x.negative = false ∧
        Binary64.IsNearest value x.code := by
    rintro d hd hnegative rfl
    obtain ⟨hsign, hnearest⟩ := d.isNearest_toBinary64
    exact ⟨d.toBinary64, by rw [Binary64.read?, hd], hsign.trans hnegative, hnearest⟩
  cases h with
  | @plain whole fraction hwhole hfraction =>
    refine hread (d := ⟨false, Nat.ofDigitChars 10 (whole ++ fraction) 0, 0 - fraction.length⟩)
      ?_ rfl ?_
    · have hend : ∀ c ∈ ([] : List Char).head?, ¬c.isDigit := by simp
      have hunsigned := readUnsigned?_eq hwhole hfraction hend false
      rw [List.append_nil] at hunsigned
      rw [Decimal.read?, splitSign_eq (isDigit_head?_append hwhole)]
      exact hunsigned
    · rw [Decimal.magnitude, zero_sub, zpow_neg, zpow_natCast, div_eq_mul_inv]
  | @scaled whole fraction sign exponent mark power hwhole hfraction hmark hexponent hpower =>
    refine hread (d := ⟨false, Nat.ofDigitChars 10 (whole ++ fraction) 0, power - fraction.length⟩)
      ?_ rfl ?_
    · rw [Decimal.read?, splitSign_eq (isDigit_head?_append hwhole)]
      refine (readUnsigned?_eq hwhole hfraction ?_ false).trans ?_
      · rcases hmark with rfl | rfl <;> simp
      · rw [readExponent?_eq hmark hexponent hpower]
        rfl
    · rw [Decimal.magnitude, zpow_sub₀ (by norm_num), zpow_natCast]
      ring

/-- It ends in a digit. -/
theorem Denotes.getLast?_ne {value : ℚ} (h : Denotes cs value) : cs.getLast? ≠ some 'f' := by
  have hlast : ∀ {digits front : List Char}, digits ∈ digitRun →
      (front ++ digits).getLast? ≠ some 'f' := by
    intro digits front hrun hlast
    obtain ⟨hne, hdigits⟩ := mem_digitRun.1 hrun
    rw [List.getLast?_append_of_ne_nil _ hne] at hlast
    exact absurd (hdigits 'f' (List.mem_of_getLast? hlast)) (by decide)
  cases h with
  | @plain whole fraction hwhole hfraction =>
    rw [← List.singleton_append, ← List.append_assoc]
    exact hlast hfraction
  | @scaled whole fraction sign exponent mark power hwhole hfraction hmark hexponent hpower =>
    have hsplit : whole ++ '.' :: (fraction ++ mark :: (sign ++ exponent)) =
        (whole ++ '.' :: (fraction ++ mark :: sign)) ++ exponent := by simp
    rw [hsplit]
    exact hlast hexponent

/-- A mark, perhaps a sign, and digits tell a power of ten. -/
theorem exists_power {sign mark : List Char} (hmark : mark ∈ chars fun c => c == 'e' || c == 'E')
    (hsign : sign ∈ Lexeme.optional (chars fun c => c == '+' || c == '-')) :
    ∃ m power, mark = [m] ∧ (m = 'e' ∨ m = 'E') ∧
      ((sign = [] ∨ sign = ['+']) ∧ power = (Nat.ofDigitChars 10 exponent 0 : Int) ∨
        sign = ['-'] ∧ power = -(Nat.ofDigitChars 10 exponent 0 : Int)) := by
  obtain ⟨m, hm, rfl⟩ := hmark
  have hm : m = 'e' ∨ m = 'E' := by simpa using hm
  rcases mem_optional.1 hsign with rfl | ⟨c, hc, rfl⟩
  · exact ⟨m, _, rfl, hm, .inl ⟨.inl rfl, rfl⟩⟩
  · obtain rfl | rfl : c = '+' ∨ c = '-' := by simpa using hc
    · exact ⟨m, _, rfl, hm, .inl ⟨.inr rfl, rfl⟩⟩
    · exact ⟨m, _, rfl, hm, .inr ⟨rfl, rfl⟩⟩

/-- The text of a float token denotes a number, but for one letter at its end. -/
theorem exists_denotes (h : cs ∈ TokenKind.floatLiteral.lexemes) : ∃ digits value,
    Denotes digits value ∧ (cs = digits ∨ cs = digits ++ ['f']) := by
  obtain ⟨digits, ⟨before, ⟨wholePoint, ⟨whole, hwhole, point, hpoint, rfl⟩, fraction, hfraction,
    rfl⟩, rest, hrest, rfl⟩, suffix, hsuffix, rfl⟩ := h
  obtain ⟨c, hc, rfl⟩ := hpoint
  obtain rfl : c = '.' := by simpa using hc
  obtain ⟨value, hvalue⟩ : ∃ value, Denotes (whole ++ ['.'] ++ fraction ++ rest) value := by
    rcases mem_optional.1 hrest with rfl | ⟨mark, hmark, _, ⟨sign, hsign, exponent, hexponent, rfl⟩,
      rfl⟩
    · exact ⟨_, by simpa using Denotes.plain hwhole hfraction⟩
    · obtain ⟨m, power, rfl, hm, hpower⟩ := exists_power hmark hsign
      exact ⟨_, by simpa using Denotes.scaled hwhole hfraction hm hexponent hpower⟩
  refine ⟨_, value, hvalue, ?_⟩
  rcases mem_optional.1 hsuffix with rfl | ⟨c, hc, rfl⟩
  · exact .inl (List.append_nil _)
  · obtain rfl : c = 'f' := by simpa using hc
    exact .inr rfl

end Number

namespace Grammar

variable {text : List Char}

/-- The value of an integer token. -/
theorem numberValue?_integer (h : text ∈ TokenKind.integerLiteral.lexemes) :
    numberValue? .integerLiteral text = if Nat.ofDigitChars 10 text 0 < 2 ^ 63 then
      some (.integer (Nat.ofDigitChars 10 text 0)) else none := by
  rw [numberValue?, Number.int64?_eq h]
  split <;> rfl

/-- A float token always has a value. -/
theorem numberValue?_float (h : text ∈ TokenKind.floatLiteral.lexemes) :
    ∃ digits value x, numberValue? .floatLiteral text = some (.float x) ∧
      (text = digits ∨ text = digits ++ ['f']) ∧ Number.Denotes digits value ∧
      x.negative = false ∧ Binary64.IsNearest value x.code := by
  obtain ⟨digits, value, hvalue, htext⟩ := Number.exists_denotes h
  obtain ⟨x, hx, hsign, hnearest⟩ := hvalue.read?
  refine ⟨digits, value, x, ?_, htext, hvalue, hsign, hnearest⟩
  have hdigits : (if text.getLast? = some 'f' then text.dropLast else text) = digits := by
    rcases htext with rfl | rfl
    · rw [if_neg hvalue.getLast?_ne]
    · rw [List.getLast?_concat, if_pos rfl, List.dropLast_concat]
  rw [numberValue?, hdigits, hx, Option.map_some]

end Grammar

end Sable
