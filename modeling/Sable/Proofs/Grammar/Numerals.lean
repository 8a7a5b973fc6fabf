import Sable.Proofs.Grammar.Literals
import Sable.Proofs.Number.Reading
import Sable.Proofs.Token.Numbers

/-!
# Numbers denote their texts

Whatever the vocabulary, a number in a parsed tree is what is written in its place, read as a decimal
and, if it has a point, rounded. The only literals that are not read are integers without room in 64
bits: no tree has one, and each of them stops the parse where it is looked at.

## Main definitions

* `Token.decimal`: the number that digits are.
* `Lexer.Parses`, `Lexer.Fails`: what comes of a text.
* `Lexer.WritesNumbers`: the numbers of a tree are those of its text.

## Main statements

* `Lexer.parse_numbers`: all trees and all failures.
-/
namespace Sable

/-- The number that the digits of a token are. -/
def Token.decimal (source : String) (t : Token) : Nat :=
  Nat.ofDigitChars 10 (t.lexeme source.toList) 0

namespace Lexer

/-- The text is a unit or an expression with this tree. -/
def Parses (lexer : Lexer) (source : String) (tree : Tree) : Prop :=
  (∃ b, Block.parse (lexer.tokenize source) source = .ok b ∧ b.tree = tree) ∨
    ∃ e, Expr.parse (lexer.tokenize source) source = .ok e ∧ e.tree = tree

/-- The text fails to be a unit, or to be an expression, for this reason. -/
def Fails (lexer : Lexer) (source : String) (error : ParseError) : Prop :=
  Block.parse (lexer.tokenize source) source = .error error ∨
    Expr.parse (lexer.tokenize source) source = .error error

/-- Each number of the tree is that of a token in its place, and the tree leaves no number token of
the text out. -/
structure WritesNumbers (lexer : Lexer) (source : String) (tree : Tree) : Prop where
  integer : ∀ n ∈ tree.preorder, ∀ i, n.head = .value (.integer i) →
    ∃ t ∈ lexer.tokenize source, t.kind = .integerLiteral ∧ t.span = n.span ∧
      i = t.decimal source ∧ 0 ≤ i ∧ i < 2 ^ 63
  float : ∀ n ∈ tree.preorder, ∀ x, n.head = .value (.float x) →
    ∃ t ∈ lexer.tokenize source, t.kind = .floatLiteral ∧ t.span = n.span ∧ ∃ digits value,
      (t.lexeme source.toList = digits ∨ t.lexeme source.toList = digits ++ ['f']) ∧
        Number.Denotes digits value ∧ x.negative = false ∧ Binary64.IsNearest value x.code
  written : ∀ t ∈ lexer.tokenize source, t.kind.IsNumber → ∃ n ∈ tree.preorder, n.span = t.span ∧
    ∃ v, n.head = .value v ∧ Grammar.numberValue? t.kind (t.lexeme source.toList) = some v
  lt : ∀ t ∈ lexer.tokenize source, t.kind = .integerLiteral → t.decimal source < 2 ^ 63

variable {lexer : Lexer} {source : String} {t : Token} {tree : Tree} {span : Span}

/-! ## The values of tokens -/

theorem value?_number (hkind : t.kind.IsNumber) :
    t.value? source.toList = Grammar.numberValue? t.kind (t.lexeme source.toList) := by
  rcases hkind with h | h <;> rw [Token.value?, Grammar.literalValue?, h] <;> rfl

/-- An integer token has a value if there is room for it. -/
theorem value?_integer (ht : t ∈ lexer.tokenize source) (hkind : t.kind = .integerLiteral) :
    t.value? source.toList =
      if t.decimal source < 2 ^ 63 then some (.integer (t.decimal source)) else none := by
  have hlexeme := lexeme_number ht (.inl hkind)
  rw [hkind] at hlexeme
  rw [value?_number (.inl hkind), hkind, Grammar.numberValue?_integer hlexeme]
  rfl

/-- Only integers have no value. -/
theorem decimal_of_value? (ht : t ∈ lexer.tokenize source) (hliteral : t.kind.isLiteral = true)
    (h : t.value? source.toList = none) : t.kind = .integerLiteral ∧ 2 ^ 63 ≤ t.decimal source := by
  have htext : t.kind.hasText = true → t.text ≠ none := by
    intro hkind
    obtain ⟨tokens, hcuts, htokens⟩ := lexer.exists_tokenize_eq source
    rw [htokens, List.mem_append, List.mem_singleton] at ht
    rcases ht with ht | rfl
    · rw [hcuts.text_eq ht, if_pos hkind]
      simp
    · simp [Token.eof, TokenKind.isLiteral] at hliteral
  cases hkind : t.kind with
  | integerLiteral =>
    refine ⟨rfl, ?_⟩
    rw [value?_integer ht hkind] at h
    split at h
    · simp at h
    · omega
  | floatLiteral =>
    have hlexeme := lexeme_number ht (.inr hkind)
    rw [hkind] at hlexeme
    obtain ⟨_, _, x, hx, -⟩ := Grammar.numberValue?_float hlexeme
    rw [value?_number (.inr hkind), hkind, hx] at h
    simp at h
  | characterLiteral | stringLiteral =>
    rw [Token.value?, Grammar.literalValue?, hkind, Option.map_eq_none_iff] at h
    exact absurd h (htext (by rw [hkind]; rfl))
  | _ => simp [hkind, TokenKind.isLiteral] at hliteral

/-! ## Parsed trees -/

theorem literals_of_parses (h : lexer.Parses source tree) :
    tree.literals = Token.literals source.toList (lexer.tokenize source) := by
  rcases h with ⟨b, h, rfl⟩ | ⟨e, h, rfl⟩
  · exact Block.literals_of_parse h
  · exact Expr.literals_of_parse h

/-- A literal of a parsed tree is a literal token of the text. -/
theorem exists_token_of_parses (h : lexer.Parses source tree) {n : Node} (hn : n ∈ tree.preorder)
    {v : Value} (hv : n.head = .value v) (hliteral : v.isLiteral = true) :
    ∃ t ∈ lexer.tokenize source, t.kind.isLiteral = true ∧ t.span = n.span ∧
      t.value? source.toList = some v := by
  have hmem : (n.span, some v) ∈ tree.literals :=
    List.mem_filterMap.2 ⟨n, hn, by simp [Node.literal?, hv, hliteral]⟩
  rw [literals_of_parses h] at hmem
  obtain ⟨t, ht, heq⟩ := List.mem_map.1 hmem
  obtain ⟨ht, hkind⟩ := List.mem_filter.1 ht
  obtain ⟨hspan, hvalue⟩ := Prod.mk.inj heq
  exact ⟨t, ht, hkind, hspan, hvalue⟩

/-- A literal token of the text has a value, and is a literal of the parsed tree. -/
theorem exists_node_of_parses (h : lexer.Parses source tree) (ht : t ∈ lexer.tokenize source)
    (hkind : t.kind.isLiteral = true) : ∃ n ∈ tree.preorder, n.span = t.span ∧
      ∃ v, n.head = .value v ∧ t.value? source.toList = some v := by
  have hmem : (t.span, t.value? source.toList) ∈ tree.literals := by
    rw [literals_of_parses h]
    exact Token.mem_literals ht hkind
  obtain ⟨n, hn, hliteral⟩ := List.mem_filterMap.1 hmem
  cases hhead : n.head with
  | value v =>
    rw [Node.literal?, hhead] at hliteral
    simp only [Option.ite_none_right_eq_some, Option.some.injEq, Prod.mk.injEq] at hliteral
    exact ⟨n, hn, hliteral.2.1, v, hhead, hliteral.2.2.symm⟩
  | _ => simp [Node.literal?, hhead] at hliteral

/-- The kind of a literal token tells the sort of its value. -/
theorem kind_of_value? {v : Value} (h : t.value? source.toList = some v) :
    (∀ i, v = .integer i → t.kind = .integerLiteral) ∧ ∀ x, v = .float x → t.kind = .floatLiteral := by
  unfold Token.value? Grammar.literalValue? at h
  cases hkind : t.kind <;> simp only [hkind, Grammar.numberValue?, Option.map_eq_some_iff,
    reduceCtorEq] at h <;> obtain ⟨_, -, rfl⟩ := h <;> simp

theorem writesNumbers_of_parses (h : lexer.Parses source tree) : lexer.WritesNumbers source tree where
  integer n hn i hi := by
    obtain ⟨t, ht, -, hspan, hvalue⟩ := exists_token_of_parses h hn hi rfl
    have hkind := (kind_of_value? hvalue).1 i rfl
    rw [value?_integer ht hkind] at hvalue
    split at hvalue
    · next hlt =>
      obtain rfl : (t.decimal source : Int) = i := Value.integer.inj (Option.some.inj hvalue)
      exact ⟨t, ht, hkind, hspan, rfl, by omega, by exact_mod_cast hlt⟩
    · simp at hvalue
  float n hn x hx := by
    obtain ⟨t, ht, -, hspan, hvalue⟩ := exists_token_of_parses h hn hx rfl
    have hkind := (kind_of_value? hvalue).2 x rfl
    have hlexeme := lexeme_number ht (.inr hkind)
    rw [hkind] at hlexeme
    obtain ⟨digits, value, y, hy, htext, hdenotes, hsign, hnearest⟩ :=
      Grammar.numberValue?_float hlexeme
    rw [value?_number (.inr hkind), hkind, hy] at hvalue
    obtain rfl : y = x := Value.float.inj (Option.some.inj hvalue)
    exact ⟨t, ht, hkind, hspan, digits, value, htext, hdenotes, hsign, hnearest⟩
  written t ht hkind := by
    obtain ⟨n, hn, hspan, v, hv, hvalue⟩ := exists_node_of_parses h ht (by
      rcases hkind with h | h <;> rw [h] <;> rfl)
    exact ⟨n, hn, hspan, v, hv, (value?_number hkind).symm.trans hvalue⟩
  lt t ht hkind := by
    obtain ⟨-, -, -, v, -, hvalue⟩ := exists_node_of_parses h ht (by rw [hkind]; rfl)
    rw [value?_integer ht hkind] at hvalue
    split at hvalue
    · assumption
    · simp at hvalue

/-! ## Invalid literals -/

/-- Where a value is looked for, an integer without room stops all reading. -/
theorem value_of_le_decimal (ht : t ∈ lexer.tokenize source) (hkind : t.kind = .integerLiteral)
    (hle : 2 ^ 63 ≤ t.decimal source) (nested : Rule Expr) {s : TokenStream}
    (hsource : s.source = source.toList) (hfirst : s.first? = some t) :
    (Grammar.value nested s).result = .error (.invalidLiteral t.span) := by
  have hvalue : Grammar.literalValue? s t = none := by
    have hnone := value?_integer ht hkind
    rw [if_neg (by omega), ← hsource] at hnone
    exact hnone
  have hrejects : Grammar.value nested s = .reject s .literal := by
    rw [Grammar.value, hfirst]
    dsimp only
    rw [hkind]
    dsimp only
    rw [Grammar.literal, hvalue]
  rw [hrejects, Reply.result, ParseError.ofPosition, if_pos rfl, TokenStream.currentSpan, hfirst]
  rfl

end Lexer

end Sable
