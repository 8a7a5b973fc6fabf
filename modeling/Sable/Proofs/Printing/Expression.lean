import Mathlib.Tactic.IntervalCases
import Sable.Proofs.Printing.Reading

/-!
# Printed expressions are read back

The grammar reads an expression level by level. On most levels it reads an operand of the next
level and then goes on with operators of its own level as long as there are any, so that what has
been read may become the left operand of what follows. A text that may stand on a level is
therefore described by the steps of that level that lead over it.

## Main definitions

* `TokenKind.joinLevel?`: the level of the operator that a token is behind an operand.
* `Expr.Stops`: what may follow a text on a level.
* `Expr.AtLevel`: a text that the grammar reads on a level.

## Main statements

* `Expr.AtLevel.mono`: such a text may stand on any lower level.
* `Expr.readable`: printed expressions are read back.
-/
namespace Sable

open Lexeme TokenStream Rule Grammar

/-- How tightly a token binds that follows an operand and goes on with it. -/
def TokenKind.joinLevel? : TokenKind → Option Nat
  | .keyword .asWord | .punctuator .dot | .punctuator .arrow | .punctuator .openParen
  | .punctuator .openBracket => some Expr.postfixLevel
  | kind => (BinaryOp.ofToken? kind).map BinaryOp.precedence

/-- The kinds of tokens with which an expression begins. -/
def TokenKind.startsExpression : TokenKind → Bool
  | .identifier | .integerLiteral | .floatLiteral | .characterLiteral | .stringLiteral
  | .keyword .trueWord | .keyword .falseWord | .keyword .nullWord | .punctuator .openParen => true
  | kind => (UnaryOp.ofToken? kind).isSome

theorem BinaryOp.precedence_le (op : BinaryOp) : op.precedence ≤ maxPrecedence := by
  cases op <;> decide

theorem BinaryOp.leftLevel_le (op : BinaryOp) : op.leftLevel ≤ maxPrecedence := by
  cases op <;> decide

theorem BinaryOp.joinLevel?_punctuator (op : BinaryOp) :
    (TokenKind.punctuator op.punctuator).joinLevel? = some op.precedence := by
  cases op <;> rfl

namespace Expr

/-- What follows does not go on with a text of the level `k`; a type also takes all stars. -/
structure Stops (k : Nat) (endsInCast : Bool) (next : Option TokenKind) : Prop where
  lt : ∀ kind ∈ next, ∀ j ∈ kind.joinLevel?, j < k
  ne_star : endsInCast = true → next ≠ some (.punctuator .star)

theorem Stops.mono {k k' : Nat} {c : Bool} {next : Option TokenKind} (h : Stops k c next)
    (hk : k ≤ k') : Stops k' c next :=
  ⟨fun kind hkind j hj => (h.lt kind hkind j hj).trans_le hk, h.ne_star⟩

/-- A token that is no operator stops all. -/
theorem stops_of_joinLevel? {k : Nat} {c : Bool} {kind : TokenKind} (h : kind.joinLevel? = none) :
    Stops k c (some kind) := by
  refine ⟨?_, ?_⟩
  · rintro _ ⟨⟩ j hj
    simp [h] at hj
  · rintro - ⟨⟩
    simp [TokenKind.joinLevel?, BinaryOp.ofToken?, BinaryOp.all, BinaryOp.punctuator] at h

theorem Stops.joinLevel?_ne {k : Nat} {c : Bool} {next : Option TokenKind} (h : Stops k c next) :
    next.bind TokenKind.joinLevel? ≠ some k := by
  intro hk
  obtain ⟨kind, hkind, hj⟩ := Option.bind_eq_some_iff.1 hk
  exact absurd (h.lt kind hkind k hj) (Nat.lt_irrefl k)

/-- The text is read on the level `k`, if what follows does not go on with it. -/
def ReadBy (r : Rule Expr) (k : Nat) (ls : List Lexeme) (e : Expr) (c : Bool) : Prop :=
  r.Reads Expr.bare ls e.bare (Stops k c)

/-- Steps of the level `k` lead over the text, so that more of them may follow. -/
def LedOver (base : Rule Expr) (step : Expr → Rule Expr) (k : Nat) (ls : List Lexeme) (e : Expr)
    (c : Bool) : Prop :=
  ∀ ⦃s ms rest⦄, s.Ahead (ls ++ ms) rest → Stops (k + 1) c (nextKind? ms rest) →
    ∃ y s', Loop base step s y s' ∧ y.bare = e.bare ∧ s'.Ahead ms rest

section

variable {nested base : Rule Expr} {step : Expr → Rule Expr} {k : Nat} {ls : List Lexeme}
  {e : Expr} {c : Bool}

theorem ReadBy.ledOver (h : ReadBy base (k + 1) ls e c) : LedOver base step k ls e c := by
  intro s ms rest hs hms
  obtain ⟨y, s', hy, hye, hs'⟩ := h hs hms
  exact ⟨y, s', .base hy, hye, hs'⟩

theorem LedOver.readBy (h : LedOver base step k ls e c)
    (hstep : ∀ (x : Expr) (s : TokenStream), s.firstKind?.bind TokenKind.joinLevel? ≠ some k →
      (step x).Declines s) :
    ReadBy (do let x ← base; iterate step x) k ls e c := by
  intro s ms rest hs hms
  obtain ⟨y, s', hy, hye, hs'⟩ := h hs (hms.mono (Nat.le_succ k))
  refine ⟨y, s', hy.accept (hstep y s' ?_), hye, hs'⟩
  rw [hs'.firstKind?]
  exact hms.joinLevel?_ne

/-- A step that reads an operator and what belongs to it leads further. -/
theorem LedOver.further {op : Lexeme} {ls' : List Lexeme} {e' : Expr} {c' : Bool}
    (h : LedOver base step k ls e c) (hop : Stops (k + 1) c (some op.kind))
    (hstep : ∀ ⦃x s ms rest⦄, x.bare = e.bare → s.Ahead (op :: ls' ++ ms) rest →
      Stops (k + 1) c' (nextKind? ms rest) →
      ∃ y s', step x s = .accept y s' ∧ y.bare = e'.bare ∧ s'.Ahead ms rest) :
    LedOver base step k (ls ++ op :: ls') e' c' := by
  intro s ms rest hs hms
  rw [List.append_assoc] at hs
  obtain ⟨x, s₁, hx, hxe, hs₁⟩ := h hs hop
  obtain ⟨y, s', hy, hye, hs'⟩ := hstep hxe hs₁ hms
  refine ⟨y, s', hx.step hy ?_, hye, hs'⟩
  rw [hs₁.length_tokens, hs'.length_tokens]
  simp only [List.length_append, List.length_cons]
  omega

end

/-! ## Where the rules stop -/

section

variable {nested operand : Rule Expr} {s : TokenStream}

theorem declines_binaryRest {p : BinaryOp → Bool} {x : Expr}
    (h : ∀ op : BinaryOp, p op = true →
      s.firstKind?.bind TokenKind.joinLevel? ≠ some op.precedence) :
    (binaryRest p operand x).Declines s := by
  refine Declines.bind (declines_operator ?_) _
  by_contra hne
  obtain ⟨op, hop⟩ := Option.ne_none_iff_exists'.1 hne
  obtain ⟨kind, hkind, hfilter⟩ := Option.bind_eq_some_iff.1 hop
  obtain ⟨hofToken, hp⟩ := Option.filter_eq_some_iff.1 hfilter
  obtain rfl := BinaryOp.eq_punctuator_of_ofToken? hofToken
  exact h op hp (by rw [hkind, Option.bind_some, BinaryOp.joinLevel?_punctuator])

theorem declines_suffix {x : Expr}
    (h : s.firstKind?.bind TokenKind.joinLevel? ≠ some postfixLevel) :
    (suffix nested x).Declines s := by
  have hne : ∀ kind : TokenKind, kind.joinLevel? = some postfixLevel →
      s.firstKind? ≠ some kind := by
    intro kind hkind hfirst
    exact h (by rw [hfirst, Option.bind_some, hkind])
  exact .orElse (.bind (declines_token (hne _ rfl)) _) <|
    .orElse (.bind (declines_token (hne _ rfl)) _) <|
    .orElse (.bind (declines_token (hne _ rfl)) _) <|
    .orElse (.bind (declines_token (hne _ rfl)) _) (.bind (declines_token (hne _ rfl)) _)

/-- What begins with a value does not begin with a prefix operator. -/
theorem ofToken?_of_value {y : Expr} {s' : TokenStream} (h : Grammar.value nested s = .accept y s') :
    s.firstKind?.bind UnaryOp.ofToken? = none := by
  unfold Grammar.value at h
  split at h
  · simp at h
  · next t ht =>
    rw [firstKind?, ht, Option.map_some, Option.bind_some]
    split at h
    all_goals first
      | simp at h
      | simp_all [UnaryOp.ofToken?, UnaryOp.all, UnaryOp.punctuator]

theorem unaryWithin_of_postfixed {y : Expr} {s' : TokenStream}
    (h : postfixed nested s = .accept y s') (bound : List Token) :
    unaryWithin nested bound s = .accept y s' := by
  cases bound with
  | nil => exact h
  | cons t bound =>
    obtain ⟨x, s₁, hx, -⟩ := bind_eq_accept.1 h
    exact orElse_accept (.located (.bind (declines_operator (ofToken?_of_value hx)) _)) h

end

theorem declines_value (h : ∀ kind ∈ s.firstKind?, kind.startsExpression = false) :
    (Grammar.value nested).Declines s := by
  unfold Grammar.value
  cases hfirst : s.first? with
  | none => exact ⟨s, .expression, by simp [hfirst]⟩
  | some t =>
    have hstarts := h t.kind (by simp [firstKind?, hfirst])
    refine ⟨s, .expression, ?_, rfl⟩
    simp only [hfirst]
    split <;> simp_all [TokenKind.startsExpression]

theorem declines_expressionWithin {bound : List Token}
    (h : ∀ kind ∈ s.firstKind?, kind.startsExpression = false) :
    (expressionWithin bound).Declines s := by
  cases bound with
  | nil => exact ⟨s, .expression, rfl, rfl⟩
  | cons t bound =>
    have hpostfixed : (postfixed (expressionWithin bound)).Declines s := .bind (declines_value h) _
    have hoperator : s.firstKind?.bind UnaryOp.ofToken? = none := by
      cases hkind : s.firstKind? with
      | none => rfl
      | some kind =>
        have hstarts := h kind hkind
        unfold TokenKind.startsExpression at hstarts
        split at hstarts <;> simp_all
    have hunary : (Grammar.unary (expressionWithin bound)).Declines s := by
      unfold Declines Grammar.unary
      cases s.tokens with
      | nil => exact hpostfixed
      | cons u tokens =>
        exact Declines.orElse (.located (.bind (declines_operator hoperator) _)) hpostfixed
    have hbinary : ∀ levels, (binaryWithin (expressionWithin bound) levels).Declines s := by
      intro levels
      induction levels with
      | zero => exact hunary
      | succ levels ih => exact ih.bind _
    exact (hbinary _).bind _

/-! ## Levels -/

/-- The grammar reads the text on the level `k`. -/
def AtLevel (nested : Rule Expr) (ls : List Lexeme) (e : Expr) (c : Bool) : Nat → Prop
  | 0 => ReadBy (assignment nested) 0 ls e c
  | 6 => ∀ bound : List Token, ls.length ≤ bound.length + 1 →
    ReadBy (unaryWithin nested bound) 6 ls e c
  | 7 => LedOver (Grammar.value nested) (suffix nested) 7 ls e c
  | 8 => ReadBy (Grammar.value nested) 8 ls e c
  | k => LedOver (binaryWithin nested (5 - k))
    (binaryRest (·.precedence == k) (binaryWithin nested (5 - k))) k ls e c

namespace AtLevel

variable {nested : Rule Expr} {ls : List Lexeme} {e : Expr} {c : Bool} {k : Nat}

theorem iff_ledOver (hk : 1 ≤ k) (hk' : k ≤ 5) : AtLevel nested ls e c k ↔
    LedOver (binaryWithin nested (5 - k))
      (binaryRest (·.precedence == k) (binaryWithin nested (5 - k))) k ls e c := by
  interval_cases k <;> rfl

/-- A text of the level of a binary or a prefix operator is read by the rule of the level. -/
theorem readBy_binaryWithin (h : AtLevel nested ls e c k) (hk : 1 ≤ k) (hk' : k ≤ 6) :
    ReadBy (binaryWithin nested (6 - k)) k ls e c := by
  rcases Nat.lt_or_ge k 6 with hlt | hge
  · have hled := (iff_ledOver hk (by omega)).1 h
    obtain ⟨levels, hlevels⟩ : ∃ levels, levels = 5 - k := ⟨_, rfl⟩
    have hk : BinaryOp.maxPrecedence - levels = k := by
      simp only [BinaryOp.maxPrecedence]
      omega
    rw [← hlevels, ← hk] at hled
    rw [show 6 - k = levels + 1 by omega, ← hk]
    refine hled.readBy ?_
    intro x s hs
    refine declines_binaryRest ?_
    intro op hop
    rw [eq_of_beq hop]
    exact hs
  · obtain rfl : k = 6 := by omega
    intro s ms rest hs hms
    refine h s.tokens ?_ hs hms
    rw [hs.length_tokens, List.length_append]
    omega

theorem pred (hk : k ≤ 7) (h : AtLevel nested ls e c (k + 1)) : AtLevel nested ls e c k := by
  rcases Nat.lt_or_ge k 6 with hlt | hge
  · rcases Nat.eq_zero_or_pos k with rfl | hpos
    · have hbinary := h.readBy_binaryWithin (by omega) (by omega)
      intro s ms rest hs hms
      obtain ⟨y, s', hy, hye, hs'⟩ := hbinary hs (hms.mono (by omega))
      refine ⟨y, s', bind_accept hy (orElse_accept (declines_binaryRest ?_) rfl), hye, hs'⟩
      intro op hop
      rw [hs'.firstKind?, eq_of_beq hop]
      exact hms.joinLevel?_ne
    · rw [iff_ledOver hpos (by omega)]
      refine ReadBy.ledOver ?_
      rw [show 5 - k = 6 - (k + 1) by omega]
      exact h.readBy_binaryWithin (by omega) (by omega)
  · obtain rfl | rfl : k = 6 ∨ k = 7 := by omega
    · have hled : LedOver (Grammar.value nested) (suffix nested) 7 ls e c := h
      have hpostfixed := hled.readBy fun _ _ hs => declines_suffix hs
      intro bound _ s ms rest hs hms
      obtain ⟨y, s', hy, hye, hs'⟩ := hpostfixed hs (hms.mono (by omega))
      exact ⟨y, s', unaryWithin_of_postfixed hy bound, hye, hs'⟩
    · exact ReadBy.ledOver h

theorem mono {j : Nat} (h : AtLevel nested ls e c k) (hk : k ≤ 8) (hj : j ≤ k) :
    AtLevel nested ls e c j := by
  induction hj using Nat.decreasingInduction with
  | self => exact h
  | of_succ m hm ih => exact ih.pred (by omega)

end AtLevel

/-! ## Printed expressions -/

theorem level_le (e : Expr) : e.level ≤ 8 := by
  cases e with
  | binary _ op => exact op.precedence_le.trans (by decide)
  | _ => simp [level, Value.level, UnaryOp.level, postfixLevel]

theorem lexemes_ne_nil (numeral : Value → String) (e : Expr) : e.lexemes numeral ≠ [] := by
  cases e <;> simp [lexemes]

theorem parenthesized_ne_nil (parens : Bool) {ls : List Lexeme} (h : ls ≠ []) :
    parenthesized parens ls ≠ [] := by
  cases parens <;> simp [parenthesized, h]

/-- However expressions are nested, as long as the bound allows for them, the printed expression is
read on its level. -/
def Readable (numeral : Value → String) (e : Expr) : Prop :=
  ∀ bound : List Token, (e.lexemes numeral).length ≤ bound.length + 1 →
    AtLevel (expressionWithin bound) (e.lexemes numeral) e e.endsInCast e.level

section

variable {numeral : Value → String}

theorem Readable.readBy_expressionWithin {e : Expr} (h : e.Readable numeral) {bound : List Token}
    (hbound : (e.lexemes numeral).length ≤ bound.length) :
    ReadBy (expressionWithin bound) 0 (e.lexemes numeral) e e.endsInCast := by
  cases bound with
  | nil =>
    have hpos := List.length_pos_of_ne_nil (e.lexemes_ne_nil numeral)
    simp only [List.length_nil] at hbound
    omega
  | cons t bound => exact (h bound hbound).mono e.level_le (Nat.zero_le _)

theorem Readable.atLevel_parenthesized {e : Expr} (h : e.Readable numeral) (parens : Bool) {k : Nat}
    (hk : k ≤ 8) (hlevel : parens = false → k ≤ e.level) {bound : List Token}
    (hbound : (parenthesized parens (e.lexemes numeral)).length ≤ bound.length + 1) :
    AtLevel (expressionWithin bound) (parenthesized parens (e.lexemes numeral)) e
      (!parens && e.endsInCast) k := by
  cases parens with
  | false => exact (h bound hbound).mono e.level_le (hlevel rfl)
  | true =>
    simp only [parenthesized, if_true, List.length_append, List.length_cons, List.length_nil] at hbound
    have hnested : ReadBy (expressionWithin bound) 0 (e.lexemes numeral) e e.endsInCast :=
      h.readBy_expressionWithin (by omega)
    have hvalue : ReadBy (Grammar.value (expressionWithin bound)) 8
        (parenthesized true (e.lexemes numeral)) e false := by
      intro s ms rest hs hms
      rw [parenthesized, if_pos rfl, List.append_assoc] at hs
      obtain ⟨t, hfirst, ht, -⟩ := hs.first?
      obtain ⟨u, s₁, hu, hs⟩ := exists_punctuator_accept hs
      obtain ⟨y, s₂, hy, hye, hs⟩ := hnested hs (stops_of_joinLevel? rfl)
      obtain ⟨v, s₃, hv, hs⟩ := exists_expect_accept hs
      refine ⟨y, s₃, ?_, hye, hs⟩
      have hkind : t.kind = .punctuator .openParen := ht.kind_eq
      simp only [Grammar.value, hfirst, hkind]
      exact bind_accept hu (bind_accept (required_accept hy) (bind_accept hv rfl))
    have h8 : AtLevel (expressionWithin bound) (parenthesized true (e.lexemes numeral)) e false 8 :=
      hvalue
    exact h8.mono (Nat.le_refl 8) hk

theorem constant_accept (v : Value) (s : TokenStream) :
    ∃ place, constant v s = .accept (.value place v) s.tail.drawId :=
  ⟨⟨s.tail.nextId, s.tail.spanSince s⟩, rfl⟩

theorem readable_value {v : Value} (hv : v.IsSpelled numeral) (place : Place) :
    (Expr.value place v).Readable numeral := by
  intro bound _ s ms rest hs _
  obtain ⟨t, hfirst, ht, htail⟩ := hs.first?
  have hkind := ht.kind_eq
  have htext := ht.text_eq
  have hnumber : ∀ n : Value, Grammar.numberValue? (v.lexeme numeral).kind
      (v.lexeme numeral).text.toList = some n → numberValue? t.kind (s.textOf t.span) = some n := by
    intro n hn
    rw [hkind, show s.textOf t.span = t.lexeme s.source from rfl, ht.lexeme_eq]
    exact hn
  have hconstant : Grammar.value (expressionWithin bound) s = constant v s →
      ∃ y s', Grammar.value (expressionWithin bound) s = .accept y s' ∧
        y.bare = (Expr.value place v).bare ∧ s'.Ahead ms rest := by
    intro h
    obtain ⟨place, hplace⟩ := constant_accept v s
    exact ⟨_, _, h.trans hplace, rfl, htail⟩
  obtain ⟨-, hdenotes⟩ := hv
  cases v with
  | integer n =>
    have hvalue := hnumber _ hdenotes
    simp only [Value.lexeme] at hkind
    refine hconstant ?_
    simp only [Grammar.value, hfirst, hkind, literal, literalValue?] at hvalue ⊢
    rw [hvalue]
  | float x =>
    have hvalue := hnumber _ hdenotes
    simp only [Value.lexeme] at hkind
    refine hconstant ?_
    simp only [Grammar.value, hfirst, hkind, literal, literalValue?] at hvalue ⊢
    rw [hvalue]
  | character lexeme | string lexeme =>
    simp only [Value.lexeme, TokenKind.hasText, TokenKind.isLiteral, if_true] at hkind htext
    refine hconstant ?_
    simp only [Grammar.value, hfirst, hkind, literal, literalValue?, htext, Option.map_some]
  | boolean b =>
    refine hconstant ?_
    cases b <;> simp only [Value.lexeme, word] at hkind <;>
      simp only [Grammar.value, hfirst, hkind]
  | null =>
    refine hconstant ?_
    simp only [Value.lexeme, word] at hkind
    simp only [Grammar.value, hfirst, hkind]
  | identifier name =>
    obtain ⟨name', s₁, hname, hbare, hs₁⟩ := exists_identifier_accept hs
    have hvariable : variableName s = .accept
        (.value ⟨s₁.nextId, s₁.spanSince s⟩ (.identifier name')) s₁.drawId :=
      located_eq_accept.2 ⟨_, s₁, bind_accept hname rfl, rfl, rfl⟩
    have hvalue : Grammar.value (expressionWithin bound) s = variableName s := by
      simp only [Value.lexeme, Lexeme.name] at hkind
      simp only [Grammar.value, hfirst, hkind]
    exact ⟨_, _, hvalue.trans hvariable, by simp [Value.bare, hbare], hs₁⟩

theorem Readable.unary {operand : Expr} (h : operand.Readable numeral) (place : Place)
    (op : UnaryOp) : (Expr.unary place op operand).Readable numeral := by
  intro bound hbound
  have hlen : (parenthesized (operand.level < UnaryOp.level) (operand.lexemes numeral)).length ≤
      bound.length := by
    simpa [lexemes] using hbound
  have hoperand := h.atLevel_parenthesized (operand.level < UnaryOp.level)
    (show UnaryOp.level ≤ 8 by decide) (by simp) (hlen.trans (Nat.le_succ _))
  intro unaries hunaries s ms rest hs hms
  cases unaries with
  | nil =>
    have hpos := List.length_pos_of_ne_nil (parenthesized_ne_nil (operand.level < UnaryOp.level)
      (operand.lexemes_ne_nil numeral))
    simp only [lexemes, List.length_cons, List.length_nil] at hunaries
    omega
  | cons t unaries =>
    simp only [lexemes, List.length_cons] at hunaries
    obtain ⟨s₁, hop, hs⟩ := exists_operator_accept UnaryOp.ofToken? hs op.ofToken?_punctuator
    obtain ⟨y, s₂, hy, hye, hs⟩ := hoperand unaries (by omega) hs hms
    have hunary : unaryWithin _ (t :: unaries) s = .accept
        (.unary ⟨s₂.nextId, s₂.spanSince s⟩ op y) s₂.drawId :=
      orElse_accept_left (located_eq_accept.2
        ⟨_, s₂, bind_accept hop (bind_accept (required_accept hy) rfl), rfl, rfl⟩)
    exact ⟨_, _, hunary, by simp [hye], hs⟩

theorem exists_binaryRest_accept {p : BinaryOp → Bool} {operand : Rule Expr} {op : BinaryOp}
    {k : Nat} {ls ms : List Lexeme} {right : Expr} {c : Bool} {s : TokenStream} {rest : List Token}
    (hp : p op = true) (hr : ReadBy operand k ls right c)
    (hs : s.Ahead (sign op.punctuator :: ls ++ ms) rest) (hms : Stops k c (nextKind? ms rest))
    (x : Expr) : ∃ place y s', binaryRest p operand x s = .accept (.binary place op x y) s' ∧
      y.bare = right.bare ∧ s'.Ahead ms rest := by
  have hop : (BinaryOp.ofToken? (.punctuator op.punctuator)).filter p = some op := by
    simp [BinaryOp.ofToken?_punctuator, hp]
  obtain ⟨s₁, hop, hs⟩ :=
    exists_operator_accept (fun kind => (BinaryOp.ofToken? kind).filter p) hs hop
  obtain ⟨y, s₂, hy, hye, hs⟩ := hr hs hms
  exact ⟨_, y, s₂.drawId, bind_accept hop (bind_accept (required_accept hy) rfl), hye, hs⟩

/-- Both operands of a binary operator are read, and the left one so that the operator is not taken
for a star of its type. -/
theorem Readable.binary {left right : Expr} (hleft : left.Readable numeral)
    (hright : right.Readable numeral) (place : Place) (op : BinaryOp) :
    (Expr.binary place op left right).Readable numeral := by
  intro bound hbound
  simp only [lexemes, List.length_append, List.length_cons] at hbound
  have hl : AtLevel (expressionWithin bound)
      (parenthesized (op.parenthesizesLeft left) (left.lexemes numeral)) left
      (!op.parenthesizesLeft left && left.endsInCast) op.leftLevel := by
    refine hleft.atLevel_parenthesized _ (op.leftLevel_le.trans (by decide)) ?_ (by omega)
    intro h
    simp only [BinaryOp.parenthesizesLeft, Bool.or_eq_false_iff, decide_eq_false_iff_not] at h
    omega
  have hstop : Stops (op.precedence + 1) (!op.parenthesizesLeft left && left.endsInCast)
      (some (sign op.punctuator).kind) := by
    refine ⟨?_, ?_⟩
    · rintro _ ⟨⟩ j hj
      obtain rfl : op.precedence = j := by
        simpa [sign, BinaryOp.joinLevel?_punctuator] using hj
      exact Nat.lt_succ_self _
    · intro h
      cases op with
      | mul =>
        simp only [BinaryOp.parenthesizesLeft] at h
        grind
      | _ => simp [sign, BinaryOp.punctuator]
  have hright' : (parenthesized (right.level < op.rightLevel) (right.lexemes numeral)).length ≤
      bound.length := by
    omega
  rcases Nat.eq_zero_or_pos op.precedence with hzero | hpos
  · have hassign : op.isAssignment = true := by simp [BinaryOp.isAssignment, hzero]
    have hlevel : op.leftLevel = 1 := by simp [BinaryOp.leftLevel, hassign]
    have hr : ReadBy (expressionWithin bound) 0
        (parenthesized (right.level < op.rightLevel) (right.lexemes numeral)) right
        (Expr.binary place op left right).endsInCast := by
      simp only [BinaryOp.rightLevel, hassign, if_true, Nat.not_lt_zero, decide_false,
        parenthesized, endsInCast, Bool.not_false, Bool.true_and, Bool.false_eq_true,
        if_false] at hright' ⊢
      exact hright.readBy_expressionWithin hright'
    rw [hlevel] at hl
    rw [hzero] at hstop
    rw [show (Expr.binary place op left right).level = 0 from hzero]
    intro s ms rest hs hms
    rw [lexemes, List.append_assoc] at hs
    obtain ⟨x, s₁, hx, hxe, hs⟩ :=
      hl.readBy_binaryWithin (Nat.le_refl 1) (by decide) hs hstop
    obtain ⟨place', y, s₂, hy, hye, hs⟩ :=
      exists_binaryRest_accept (p := BinaryOp.isAssignment) hassign hr hs hms x
    exact ⟨_, s₂, bind_accept hx (orElse_accept_left hy), by simp [hxe, hye], hs⟩
  · have hassign : op.isAssignment = false := by
      simp only [BinaryOp.isAssignment, beq_eq_false_iff_ne]
      omega
    have hlevel : op.leftLevel = op.precedence := by simp [BinaryOp.leftLevel, hassign]
    have hlevel' : op.rightLevel = op.precedence + 1 := by simp [BinaryOp.rightLevel, hassign]
    have hle := op.precedence_le
    simp only [BinaryOp.maxPrecedence] at hle
    have hr : AtLevel (expressionWithin bound) _ _ _ (op.precedence + 1) :=
      hright.atLevel_parenthesized (right.level < op.rightLevel) (by omega) (by simp [hlevel'])
        (hright'.trans (Nat.le_succ _))
    have hr := hr.readBy_binaryWithin (by omega) (by omega)
    rw [hlevel] at hl
    rw [show (Expr.binary place op left right).level = op.precedence from rfl,
      AtLevel.iff_ledOver hpos hle]
    refine LedOver.further ((AtLevel.iff_ledOver hpos hle).1 hl) hstop ?_
    intro x s ms rest hxe hs hms
    rw [show 6 - (op.precedence + 1) = 5 - op.precedence by omega] at hr
    obtain ⟨place', y, s₂, hy, hye, hs⟩ := exists_binaryRest_accept
      (p := fun op' => op'.precedence == op.precedence) (by simp) hr hs hms x
    exact ⟨_, s₂, hy, by simp [hxe, hye], hs⟩

/-- What follows an operand begins with `op` and goes on with `ls`. -/
theorem Readable.suffixed {operand e : Expr} (h : operand.Readable numeral) (op : Lexeme)
    (ls : List Lexeme) (hlevel : e.level = postfixLevel)
    (hlexemes : e.lexemes numeral =
      parenthesized (operand.level < postfixLevel) (operand.lexemes numeral) ++ op :: ls)
    (hop : op.kind.joinLevel? = some postfixLevel)
    (hstep : ∀ (bound : List Token), ls.length ≤ bound.length → ∀ ⦃x s ms rest⦄,
      x.bare = operand.bare → s.Ahead (op :: ls ++ ms) rest →
      Stops 8 e.endsInCast (nextKind? ms rest) →
      ∃ y s', suffix (expressionWithin bound) x s = .accept y s' ∧ y.bare = e.bare ∧
        s'.Ahead ms rest) : e.Readable numeral := by
  intro bound hbound
  rw [hlexemes, List.length_append, List.length_cons] at hbound
  have hoperand := h.atLevel_parenthesized (operand.level < postfixLevel)
    (show postfixLevel ≤ 8 by decide) (by simp) (show _ ≤ bound.length + 1 by omega)
  rw [hlevel, hlexemes]
  refine LedOver.further hoperand ⟨?_, ?_⟩ (hstep bound (by omega))
  · rintro _ ⟨⟩ j hj
    obtain rfl : postfixLevel = j := by simpa [hop] using hj
    decide
  · intro _ heq
    rw [Option.some.inj heq] at hop
    exact absurd hop (by decide)

theorem Readable.access {object : Expr} (h : object.Readable numeral) (place : Place)
    (kind : AccessKind) (member : Ident) :
    (Expr.access place kind object member).Readable numeral := by
  refine h.suffixed (sign kind.punctuator) [.name member] rfl rfl (by cases kind <;> rfl) ?_
  intro bound _ x s ms rest hx hs _
  have hfirst := hs.firstKind?
  obtain ⟨t, s₁, ht, hs⟩ := exists_punctuator_accept hs
  obtain ⟨member', s₂, hmember, hbare, hs⟩ := exists_identifier_accept hs
  have haccess : Grammar.access kind x s = .accept
      (.access ⟨s₂.nextId, x.span.merge member'.span⟩ kind x member') s₂.drawId :=
    bind_accept ht (bind_accept (required_accept hmember) rfl)
  have hsuffix : suffix (expressionWithin bound) x s = .accept
      (.access ⟨s₂.nextId, x.span.merge member'.span⟩ kind x member') s₂.drawId := by
    cases kind with
    | dot => exact orElse_accept_left haccess
    | arrow =>
      refine orElse_accept (.bind (declines_token ?_) _) (orElse_accept_left haccess)
      rw [hfirst]
      simp [nextKind?, sign, AccessKind.punctuator]
  exact ⟨_, _, hsuffix, by simp [hx, hbare], hs⟩

theorem Readable.index {target subscript : Expr} (htarget : target.Readable numeral)
    (hsubscript : subscript.Readable numeral) (place : Place) :
    (Expr.index place target subscript).Readable numeral := by
  refine htarget.suffixed (sign .openBracket) (subscript.lexemes numeral ++ [sign .closeBracket])
    rfl (by simp [lexemes]) rfl ?_
  intro bound hbound x s ms rest hx hs _
  rw [List.length_append] at hbound
  rw [List.cons_append, List.append_assoc] at hs
  have hfirst := hs.firstKind?
  have hnested : ReadBy (expressionWithin bound) 0 _ _ _ :=
    hsubscript.readBy_expressionWithin (by omega)
  obtain ⟨t, s₁, ht, hs⟩ := exists_punctuator_accept hs
  obtain ⟨y, s₂, hy, hye, hs⟩ := hnested hs (stops_of_joinLevel? rfl)
  obtain ⟨u, s₃, hu, hs⟩ := exists_expect_accept hs
  have hindex : Grammar.index (expressionWithin bound) x s = .accept
      (.index ⟨s₃.nextId, x.span.merge u.span⟩ x y) s₃.drawId :=
    bind_accept ht (bind_accept (required_accept hy) (bind_accept hu rfl))
  have hne : ∀ kind, kind ≠ .punctuator .openBracket → s.firstKind? ≠ some kind := by
    intro kind hkind
    rw [hfirst]
    exact fun heq => hkind (Option.some.inj heq).symm
  have hsuffix : suffix (expressionWithin bound) x s = _ :=
    orElse_accept (.bind (declines_token (hne _ (by simp [AccessKind.punctuator]))) _) <|
    orElse_accept (.bind (declines_token (hne _ (by simp [AccessKind.punctuator]))) _) <|
    orElse_accept (.bind (declines_token (hne _ (by simp))) _) <|
    orElse_accept (.bind (declines_token (hne _ (by simp))) _) hindex
  exact ⟨_, _, hsuffix, by simp [hx, hye], hs⟩

/-- A type takes all stars behind its name. -/
theorem reads_writtenType (t : WrittenType) : writtenType.Reads WrittenType.bare t.lexemes t.bare
    fun next => next ≠ some (.punctuator .star) := by
  have hstar : ∀ l ∈ List.replicate t.stars (sign .star),
      (punctuator .star).Reads (fun _ => ()) [l] () fun _ => True := by
    intro l hl s ms rest hs _
    rw [List.eq_of_mem_replicate hl] at hs
    obtain ⟨u, s', hu, hs⟩ := exists_punctuator_accept hs
    exact ⟨u, s', hu, rfl, hs⟩
  intro s ms rest hs hms
  obtain ⟨name, s₁, hname, hbare, hs⟩ := exists_identifier_accept hs
  rw [← List.flatMap_singleton' (List.replicate t.stars (sign .star))] at hs
  obtain ⟨stars, s₂, hstars, hlen, hs⟩ := reads_many (yields_punctuator .star) hstar
    (fun l _ => ⟨l, [], rfl, trivial⟩) hs
    ⟨trivial, fun s hfirst => declines_token (hfirst ▸ hms)⟩
  have htype : writtenType s = _ :=
    located_eq_accept.2 ⟨_, s₂, bind_accept hname (bind_accept hstars rfl), rfl, rfl⟩
  refine ⟨_, _, htype, ?_, hs⟩
  have hlen := congrArg List.length hlen
  simp only [List.length_map, List.length_replicate] at hlen
  simp [WrittenType.bare, hbare, hlen]

theorem Readable.cast {operand : Expr} (h : operand.Readable numeral) (place : Place)
    (target : WrittenType) : (Expr.cast place operand target).Readable numeral := by
  refine h.suffixed (word .asWord) target.lexemes rfl rfl rfl ?_
  intro bound _ x s ms rest hx hs hms
  have hfirst := hs.firstKind?
  obtain ⟨t, s₁, ht, hs⟩ := exists_keyword_accept hs
  obtain ⟨target', s₂, htarget, hbare, hs⟩ := reads_writtenType target hs (hms.ne_star rfl)
  have hcast : Grammar.cast x s = .accept
      (.cast ⟨s₂.nextId, x.span.merge target'.place.span⟩ x target') s₂.drawId :=
    bind_accept ht (bind_accept (required_accept htarget) rfl)
  have hne : ∀ p, s.firstKind? ≠ some (.punctuator p) := by
    intro p
    rw [hfirst]
    simp [nextKind?, word]
  have hsuffix : suffix (expressionWithin bound) x s = _ :=
    orElse_accept (.bind (declines_token (hne _)) _) <|
    orElse_accept (.bind (declines_token (hne _)) _) <|
    orElse_accept (.bind (declines_token (hne _)) _) (orElse_accept_left hcast)
  exact ⟨_, _, hsuffix, by simp [hx, hbare], hs⟩

theorem Readable.call {callee : Expr} {arguments : List Expr} (h : callee.Readable numeral)
    (harguments : ∀ a ∈ arguments, a.Readable numeral) (place : Place) :
    (Expr.call place callee arguments).Readable numeral := by
  refine h.suffixed (sign .openParen)
    (commas (arguments.map (Expr.lexemes numeral)) ++ [sign .closeParen])
    rfl (by simp [lexemes, listLexemes_eq_map]) rfl ?_
  intro bound hbound x s ms rest hx hs _
  rw [List.length_append] at hbound
  rw [List.cons_append, List.append_assoc] at hs
  have hfirst := hs.firstKind?
  have hreads : ∀ a ∈ arguments, (expressionWithin bound).Reads Expr.bare (a.lexemes numeral) a.bare
      fun next => next = some (.punctuator .comma) ∨ next = some (.punctuator .closeParen) := by
    intro a ha s ms rest hs hms
    have hlen := length_le_commas (List.mem_map_of_mem (f := Expr.lexemes numeral) ha)
    refine (harguments a ha).readBy_expressionWithin (by omega) hs ?_
    rcases hms with hms | hms <;> exact hms ▸ stops_of_joinLevel? rfl
  obtain ⟨t, s₁, ht, hs⟩ := exists_punctuator_accept hs
  obtain ⟨ys, s₂, hys, hbare, hs⟩ := reads_commaList (yields_expressionWithin bound) hreads (.inl rfl)
    hs ⟨.inr rfl, by simp [nextKind?, sign], fun s hs => declines_expressionWithin (by
      rw [hs]
      rintro _ ⟨⟩
      rfl)⟩
  obtain ⟨u, s₃, hu, hs⟩ := exists_expect_accept hs
  have hcall : Grammar.call (expressionWithin bound) x s = .accept
      (.call ⟨s₃.nextId, x.span.merge u.span⟩ x ys) s₃.drawId :=
    bind_accept ht (bind_accept hys (bind_accept hu rfl))
  have hne : ∀ kind, kind ≠ .punctuator .openParen → s.firstKind? ≠ some kind := by
    intro kind hkind
    rw [hfirst]
    exact fun heq => hkind (Option.some.inj heq).symm
  have hsuffix : suffix (expressionWithin bound) x s = _ :=
    orElse_accept (.bind (declines_token (hne _ (by simp [AccessKind.punctuator]))) _) <|
    orElse_accept (.bind (declines_token (hne _ (by simp [AccessKind.punctuator]))) _)
      (orElse_accept_left hcall)
  refine ⟨_, _, hsuffix, ?_, hs⟩
  simp [hx, listBare_eq_map, hbare]

end

mutual

/-- Whatever is written in it can be read, so the printed expression is read back. -/
theorem readable {numeral : Value → String} : (e : Expr) → e.tree.Writable numeral →
    e.Readable numeral
  | .value place v, h => readable_value ((Tree.writable_node.1 h).1.2 v rfl) place
  | .unary place op operand, h =>
    (readable operand ((Tree.writable_node.1 h).2 _ (by simp))).unary place op
  | .binary place op left right, h =>
    (readable left ((Tree.writable_node.1 h).2 _ (by simp))).binary
      (readable right ((Tree.writable_node.1 h).2 _ (by simp))) place op
  | .access place kind object member, h =>
    (readable object ((Tree.writable_node.1 h).2 _ (by simp))).access place kind member
  | .call place callee arguments, h =>
    (readable callee ((Tree.writable_node.1 h).2 _ (by simp))).call
      (readables arguments fun t ht => (Tree.writable_node.1 h).2 t (by simp [ht])) place
  | .cast place operand target, h =>
    (readable operand ((Tree.writable_node.1 h).2 _ (by simp))).cast place target
  | .index place target subscript, h =>
    (readable target ((Tree.writable_node.1 h).2 _ (by simp))).index
      (readable subscript ((Tree.writable_node.1 h).2 _ (by simp))) place

theorem readables {numeral : Value → String} : (es : List Expr) →
    (∀ t ∈ Expr.trees es, t.Writable numeral) → ∀ e ∈ es, e.Readable numeral
  | [], _ => by simp
  | e :: es, h => List.forall_mem_cons.2
    ⟨readable e (h _ (by simp [Expr.trees])),
      readables es fun t ht => h t (by simp [Expr.trees, ht])⟩

end

end Expr

end Sable
