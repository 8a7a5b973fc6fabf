import Sable.Proofs.Grammar.Soundness
import Sable.Proofs.Printing.Lexing

/-!
# Reading printed words

A rule reads printed words if what follows them does not go on with them. All that matters of what
follows is the kind of the next token.

## Main definitions

* `TokenStream.Ahead`: the words that come next in a stream.
* `Rule.Reads`: a rule reads some words and makes a tree, up to places.
* `Rule.Loop`: the steps of an iteration, from the left.

## Main statements

* `Rule.Loop.accept`: an iteration stops where its step declines.
* `Rule.reads_many`, `Rule.reads_commaList`: repetition.
-/
namespace Sable

/-- The tokens ahead stand for the words `ls`, and `rest` is behind them. -/
def TokenStream.Ahead (s : TokenStream) (ls : List Lexeme) (rest : List Token) : Prop :=
  ∃ ts, s.tokens = ts ++ rest ∧ List.Forall₂ (Token.IsFor s.source) ts ls

/-- The kind of what comes next. -/
def Lexeme.nextKind? (ls : List Lexeme) (rest : List Token) : Option TokenKind :=
  match ls with
  | [] => rest.head?.map Token.kind
  | l :: _ => some l.kind

open Lexeme

namespace TokenStream

variable {s : TokenStream} {l : Lexeme} {ls : List Lexeme} {rest : List Token}

theorem ahead_nil : s.Ahead [] rest ↔ s.tokens = rest := by
  constructor
  · rintro ⟨ts, h, hts⟩
    obtain rfl := List.forall₂_nil_right_iff.1 hts
    exact h
  · intro h
    exact ⟨[], h, .nil⟩

@[simp] theorem ahead_drawId : s.drawId.Ahead ls rest ↔ s.Ahead ls rest := Iff.rfl

theorem Ahead.first? (h : s.Ahead (l :: ls) rest) :
    ∃ t, s.first? = some t ∧ t.IsFor s.source l ∧ s.tail.Ahead ls rest := by
  obtain ⟨ts, htokens, hts⟩ := h
  obtain ⟨t, ts, ht, hts, rfl⟩ := List.forall₂_cons_right_iff.1 hts
  have hfirst : s.first? = some t := by simp [TokenStream.first?, htokens]
  refine ⟨t, hfirst, ht, ts, ?_, ?_⟩
  · rw [tokens_of_first? hfirst, List.cons_append] at htokens
    exact (List.cons.inj htokens).2
  · rwa [tail_source]

theorem Ahead.firstKind? (h : s.Ahead ls rest) : s.firstKind? = nextKind? ls rest := by
  cases ls with
  | nil => rw [TokenStream.firstKind?, TokenStream.first?, ahead_nil.1 h, nextKind?]
  | cons l ls =>
    obtain ⟨t, hfirst, ht, -⟩ := h.first?
    rw [TokenStream.firstKind?, hfirst, Option.map_some, ht.kind_eq, nextKind?]

theorem Ahead.length_tokens (h : s.Ahead ls rest) : s.tokens.length = ls.length + rest.length := by
  obtain ⟨ts, htokens, hts⟩ := h
  rw [htokens, List.length_append, hts.length_eq]

end TokenStream

open TokenStream

namespace Rule

variable {α β : Type} {s s' : TokenStream} {l : Lexeme} {ls ms : List Lexeme} {rest : List Token}

/-- If `next` holds of the kind of what follows, the rule reads the words `ls` and makes `x`, of
which only the bare part is told. -/
def Reads (r : Rule α) (bare : α → β) (ls : List Lexeme) (x : β)
    (next : Option TokenKind → Prop) : Prop :=
  ∀ ⦃s ms rest⦄, s.Ahead (ls ++ ms) rest → next (nextKind? ms rest) →
    ∃ y s', r s = .accept y s' ∧ bare y = x ∧ s'.Ahead ms rest

/-! ## Accepting -/

theorem bind_accept {r : Rule α} {f : α → Rule β} {x : α} {y : β} {s'' : TokenStream}
    (h : r s = .accept x s') (hf : f x s' = .accept y s'') : (r >>= f) s = .accept y s'' :=
  bind_eq_accept.2 ⟨x, s', h, hf⟩

theorem required_accept {r : Rule α} {e : Expected} {x : α} (h : r s = .accept x s') :
    r.required e s = .accept x s' :=
  required_eq_accept.2 h

theorem exists_punctuator_accept {p : Punctuator} (h : s.Ahead (sign p :: ls) rest) :
    ∃ t s', punctuator p s = .accept t s' ∧ s'.Ahead ls rest := by
  obtain ⟨t, hfirst, ht, htail⟩ := h.first?
  exact ⟨t, s.tail, token_eq_accept.2 ⟨hfirst, ht.kind_eq, rfl⟩, htail⟩

theorem exists_expect_accept {p : Punctuator} (h : s.Ahead (sign p :: ls) rest) :
    ∃ t s', expect p s = .accept t s' ∧ s'.Ahead ls rest := by
  obtain ⟨t, s', ht, htail⟩ := exists_punctuator_accept h
  exact ⟨t, s', required_accept ht, htail⟩

theorem exists_keyword_accept {k : Keyword} (h : s.Ahead (word k :: ls) rest) :
    ∃ t s', keyword k s = .accept t s' ∧ s'.Ahead ls rest := by
  obtain ⟨t, hfirst, ht, htail⟩ := h.first?
  exact ⟨t, s.tail, token_eq_accept.2 ⟨hfirst, ht.kind_eq, rfl⟩, htail⟩

theorem exists_identifier_accept {name : Ident} (h : s.Ahead (.name name :: ls) rest) :
    ∃ name' s', identifier s = .accept name' s' ∧ name'.bare = name.bare ∧ s'.Ahead ls rest := by
  obtain ⟨t, hfirst, ht, htail⟩ := h.first?
  refine ⟨⟨name.name, t.span⟩, s.tail, identifier_eq_accept.2 ⟨?_, rfl⟩, rfl, htail⟩
  obtain ⟨kind, span, text⟩ := t
  obtain rfl : kind = .identifier := ht.kind_eq
  obtain rfl : text = some name.name := ht.text_eq
  exact hfirst

theorem exists_operator_accept {Op : Type} (ofToken? : TokenKind → Option Op) {op : Op}
    {p : Punctuator} (h : s.Ahead (sign p :: ls) rest) (hop : ofToken? (.punctuator p) = some op) :
    ∃ s', operator ofToken? s = .accept op s' ∧ s'.Ahead ls rest := by
  obtain ⟨t, hfirst, ht, htail⟩ := h.first?
  refine ⟨s.tail, operator_eq_accept.2 ⟨t, hfirst, ?_, rfl⟩, htail⟩
  rw [ht.kind_eq]
  exact hop

/-! ## Declining -/

theorem declines_token {kind : TokenKind} (h : s.firstKind? ≠ some kind) :
    (token kind).Declines s := by
  unfold Declines token
  cases hfirst : s.first? with
  | none => exact ⟨_, _, rfl, rfl⟩
  | some t =>
    have hkind : t.kind ≠ kind := by
      rintro rfl
      exact h (by rw [firstKind?, hfirst, Option.map_some])
    exact ⟨_, _, if_neg hkind, rfl⟩

theorem declines_identifier (h : s.firstKind? ≠ some .identifier) : identifier.Declines s := by
  unfold Declines identifier
  split
  · next hfirst => exact absurd (by rw [firstKind?, hfirst]; rfl) h
  · exact ⟨_, _, rfl, rfl⟩

theorem declines_operator {Op : Type} {ofToken? : TokenKind → Option Op}
    (h : s.firstKind?.bind ofToken? = none) : (operator ofToken?).Declines s := by
  refine ⟨s, .expression, ?_, rfl⟩
  rw [operator, h]

theorem Declines.bind {r : Rule α} (h : r.Declines s) (f : α → Rule β) :
    (r >>= f).Declines s := by
  obtain ⟨p, e, hr, hp⟩ := h
  exact ⟨p, e, by rw [bind_apply, hr], hp⟩

theorem Declines.map {r : Rule α} (h : r.Declines s) (f : α → β) : (f <$> r).Declines s :=
  h.bind fun x => pure (f x)

theorem Declines.located {r : Rule (Place → α)} (h : r.Declines s) : (located r).Declines s := by
  obtain ⟨p, e, hr, hp⟩ := h
  exact ⟨p, e, by rw [Rule.located, hr], hp⟩

theorem Declines.orElse {r q : Rule α} (h : r.Declines s) (hq : q.Declines s) :
    (r <|> q).Declines s := by
  obtain ⟨p, e, hr, hp⟩ := h
  obtain ⟨p', e', hq, hp'⟩ := hq
  refine ⟨p', e', ?_, hp'⟩
  change Rule.orElse r (fun _ => q) s = _
  simp only [Rule.orElse, hr, backTo_eq hp, hq]

/-! ## Repetition -/

/-- What an iteration has made when it stands at `s'`, after some of its steps. -/
inductive Loop (base : Rule α) (step : α → Rule α) (s : TokenStream) : α → TokenStream → Prop
  | base {x : α} {s' : TokenStream} (h : base s = .accept x s') : Loop base step s x s'
  | step {x y : α} {s₁ s' : TokenStream} (h : Loop base step s x s₁)
      (hy : step x s₁ = .accept y s') (hlt : s'.tokens.length < s₁.tokens.length) :
      Loop base step s y s'

/-- Each step takes a token at least, so the bound of the iteration is no obstacle. -/
theorem Loop.continues {base : Rule α} {step : α → Rule α} {x y : α} {s'' : TokenStream}
    (h : Loop base step s x s') (hy : ∀ bound : List Token, s'.tokens.length ≤ bound.length →
      iterateWithin step bound x s' = .accept y s'') :
    (do let x ← base; iterate step x : Rule α) s = .accept y s'' := by
  induction h generalizing y s'' with
  | @base x s' hx => exact bind_accept hx (hy s'.tokens (Nat.le_refl _))
  | @step x z s₁ s' _ hz hlt ih =>
    refine ih ?_
    intro bound hbound
    cases bound with
    | nil =>
      simp only [List.length_nil] at hbound
      omega
    | cons t bound =>
      simp only [List.length_cons] at hbound
      simp only [iterateWithin, hz]
      exact hy bound (by omega)

theorem Loop.accept {base : Rule α} {step : α → Rule α} {x : α} (h : Loop base step s x s')
    (hstop : (step x).Declines s') :
    (do let x ← base; iterate step x : Rule α) s = .accept x s' := by
  refine h.continues ?_
  intro bound _
  cases bound with
  | nil => rfl
  | cons t bound =>
    obtain ⟨p, e, hstep, hp⟩ := hstop
    simp only [iterateWithin, hstep, backTo_eq hp]

/-- Elements one after another. Behind each of them `next` has to hold, so it must hold of what any
element begins with, and of what ends the repetition. -/
theorem reads_many {r : Rule α} {bare : α → β} {γ : Type} {lexemes : γ → List Lexeme}
    {target : γ → β} {xs : List γ} {next : Option TokenKind → Prop} {T : α → List Tree}
    {L : List Char → α → Phrases} (hr : r.Yields T L)
    (hreads : ∀ x ∈ xs, r.Reads bare (lexemes x) (target x) next)
    (hnext : ∀ x ∈ xs, ∃ l ls, lexemes x = l :: ls ∧ next (some l.kind)) :
    (many r).Reads (List.map bare) (xs.flatMap lexemes) (xs.map target)
      fun k => next k ∧ ∀ s : TokenStream, s.firstKind? = k → r.Declines s := by
  have hwithin : ∀ (bound : List Token) ⦃s ms rest⦄, s.tokens.length ≤ bound.length →
      s.Ahead (xs.flatMap lexemes ++ ms) rest → next (nextKind? ms rest) →
      (∀ s : TokenStream, s.firstKind? = nextKind? ms rest → r.Declines s) →
      ∃ ys s', manyWithin r bound s = .accept ys s' ∧ ys.map bare = xs.map target ∧
        s'.Ahead ms rest := by
    induction xs with
    | nil =>
      intro bound s ms rest _ h _ hend
      obtain ⟨p, e, hdeclines, hp⟩ := hend s h.firstKind?
      refine ⟨[], s, ?_, rfl, h⟩
      cases bound <;> simp [manyWithin, hdeclines, backTo_eq hp]
    | cons x xs ih =>
      intro bound s ms rest hbound h hms hend
      obtain ⟨l, ls, hl, hlnext⟩ := hnext x (by simp)
      rw [List.flatMap_cons, List.append_assoc] at h
      have hbehind : next (nextKind? (xs.flatMap lexemes ++ ms) rest) := by
        cases xs with
        | nil => exact hms
        | cons x' xs =>
          obtain ⟨l', ls', hl', hl'next⟩ := hnext x' (by simp)
          simpa [hl', nextKind?] using hl'next
      obtain ⟨y, s', hy, hyx, hs'⟩ := hreads x (by simp) h hbehind
      have hlen := h.length_tokens
      have hlen' := hs'.length_tokens
      rw [hl] at hlen
      simp only [List.length_append, List.length_cons] at hlen hlen'
      cases bound with
      | nil =>
        simp only [List.length_nil] at hbound
        omega
      | cons t bound =>
        simp only [List.length_cons] at hbound
        obtain ⟨ys, s'', hys, hysxs, hs''⟩ := ih (fun x hx => hreads x (by simp [hx]))
          (fun x hx => hnext x (by simp [hx])) bound (by omega) hs' hms hend
        obtain ⟨ts, -, hadv⟩ := hr.advances hy
        have hprogress : s'.start ≠ s.start := by
          have htokens := congrArg List.length hadv.tokens_eq
          rw [List.length_append] at htokens
          have hstart := hadv.start_eq
          omega
        refine ⟨y :: ys, s'', ?_, by simp [hyx, hysxs], hs''⟩
        simp [manyWithin, hy, hprogress, hys, Reply.map]
  intro s ms rest h hms
  exact hwithin s.tokens (Nat.le_refl _) h hms.1 hms.2

/-- Elements between commas. -/
theorem reads_commaList {element : Rule α} {e : Expected} {bare : α → β} {γ : Type}
    {lexemes : γ → List Lexeme} {target : γ → β} {xs : List γ} {next : Option TokenKind → Prop}
    {T : α → List Tree} {L : List Char → α → Phrases} (hr : element.Yields T L)
    (hreads : ∀ x ∈ xs, element.Reads bare (lexemes x) (target x) next)
    (hnext : next (some (.punctuator .comma))) :
    (commaList element e).Reads (List.map bare) (commas (xs.map lexemes)) (xs.map target)
      fun k => next k ∧ k ≠ some (.punctuator .comma) ∧
        ∀ s : TokenStream, s.firstKind? = k → element.Declines s := by
  have hbehind : ∀ x ∈ xs, (do let _ ← punctuator .comma; element.required e : Rule α).Reads bare
      (sign .comma :: lexemes x) (target x) next := by
    intro x hx s ms rest h hms
    obtain ⟨t, s₁, ht, h⟩ := exists_punctuator_accept h
    obtain ⟨y, s', hy, hyx, h⟩ := hreads x hx h hms
    exact ⟨y, s', bind_accept ht (required_accept hy), hyx, h⟩
  rintro s ms rest h ⟨hms, hcomma, hend⟩
  cases xs with
  | nil => exact ⟨[], s, commaList_accept_nil (hend s h.firstKind?), rfl, h⟩
  | cons x xs =>
    rw [List.map_cons, commas, List.append_assoc] at h
    have hmore : next (nextKind? (behindCommas (xs.map lexemes) ++ ms) rest) := by
      cases xs with
      | nil => exact hms
      | cons x' xs => exact hnext
    obtain ⟨y, s₁, hy, hyx, h⟩ := hreads x (by simp) h hmore
    have hbehind' : ∀ x' ∈ xs, _ := fun x' hx => hbehind x' (List.mem_cons_of_mem x hx)
    have hmany := reads_many (yields_behindSign .comma hr) hbehind' fun x' _ => ⟨_, _, rfl, hnext⟩
    rw [behindCommas, List.flatMap_map] at h
    obtain ⟨ys, s', hys, hysxs, h⟩ := hmany h ⟨hms, fun s hs => .bind (declines_token (hs ▸ hcomma)) _⟩
    exact ⟨y :: ys, s', commaList_accept_cons hy hys,
      by simp [hyx, hysxs], h⟩

end Rule

end Sable
