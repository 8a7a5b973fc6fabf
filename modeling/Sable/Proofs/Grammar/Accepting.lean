import Sable.Grammar.Rule

/-!
# When rules accept

What the combinators of rules accept, in terms of what their parts accept or decline. Where a rule
declines and another one is tried, that one begins at the same position, and with the same number if
the first has drawn none.

## Main definitions

* `Rule.Declines`: the rule declines, at whatever position, and has drawn no number.
* `Rule.Frugal`: the rule draws no number anywhere it declines.

## Main statements

* `Rule.bind_eq_accept`, `Rule.orElse_eq_accept`, `Rule.optional_eq_accept`: sequence, choice and
  option.
* `Rule.token_eq_accept`, `Rule.identifier_eq_accept`, `Rule.operator_eq_accept`: single tokens.
* `Rule.located_eq_accept`, `Rule.numbered_eq_accept`: nodes.
* `Rule.iterate_induction`: what each step keeps, an iteration keeps.
-/
namespace Sable

/-- The token that a name was read from. -/
def Ident.token (name : Ident) : Token := ⟨.identifier, name.span, some name.name⟩

namespace TokenStream

variable {s : TokenStream} {t : Token}

theorem tokens_of_first? (h : s.first? = some t) : s.tokens = t :: s.tail.tokens := by
  obtain ⟨tokens, source, start, nextId⟩ := s
  cases tokens with
  | nil => simp [first?] at h
  | cons u ts =>
    obtain rfl : u = t := by simpa [first?] using h
    rfl

@[simp] theorem tail_source (s : TokenStream) : s.tail.source = s.source := by
  unfold tail
  split <;> rfl

@[simp] theorem tail_nextId (s : TokenStream) : s.tail.nextId = s.nextId := by
  unfold tail
  split <;> rfl

theorem tail_start (h : s.first? = some t) : s.tail.start = s.start + 1 := by
  obtain ⟨tokens, source, start, nextId⟩ := s
  cases tokens with
  | nil => simp [first?] at h
  | cons u ts => rfl

@[simp] theorem drawId_tokens (s : TokenStream) : s.drawId.tokens = s.tokens := rfl

@[simp] theorem drawId_source (s : TokenStream) : s.drawId.source = s.source := rfl

@[simp] theorem drawId_start (s : TokenStream) : s.drawId.start = s.start := rfl

@[simp] theorem drawId_nextId (s : TokenStream) : s.drawId.nextId = s.nextId + 1 := rfl

@[simp] theorem backTo_nextId (later s : TokenStream) : (later.backTo s).nextId = later.nextId := rfl

/-- No number was drawn since `s`, so going back there leads to `s` itself. -/
theorem backTo_eq {later : TokenStream} (h : later.nextId = s.nextId) : later.backTo s = s := by
  rw [backTo, h]

end TokenStream

namespace Rule

variable {α β : Type} {s rest : TokenStream}

/-- The rule declines, at whatever position and whatever it looked for, and has drawn no number. -/
def Declines (r : Rule α) (s : TokenStream) : Prop :=
  ∃ p e, r s = .decline p e ∧ p.nextId = s.nextId

/-- Wherever the rule declines, it has drawn no number. -/
def Frugal (r : Rule α) : Prop := ∀ ⦃s p e⦄, r s = .decline p e → p.nextId = s.nextId

/-! ## Sequence and choice -/

theorem pure_eq_accept {x y : α} :
    (pure x : Rule α) s = .accept y rest ↔ x = y ∧ s = rest := by
  change Reply.accept x s = .accept y rest ↔ _
  simp

theorem bind_apply (r : Rule α) (f : α → Rule β) (s : TokenStream) : (r >>= f) s = match r s with
    | .accept x rest => f x rest
    | .decline s e => .decline s e
    | .reject s e => .reject s e := rfl

theorem bind_eq_accept {r : Rule α} {f : α → Rule β} {y : β} :
    (r >>= f) s = .accept y rest ↔ ∃ x s', r s = .accept x s' ∧ f x s' = .accept y rest := by
  rw [bind_apply]
  cases r s with
  | accept x s' =>
    constructor
    · intro h
      exact ⟨x, s', rfl, h⟩
    · rintro ⟨_, _, heq, h⟩
      obtain ⟨rfl, rfl⟩ := Reply.accept.inj heq
      exact h
  | decline p e => simp
  | reject p e => simp

theorem map_eq_accept {f : α → β} {r : Rule α} {y : β} :
    (f <$> r) s = .accept y rest ↔ ∃ x, r s = .accept x rest ∧ f x = y := by
  have h : (f <$> r) = (r >>= fun x => pure (f x)) := rfl
  simp only [h, bind_eq_accept, pure_eq_accept]
  constructor
  · rintro ⟨x, s', hr, hx, rfl⟩
    exact ⟨x, hr, hx⟩
  · rintro ⟨x, hr, hx⟩
    exact ⟨x, rest, hr, hx, rfl⟩

theorem orElse_accept_left {r q : Rule α} {x : α} (h : r s = .accept x rest) :
    (r <|> q) s = .accept x rest := by
  change orElse r (fun _ => q) s = _
  rw [orElse, h]

theorem orElse_accept {r q : Rule α} {x : α} (h : r.Declines s) (hq : q s = .accept x rest) :
    (r <|> q) s = .accept x rest := by
  obtain ⟨p, e, hr, hp⟩ := h
  change orElse r (fun _ => q) s = _
  simp only [orElse, hr]
  rwa [TokenStream.backTo_eq hp]

theorem orElse_eq_accept {r q : Rule α} {x : α} (hr : r.Frugal) :
    (r <|> q) s = .accept x rest ↔
      r s = .accept x rest ∨ r.Declines s ∧ q s = .accept x rest := by
  refine ⟨fun h => ?_, fun h => h.elim orElse_accept_left fun h => orElse_accept h.1 h.2⟩
  change orElse r (fun _ => q) s = _ at h
  unfold orElse at h
  split at h
  · next p e hp =>
    rw [TokenStream.backTo_eq (hr hp)] at h
    exact .inr ⟨⟨p, e, hp, hr hp⟩, h⟩
  · exact .inl h

theorem optional_accept_some {r : Rule α} {x : α} (h : r s = .accept x rest) :
    optional r s = .accept (some x) rest := by
  rw [optional, h]

theorem optional_accept_none {r : Rule α} (h : r.Declines s) :
    optional r s = .accept none s := by
  obtain ⟨p, e, hr, hp⟩ := h
  simp only [optional, hr, TokenStream.backTo_eq hp]

theorem optional_eq_accept {r : Rule α} {x : Option α} (hr : r.Frugal) :
    optional r s = .accept x rest ↔
      (∃ y, x = some y ∧ r s = .accept y rest) ∨ r.Declines s ∧ x = none ∧ rest = s := by
  constructor
  · intro h
    unfold optional at h
    split at h
    · next y s' hy =>
      obtain ⟨rfl, rfl⟩ := Reply.accept.inj h
      exact .inl ⟨y, rfl, hy⟩
    · next p e hp =>
      rw [TokenStream.backTo_eq (hr hp)] at h
      obtain ⟨rfl, rfl⟩ := Reply.accept.inj h
      exact .inr ⟨⟨p, e, hp, hr hp⟩, rfl, rfl⟩
    · simp at h
  · rintro (⟨y, rfl, hy⟩ | ⟨h, rfl, rfl⟩)
    · exact optional_accept_some hy
    · exact optional_accept_none h

theorem required_eq_accept {r : Rule α} {e : Expected} {x : α} :
    required r e s = .accept x rest ↔ r s = .accept x rest := by
  unfold required
  cases r s <;> simp

/-! ## Tokens -/

theorem token_eq_accept {kind : TokenKind} {t : Token} :
    token kind s = .accept t rest ↔ s.first? = some t ∧ t.kind = kind ∧ rest = s.tail := by
  unfold token
  cases h : s.first? with
  | none => simp
  | some u =>
    by_cases hu : u.kind = kind
    · simp only [hu, if_true, Reply.accept.injEq, Option.some.injEq]
      constructor
      · rintro ⟨rfl, rfl⟩
        exact ⟨rfl, hu, rfl⟩
      · rintro ⟨rfl, -, rfl⟩
        exact ⟨rfl, rfl⟩
    · simp only [hu, if_false, reduceCtorEq, Option.some.injEq, false_iff]
      rintro ⟨rfl, h, -⟩
      exact hu h

theorem identifier_eq_accept {name : Ident} :
    identifier s = .accept name rest ↔ s.first? = some name.token ∧ rest = s.tail := by
  unfold identifier
  split
  · next span text h =>
    rw [h]
    simp only [Reply.accept.injEq, Option.some.injEq, Ident.token, Token.mk.injEq, true_and]
    constructor
    · rintro ⟨rfl, rfl⟩
      exact ⟨⟨rfl, rfl⟩, rfl⟩
    · rintro ⟨⟨rfl, rfl⟩, rfl⟩
      exact ⟨rfl, rfl⟩
  · next h =>
    simp only [reduceCtorEq, false_iff, not_and]
    intro hname
    exact absurd hname (h name.span name.name)

theorem operator_eq_accept {Op : Type} {ofToken? : TokenKind → Option Op} {op : Op} :
    operator ofToken? s = .accept op rest ↔
      ∃ t, s.first? = some t ∧ ofToken? t.kind = some op ∧ rest = s.tail := by
  unfold operator TokenStream.firstKind?
  cases h : s.first? with
  | none => simp
  | some t =>
    cases ho : ofToken? t.kind with
    | none => simp [ho]
    | some op' => simp [ho, eq_comm]

/-! ## Nodes -/

theorem numbered_eq_accept {span : Span} {place : Place} :
    numbered span s = .accept place rest ↔ place = ⟨s.nextId, span⟩ ∧ rest = s.drawId := by
  simp [numbered, eq_comm]

theorem located_eq_accept {r : Rule (Place → α)} {x : α} :
    located r s = .accept x rest ↔ ∃ build s', r s = .accept build s' ∧
      x = build ⟨s'.nextId, s'.spanSince s⟩ ∧ rest = s'.drawId := by
  unfold located
  cases r s with
  | accept build s' =>
    constructor
    · intro h
      obtain ⟨rfl, rfl⟩ := Reply.accept.inj h
      exact ⟨build, s', rfl, rfl, rfl⟩
    · rintro ⟨_, _, heq, rfl, rfl⟩
      obtain ⟨rfl, rfl⟩ := Reply.accept.inj heq
      rfl
  | decline p e => simp
  | reject p e => simp

/-! ## Repetition -/

/-- What holds at first and is kept by each step holds of what an iteration accepts. -/
theorem iterate_induction {step : α → Rule α} {motive : α → TokenStream → Prop} {x y : α}
    (hfrugal : ∀ x, (step x).Frugal) (h : iterate step x s = .accept y rest) (hx : motive x s)
    (hstep : ∀ x s y s', motive x s → step x s = .accept y s' → motive y s') : motive y rest := by
  unfold iterate at h
  generalize s.tokens = bound at h
  induction bound generalizing x s with
  | nil =>
    obtain ⟨rfl, rfl⟩ := pure_eq_accept.1 h
    exact hx
  | cons _ bound ih =>
    simp only [iterateWithin] at h
    split at h
    · next z s' hz => exact ih (hstep _ _ _ _ hx hz) h
    · next p e hp =>
      rw [TokenStream.backTo_eq (hfrugal x hp)] at h
      obtain ⟨rfl, rfl⟩ := Reply.accept.inj h
      exact hx
    · simp at h

/-- A repetition is over, or it goes on behind one more element. -/
theorem manyWithin_eq_accept {r : Rule α} {bound : List Token} {xs : List α} (hr : r.Frugal)
    (h : manyWithin r bound s = .accept xs rest) :
    xs = [] ∧ rest = s ∨ ∃ x xs' bound' s', xs = x :: xs' ∧ r s = .accept x s' ∧
      manyWithin r bound' s' = .accept xs' rest ∧ bound'.length < bound.length := by
  cases bound with
  | nil =>
    simp only [manyWithin] at h
    split at h
    · simp at h
    · next p e hp =>
      rw [TokenStream.backTo_eq (hr hp)] at h
      simp_all
    · simp at h
  | cons t bound =>
    simp only [manyWithin] at h
    split at h
    · next x s' hx =>
      split at h
      · simp at h
      · cases hxs : manyWithin r bound s' with
        | accept xs' s'' =>
          rw [hxs] at h
          obtain ⟨rfl, rfl⟩ := Reply.accept.inj h
          exact .inr ⟨x, xs', bound, s', rfl, hx, hxs, by simp⟩
        | decline p e => simp [hxs, Reply.map] at h
        | reject p e => simp [hxs, Reply.map] at h
    · next p e hp =>
      rw [TokenStream.backTo_eq (hr hp)] at h
      simp_all
    · simp at h

theorem commaList_accept_nil {element : Rule α} {e : Expected} (h : element.Declines s) :
    commaList element e s = .accept [] s := by
  obtain ⟨p, d, hr, hp⟩ := h
  simp only [commaList, hr, TokenStream.backTo_eq hp]

theorem commaList_accept_cons {element : Rule α} {e : Expected} {x : α} {xs : List α}
    {s' : TokenStream} (hx : element s = .accept x s')
    (hxs : many (do let _ ← punctuator .comma; element.required e) s' = .accept xs rest) :
    commaList element e s = .accept (x :: xs) rest := by
  simp only [commaList, hx, hxs, Reply.map]

theorem commaList_eq_accept {element : Rule α} {e : Expected} {xs : List α}
    (hr : element.Frugal) :
    commaList element e s = .accept xs rest ↔
      element.Declines s ∧ xs = [] ∧ rest = s ∨ ∃ x xs' s', xs = x :: xs' ∧
        element s = .accept x s' ∧
        many (do let _ ← punctuator .comma; element.required e) s' = .accept xs' rest := by
  constructor
  · intro h
    unfold commaList at h
    split at h
    · next x s' hx =>
      generalize hm : many _ s' = reply at h
      cases reply with
      | accept xs' s'' =>
        obtain ⟨rfl, rfl⟩ := Reply.accept.inj h
        exact .inr ⟨x, xs', s', rfl, hx, hm⟩
      | decline p d => simp [Reply.map] at h
      | reject p d => simp [Reply.map] at h
    · next p d hp =>
      rw [TokenStream.backTo_eq (hr hp)] at h
      obtain ⟨rfl, rfl⟩ := Reply.accept.inj h
      exact .inl ⟨⟨p, d, hp, hr hp⟩, rfl, rfl⟩
    · simp at h
  · rintro (⟨h, rfl, rfl⟩ | ⟨x, xs', s', rfl, hx, hxs⟩)
    · exact commaList_accept_nil h
    · exact commaList_accept_cons hx hxs

end Rule

end Sable
