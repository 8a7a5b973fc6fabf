import Sable.Proofs.Grammar.Unbounded

/-!
# One token of lookahead

What a rule answers depends on the tokens that it reads and on the next one. So two streams that go
apart further on get the same answer, and a rejection is found at the first token at which no stream
with the same tokens before it could have been accepted: from there on, other tokens complete what
was read.

## Main definitions

* `TokenStream.facing`: the stream with other tokens ahead.
* `Rule.Predictive`: one token of lookahead, and a completion for each rejection.
* `Rule.Sampled`: some tokens that the rule accepts.
* `Rule.Completable`: a rule that may stand behind others.

## Main statements

* `Rule.Predictive.bind`, `Rule.Predictive.orElse`, `Rule.Predictive.located`: sequence, choice and
  nodes.
* `Rule.Predictive.many`, `Rule.Predictive.iterate`, `Rule.Predictive.commaList`: repetition.
-/
namespace Sable

namespace TokenStream

variable {s : TokenStream} {t : Token} {us vs : List Token}

/-- The same position, in front of other tokens. -/
def facing (s : TokenStream) (us : List Token) : TokenStream := { s with tokens := us }

@[simp] theorem facing_tokens (s : TokenStream) (us : List Token) : (s.facing us).tokens = us := rfl

@[simp] theorem facing_start (s : TokenStream) (us : List Token) :
    (s.facing us).start = s.start := rfl

@[simp] theorem facing_nextId (s : TokenStream) (us : List Token) :
    (s.facing us).nextId = s.nextId := rfl

@[simp] theorem facing_facing (s : TokenStream) (us vs : List Token) :
    (s.facing us).facing vs = s.facing vs := rfl

@[simp] theorem facing_drawId (s : TokenStream) (us : List Token) :
    s.drawId.facing us = (s.facing us).drawId := rfl

theorem facing_eq (h : s.tokens = us) : s.facing us = s := by rw [← h]; rfl

@[simp] theorem first?_facing (s : TokenStream) (us : List Token) :
    (s.facing us).first? = us.head? := rfl

theorem tail_facing (h : s.first? = some t) (us : List Token) :
    (s.facing (t :: us)).tail = s.tail.facing us := by
  obtain ⟨tokens, source, start, nextId⟩ := s
  cases tokens with
  | nil => simp [first?] at h
  | cons u ts => rfl

/-- The span of a node does not depend on what is ahead. -/
theorem spanSince_facing {rest : TokenStream} {ts : List Token} (hts : ts ≠ [])
    (hstart : rest.start = s.start + ts.length) (us vs : List Token) :
    (rest.facing us).spanSince (s.facing (ts ++ us)) =
      (rest.facing vs).spanSince (s.facing (ts ++ vs)) := by
  obtain ⟨t, ts, rfl⟩ := List.exists_cons_of_ne_nil hts
  have hlen : rest.start - s.start = ts.length + 1 := by
    rw [hstart, List.length_cons]
    omega
  have hlast : ∀ us : List Token, (t :: (ts ++ us))[ts.length]? = (t :: ts)[ts.length]? := by
    intro us
    rw [← List.cons_append]
    exact List.getElem?_append_left (by simp)
  simp only [spanSince, facing_start, facing_tokens, first?, hlen, hlast,
    List.cons_append, List.head?_cons]

end TokenStream

/-- The first of the tokens is of such a kind. -/
def Token.Heads (K : TokenKind → Prop) (us : List Token) : Prop := ∃ t ∈ us.head?, K t.kind

theorem Token.Heads.mono {K K' : TokenKind → Prop} {us : List Token} (h : Token.Heads K us)
    (hK : ∀ k, K k → K' k) : Token.Heads K' us := by
  obtain ⟨t, ht, hk⟩ := h
  exact ⟨t, ht, hK _ hk⟩

theorem Token.heads_cons {K : TokenKind → Prop} {t : Token} (h : K t.kind) (us : List Token) :
    Token.Heads K (t :: us) := ⟨t, rfl, h⟩

/-- There is no trivia among the tokens. -/
def Token.Plain (ts : List Token) : Prop := ∀ t ∈ ts, t.isTrivia = false

namespace Token.Plain

variable {ts us : List Token}

theorem append (h : Plain ts) (h' : Plain us) : Plain (ts ++ us) :=
  List.forall_mem_append.2 ⟨h, h'⟩

theorem significant_eq (h : Plain ts) : significant ts = ts :=
  List.filter_eq_self.2 fun t ht => by simp [h t ht]

end Token.Plain

theorem Token.plain_nil : Plain [] := List.forall_mem_nil _

open TokenStream Token

namespace Rule

variable {α β : Type} {s rest : TokenStream} {n m : Nat}
  {first follow first' follow' : TokenKind → Prop}

/-- In front of `ts` and anything that satisfies `next`, the rule reads `ts`. -/
structure Takes (r : Rule α) (s : TokenStream) (ts : List Token) (x : α) (rest : TokenStream)
    (next : List Token → Prop) : Prop where
  start_eq : rest.start = s.start + ts.length
  accept : ∀ us, next us → r (s.facing (ts ++ us)) = .accept x (rest.facing us)

/-- Where fewer than `n` tokens are ahead, the rule looks at what it reads and at one more token.
Behind what it accepts, a token of a kind in `follow` makes no difference. What it rejects has a
completion, which begins with a kind in `first` if nothing was read. -/
structure Predictive (n : Nat) (r : Rule α) (first follow : TokenKind → Prop) : Prop where
  accept : ∀ ⦃s x rest⦄, s.tokens.length < n → r s = .accept x rest → ∃ ts,
    s.tokens = ts ++ rest.tokens ∧
      r.Takes s ts x rest fun us => us.head? = rest.tokens.head? ∨ Heads follow us
  decline : ∀ ⦃s p e⦄, s.tokens.length < n → r s = .decline p e → p = s ∧ e ≠ .literal ∧
    ∀ us, us.head? = s.tokens.head? → r (s.facing us) = .decline (s.facing us) e
  reject : ∀ ⦃s p e⦄, s.tokens.length < n → r s = .reject p e → ∃ ts,
    s.tokens = ts ++ p.tokens ∧ (e = .literal → ∃ t ∈ p.first?, t.kind ≠ .eof) ∧
      (∀ us, us.head? = p.tokens.head? → r (s.facing (ts ++ us)) = .reject (p.facing us) e) ∧
      ∃ c x q, Plain c ∧ (ts = [] → ∀ us, Heads follow us → Heads first (c ++ us)) ∧
        r.Takes s (ts ++ c) x q (Heads follow)

/-- From everywhere, the rule accepts some tokens, in front of whatever may follow. -/
def Sampled (r : Rule α) (first follow : TokenKind → Prop) : Prop :=
  ∀ s, ∃ c x q, Plain c ∧ (∀ us, Heads follow us → Heads first (c ++ us)) ∧
    r.Takes s c x q (Heads follow)

/-- What is read in front of such a rule can be completed with a sample of it. -/
structure Completable (n : Nat) (r : Rule α) (first follow : TokenKind → Prop) : Prop where
  predictive : r.Predictive n first follow
  firm : r.Firm
  sampled : r.Sampled first follow

theorem Predictive.zero (r : Rule α) : r.Predictive 0 first follow :=
  ⟨fun _ _ _ h => absurd h (Nat.not_lt_zero _), fun _ _ _ h => absurd h (Nat.not_lt_zero _),
    fun _ _ _ h => absurd h (Nat.not_lt_zero _)⟩

theorem Predictive.le {r : Rule α} (h : r.Predictive n first follow) (hm : m ≤ n) :
    r.Predictive m first follow :=
  ⟨fun _ _ _ hs => h.accept (hs.trans_le hm), fun _ _ _ hs => h.decline (hs.trans_le hm),
    fun _ _ _ hs => h.reject (hs.trans_le hm)⟩

theorem Takes.mono {r : Rule α} {ts : List Token} {x : α} {next next' : List Token → Prop}
    (h : r.Takes s ts x rest next) (hnext : ∀ us, next' us → next us) :
    r.Takes s ts x rest next' :=
  ⟨h.start_eq, fun us hus => h.accept us (hnext us hus)⟩

theorem Takes.nil {r : Rule α} {x : α} {next : List Token → Prop}
    (h : ∀ us, next us → r (s.facing us) = .accept x (s.facing us)) : r.Takes s [] x s next :=
  ⟨rfl, h⟩

/-- What is read by both rules one after the other. -/
theorem Takes.bind {r : Rule α} {f : α → Rule β} {s' : TokenStream} {ts us : List Token} {x : α}
    {y : β} {next next' : List Token → Prop} (hr : r.Takes s ts x s' next)
    (hf : (f x).Takes s' us y rest next') (hnext : ∀ vs, next' vs → next (us ++ vs)) :
    (r >>= f).Takes s (ts ++ us) y rest next' := by
  refine ⟨?_, fun vs hvs => ?_⟩
  · rw [hf.start_eq, hr.start_eq, List.length_append, Nat.add_assoc]
  · rw [List.append_assoc]
    exact bind_eq_accept.2 ⟨x, _, hr.accept _ (hnext vs hvs), hf.accept vs hvs⟩

theorem Takes.map {r : Rule α} {ts : List Token} {x : α} {next : List Token → Prop}
    (h : r.Takes s ts x rest next) (f : α → β) : (f <$> r).Takes s ts (f x) rest next :=
  ⟨h.start_eq, fun us hus => map_eq_accept.2 ⟨x, h.accept us hus, rfl⟩⟩

theorem Takes.required {r : Rule α} {ts : List Token} {x : α} {next : List Token → Prop}
    (h : r.Takes s ts x rest next) (e : Expected) : (r.required e).Takes s ts x rest next :=
  ⟨h.start_eq, fun us hus => required_eq_accept.2 (h.accept us hus)⟩

theorem Takes.optional {r : Rule α} {ts : List Token} {x : α} {next : List Token → Prop}
    (h : r.Takes s ts x rest next) : (optional r).Takes s ts (some x) rest next :=
  ⟨h.start_eq, fun us hus => optional_accept_some (h.accept us hus)⟩

theorem Takes.orElse_left {r : Rule α} {ts : List Token} {x : α} {next : List Token → Prop}
    (h : r.Takes s ts x rest next) (q : Rule α) : (r <|> q).Takes s ts x rest next :=
  ⟨h.start_eq, fun us hus => orElse_accept_left (h.accept us hus)⟩

theorem Takes.orElse_right {r q : Rule α} {ts : List Token} {x : α} {next : List Token → Prop}
    (h : q.Takes s ts x rest next)
    (hr : ∀ us, next us → ∃ e, r (s.facing (ts ++ us)) = .decline (s.facing (ts ++ us)) e) :
    (r <|> q).Takes s ts x rest next := by
  refine ⟨h.start_eq, fun us hus => ?_⟩
  obtain ⟨e, he⟩ := hr us hus
  exact orElse_accept ⟨_, e, he, rfl⟩ (h.accept us hus)

/-- A node has the same span, whatever is ahead of it. -/
theorem Takes.located {r : Rule (Place → α)} {ts : List Token} {build : Place → α}
    {next : List Token → Prop} (h : r.Takes s ts build rest next)
    (hts : ∀ us, next us → ts ≠ []) (vs : List Token) : (located r).Takes s ts
      (build ⟨rest.nextId, (rest.facing vs).spanSince (s.facing (ts ++ vs))⟩) rest.drawId next := by
  refine ⟨h.start_eq, fun us hus => located_eq_accept.2 ⟨build, _, h.accept us hus, ?_, rfl⟩⟩
  rw [spanSince_facing (hts us hus) h.start_eq us vs]
  rfl

theorem Takes.ne_nil {r : Rule α} {ts : List Token} {x : α} {next : List Token → Prop}
    (h : r.Takes s ts x rest next) (hr : r.Progresses) (us : List Token) (hus : next us) :
    ts ≠ [] := by
  rintro rfl
  have hlt := (hr (h.accept us hus)).1
  have hstart := h.start_eq
  simp only [facing_start, List.length_nil] at hlt hstart
  omega

theorem Predictive.mono {r : Rule α} (h : r.Predictive n first follow)
    (hfirst : ∀ k, first k → first' k) (hfollow : ∀ k, follow' k → follow k) :
    r.Predictive n first' follow' := by
  refine ⟨fun s x rest hs hx => ?_, h.decline, fun s p e hs hp => ?_⟩
  · obtain ⟨ts, htokens, htakes⟩ := h.accept hs hx
    exact ⟨ts, htokens, htakes.mono fun us => .imp_right (·.mono hfollow)⟩
  · obtain ⟨ts, htokens, hliteral, hsame, c, x, q, hplain, hc, htakes⟩ := h.reject hs hp
    exact ⟨ts, htokens, hliteral, hsame, c, x, q, hplain,
      fun hts us hus => (hc hts us (hus.mono hfollow)).mono hfirst,
      htakes.mono fun us hus => hus.mono hfollow⟩

theorem Sampled.mono {r : Rule α} (h : r.Sampled first follow) (hfirst : ∀ k, first k → first' k)
    (hfollow : ∀ k, follow' k → follow k) : r.Sampled first' follow' := by
  intro s
  obtain ⟨c, x, q, hplain, hc, htakes⟩ := h s
  exact ⟨c, x, q, hplain, fun us hus => (hc us (hus.mono hfollow)).mono hfirst,
    htakes.mono fun us hus => hus.mono hfollow⟩

theorem Completable.mono {r : Rule α} (h : r.Completable n first follow)
    (hfirst : ∀ k, first k → first' k) (hfollow : ∀ k, follow' k → follow k) :
    r.Completable n first' follow' :=
  ⟨h.predictive.mono hfirst hfollow, h.firm, h.sampled.mono hfirst hfollow⟩

theorem Completable.le {r : Rule α} (h : r.Completable n first follow) (hm : m ≤ n) :
    r.Completable m first follow :=
  ⟨h.predictive.le hm, h.firm, h.sampled⟩

/-! ## Sequence -/

theorem pure_ne_reject {x : α} {p : TokenStream} {e : Expected} :
    (pure x : Rule α) s ≠ .reject p e := by
  change Reply.accept x s ≠ _
  simp

theorem completable_pure (x : α) : (pure x : Rule α).Completable n follow follow := by
  refine ⟨⟨fun s y rest _ h => ?_, fun s p e _ h => absurd h (firm_pure x s p e),
    fun s p e _ h => absurd h pure_ne_reject⟩, firm_pure x,
    fun s => ⟨[], x, s, plain_nil, fun us hus => hus, .nil fun us _ => rfl⟩⟩
  obtain ⟨rfl, rfl⟩ := pure_eq_accept.1 h
  exact ⟨[], rfl, .nil fun us _ => rfl⟩

theorem completable_numbered (span : Span) : (numbered span).Completable n follow follow := by
  refine ⟨⟨fun s y rest _ h => ?_, fun s p e _ h => absurd h (firm_numbered span s p e),
    fun s p e _ h => absurd h (by simp [numbered])⟩, firm_numbered span,
    fun s => ⟨[], ⟨s.nextId, span⟩, s.drawId, plain_nil, fun us hus => hus, rfl, fun us _ => rfl⟩⟩
  obtain ⟨rfl, rfl⟩ := numbered_eq_accept.1 h
  exact ⟨[], rfl, rfl, fun us _ => rfl⟩

theorem bind_eq_reject {r : Rule α} {f : α → Rule β} {p : TokenStream} {e : Expected}
    (h : (r >>= f) s = .reject p e) :
    r s = .reject p e ∨ ∃ x s', r s = .accept x s' ∧ f x s' = .reject p e := by
  rw [bind_apply] at h
  cases hr : r s with
  | accept x s' =>
    rw [hr] at h
    exact .inr ⟨x, s', rfl, h⟩
  | decline p' d' => simp [hr] at h
  | reject p' d' =>
    left
    simpa [hr] using h

theorem bind_of_decline {r : Rule α} {p : TokenStream} {e : Expected} (h : r s = .decline p e)
    (f : α → Rule β) : (r >>= f) s = .decline p e := by
  simp only [bind, h]

theorem bind_of_reject {r : Rule α} {p : TokenStream} {e : Expected} (h : r s = .reject p e)
    (f : α → Rule β) : (r >>= f) s = .reject p e := by
  simp only [bind, h]

theorem bind_of_accept {r : Rule α} {x : α} (h : r s = .accept x rest) (f : α → Rule β) :
    (r >>= f) s = f x rest := by
  simp only [bind, h]

theorem head?_append_eq {us : List Token} (hus : us ≠ []) (vs ws : List Token) :
    (us ++ vs).head? = (us ++ ws).head? := by
  obtain ⟨u, us, rfl⟩ := List.exists_cons_of_ne_nil hus
  rfl

section

variable {r : Rule α} {f : α → Rule β} {first₁ follow₁ first₂ : TokenKind → Prop}

/-- What may follow the first part goes on with the second one. If the second part reads nothing,
its next token is the one behind the first part. -/
theorem Predictive.sequence (hr : r.Predictive n first₁ follow₁)
    (hf : ∀ x, (f x).Completable m first₂ follow)
    (hm : ∀ s x rest, s.tokens.length < n → r s = .accept x rest → rest.tokens.length < m)
    (hbetween : ∀ k, first₂ k → follow₁ k)
    (hbehind : (∀ x, (f x).Progresses) ∨ ∀ k, follow k → follow₁ k)
    (hfirst : r.Progresses ∨ ∀ k, first₂ k → first₁ k) :
    (r >>= f).Predictive n first₁ follow := by
  refine ⟨fun s y rest hs h => ?_, fun s p e hs h => ?_, fun s p e hs h => ?_⟩
  · obtain ⟨x, s₁, hx, hy⟩ := bind_eq_accept.1 h
    obtain ⟨ts, htokens, htakes⟩ := hr.accept hs hx
    obtain ⟨us, htokens', htakes'⟩ := (hf x).predictive.accept (hm s x s₁ hs hx) hy
    refine ⟨ts ++ us, ?_, htakes.bind htakes' fun vs hvs => ?_⟩
    · rw [htokens, htokens', List.append_assoc]
    · rcases eq_or_ne us [] with rfl | hus
      · refine hvs.imp (fun hvs => ?_) fun hvs => ?_
        · rw [htokens']
          exact hvs
        · rcases hbehind with hprogress | hfollow
          · have hlt := (hprogress x hy).1
            have hstart := htakes'.start_eq
            simp only [List.length_nil] at hstart
            omega
          · exact hvs.mono hfollow
      · exact .inl (htokens' ▸ head?_append_eq hus _ _)
  · rcases bind_eq_decline h with h | ⟨x, s₁, -, h⟩
    · obtain ⟨rfl, he, hsame⟩ := hr.decline hs h
      exact ⟨rfl, he, fun us hus => bind_of_decline (hsame us hus) f⟩
    · exact absurd h ((hf x).firm s₁ p e)
  · rcases bind_eq_reject h with h | ⟨x, s₁, hx, h⟩
    · obtain ⟨ts, htokens, hliteral, hsame, c, x, q, hplain, hc, htakes⟩ := hr.reject hs h
      obtain ⟨d, y, q', hplain', hd, htakes'⟩ := (hf x).sampled q
      refine ⟨ts, htokens, hliteral, fun us hus => bind_of_reject (hsame us hus) f, c ++ d, y, q',
        hplain.append hplain', fun hts us hus => ?_, ?_⟩
      · rw [List.append_assoc]
        exact hc hts _ ((hd us hus).mono hbetween)
      · rw [← List.append_assoc]
        exact htakes.bind htakes' fun us hus => (hd us hus).mono hbetween
    · obtain ⟨ts, htokens, htakes⟩ := hr.accept hs hx
      obtain ⟨us, htokens', hliteral, hsame, c, y, q, hplain, hc, htakes'⟩ :=
        (hf x).predictive.reject (hm s x s₁ hs hx) h
      refine ⟨ts ++ us, ?_, hliteral, fun vs hvs => ?_, c, y, q, hplain, fun hnil vs hvs => ?_, ?_⟩
      · rw [htokens, htokens', List.append_assoc]
      · rw [List.append_assoc, bind_of_accept (htakes.accept (us ++ vs) (.inl ?_))]
        · exact hsame vs hvs
        · rcases eq_or_ne us [] with rfl | hus
          · rw [htokens']
            exact hvs
          · exact htokens' ▸ head?_append_eq hus _ _
      · obtain ⟨rfl, rfl⟩ := List.append_eq_nil_iff.1 hnil
        rcases hfirst with hprogress | hfirst
        · have hlt := (hprogress hx).1
          have hstart := htakes.start_eq
          simp only [List.length_nil] at hstart
          omega
        · exact (hc rfl vs hvs).mono hfirst
      · rw [List.append_assoc]
        refine htakes.bind htakes' fun vs hvs => ?_
        rcases eq_or_ne us [] with rfl | hus
        · exact .inr ((hc rfl vs hvs).mono hbetween)
        · rw [List.append_assoc]
          exact .inl (htokens' ▸ head?_append_eq hus _ _)

/-- Where the second part may begin, nothing is lost. -/
theorem Predictive.bind (hr : r.Predictive n first₁ follow₁)
    (hf : ∀ x, (f x).Completable n first₂ follow) (hbetween : ∀ k, first₂ k → follow₁ k)
    (hbehind : (∀ x, (f x).Progresses) ∨ ∀ k, follow k → follow₁ k)
    (hfirst : r.Progresses ∨ ∀ k, first₂ k → first₁ k) :
    (r >>= f).Predictive n first₁ follow := by
  refine hr.sequence hf (fun s x rest hs hx => ?_) hbetween hbehind hfirst
  obtain ⟨ts, htokens, -⟩ := hr.accept hs hx
  rw [htokens, List.length_append] at hs
  omega

/-- Behind what anything may follow. -/
theorem Predictive.after (hr : r.Predictive n first₁ fun _ => True) (hprogress : r.Progresses)
    (hf : ∀ x, (f x).Completable n first₂ follow) : (r >>= f).Predictive n first₁ follow :=
  hr.bind hf (fun _ _ => trivial) (.inr fun _ _ => trivial) (.inl hprogress)

/-- Behind a token that anything may follow, there are fewer tokens ahead. -/
theorem Predictive.behind (hr : ∀ n, r.Predictive n first₁ fun _ => True) (hprogress : r.Progresses)
    (hf : ∀ x, (f x).Completable n first₂ follow) : (r >>= f).Predictive (n + 1) first₁ follow := by
  refine (hr (n + 1)).sequence hf (fun s x rest hs hx => ?_) (fun _ _ => trivial)
    (.inr fun _ _ => trivial) (.inl hprogress)
  have hlt := (hprogress hx).2
  omega

theorem Sampled.bind (hr : r.Sampled first₁ follow₁) (hf : ∀ x, (f x).Sampled first₂ follow)
    (hbetween : ∀ k, first₂ k → follow₁ k) : (r >>= f).Sampled first₁ follow := by
  intro s
  obtain ⟨c, x, q, hplain, hc, htakes⟩ := hr s
  obtain ⟨d, y, q', hplain', hd, htakes'⟩ := hf x q
  refine ⟨c ++ d, y, q', hplain.append hplain', fun us hus => ?_,
    htakes.bind htakes' fun us hus => (hd us hus).mono hbetween⟩
  rw [List.append_assoc]
  exact hc _ ((hd us hus).mono hbetween)

/-- Behind what anything may follow. -/
theorem Sampled.after (hr : r.Sampled first₁ fun _ => True)
    (hf : ∀ x, (f x).Sampled first₂ follow) : (r >>= f).Sampled first₁ follow :=
  hr.bind hf fun _ _ => trivial

theorem Completable.bind (hr : r.Completable n first₁ follow₁)
    (hf : ∀ x, (f x).Completable n first₂ follow) (hbetween : ∀ k, first₂ k → follow₁ k)
    (hbehind : (∀ x, (f x).Progresses) ∨ ∀ k, follow k → follow₁ k)
    (hfirst : r.Progresses ∨ ∀ k, first₂ k → first₁ k) :
    (r >>= f).Completable n first₁ follow :=
  ⟨hr.predictive.bind hf hbetween hbehind hfirst, hr.firm.bind fun x => (hf x).firm,
    hr.sampled.bind (fun x => (hf x).sampled) hbetween⟩

theorem Completable.after (hr : r.Completable n first₁ fun _ => True) (hprogress : r.Progresses)
    (hf : ∀ x, (f x).Completable n first₂ follow) : (r >>= f).Completable n first₁ follow :=
  hr.bind hf (fun _ _ => trivial) (.inr fun _ _ => trivial) (.inl hprogress)

end

theorem map_of_decline {r : Rule α} {p : TokenStream} {e : Expected} (h : r s = .decline p e)
    (f : α → β) : (f <$> r) s = .decline p e := bind_of_decline h _

theorem map_of_reject {r : Rule α} {p : TokenStream} {e : Expected} (h : r s = .reject p e)
    (f : α → β) : (f <$> r) s = .reject p e := bind_of_reject h _

theorem Predictive.map {r : Rule α} (h : r.Predictive n first follow) (f : α → β) :
    (f <$> r).Predictive n first follow := by
  refine ⟨fun s y rest hs hy => ?_, fun s p e hs hp => ?_, fun s p e hs hp => ?_⟩
  · obtain ⟨x, hx, rfl⟩ := map_eq_accept.1 hy
    obtain ⟨ts, htokens, htakes⟩ := h.accept hs hx
    exact ⟨ts, htokens, htakes.map f⟩
  · rcases bind_eq_decline hp with hp | ⟨x, s', -, hp⟩
    · obtain ⟨rfl, he, hsame⟩ := h.decline hs hp
      exact ⟨rfl, he, fun us hus => map_of_decline (hsame us hus) f⟩
    · exact absurd hp (firm_pure _ s' p e)
  · rcases bind_eq_reject hp with hp | ⟨x, s', -, hp⟩
    · obtain ⟨ts, htokens, hliteral, hsame, c, x, q, hplain, hc, htakes⟩ := h.reject hs hp
      exact ⟨ts, htokens, hliteral, fun us hus => map_of_reject (hsame us hus) f,
        c, f x, q, hplain, hc, htakes.map f⟩
    · exact absurd hp pure_ne_reject

theorem Sampled.map {r : Rule α} (h : r.Sampled first follow) (f : α → β) :
    (f <$> r).Sampled first follow := by
  intro s
  obtain ⟨c, x, q, hplain, hc, htakes⟩ := h s
  exact ⟨c, f x, q, hplain, hc, htakes.map f⟩

/-! ## Choice -/

theorem orElse_of_decline {r q : Rule α} {e : Expected} (h : r s = .decline s e) :
    (r <|> q) s = q s := by
  change Rule.orElse r (fun _ => q) s = _
  simp only [Rule.orElse, h, backTo_eq]

theorem orElse_of_reject {r q : Rule α} {p : TokenStream} {e : Expected} (h : r s = .reject p e) :
    (r <|> q) s = .reject p e := by
  change Rule.orElse r (fun _ => q) s = _
  simp only [Rule.orElse, h]

/-- In front of a token of such a kind the rule declines, and stays where it is. -/
def DeclinesOn (r : Rule α) (K : TokenKind → Prop) : Prop :=
  ∀ s, Heads K s.tokens → ∃ e, r s = .decline s e

section

variable {r q : Rule α} {first₁ first₂ : TokenKind → Prop}

/-- The second rule is tried where the first one declines. This must not change if other tokens
follow, behind nothing at all or as a completion. -/
theorem Predictive.orElse (hr : r.Predictive n first₁ follow) (hq : q.Predictive n first₂ follow)
    (hfirst : r.DeclinesOn first₂) (hfollow : q.Progresses ∨ r.DeclinesOn follow) :
    (r <|> q).Predictive n (fun k => first₁ k ∨ first₂ k) follow := by
  refine ⟨fun s x rest hs h => ?_, fun s p e hs h => ?_, fun s p e hs h => ?_⟩
  all_goals cases hrs : r s
  case refine_1.accept y rest' =>
    rw [orElse_accept_left hrs] at h
    obtain ⟨ts, htokens, htakes⟩ := hr.accept hs (hrs.trans h)
    exact ⟨ts, htokens, htakes.orElse_left q⟩
  case refine_1.decline p e =>
    obtain ⟨rfl, -, hsame⟩ := hr.decline hs hrs
    rw [orElse_of_decline hrs] at h
    obtain ⟨ts, htokens, htakes⟩ := hq.accept hs h
    refine ⟨ts, htokens, htakes.orElse_right fun us hus => ?_⟩
    cases ts with
    | cons t ts => exact ⟨e, hsame _ (by rw [htokens]; rfl)⟩
    | nil =>
      rcases hus with hus | hus
      · exact ⟨e, hsame us (by rw [htokens]; exact hus)⟩
      · rcases hfollow with hprogress | hdeclines
        · have hlt := (hprogress h).1
          have hstart := htakes.start_eq
          simp only [List.length_nil] at hstart
          omega
        · exact hdeclines _ hus
  case refine_1.reject p e =>
    rw [orElse_of_reject hrs] at h
    simp at h
  case refine_2.accept y rest' =>
    rw [orElse_accept_left hrs] at h
    simp at h
  case refine_2.decline p' e' =>
    obtain ⟨rfl, -, hsame⟩ := hr.decline hs hrs
    rw [orElse_of_decline hrs] at h
    obtain ⟨rfl, he, hsame'⟩ := hq.decline hs h
    exact ⟨rfl, he, fun us hus => by rw [orElse_of_decline (hsame us hus), hsame' us hus]⟩
  case refine_2.reject p e =>
    rw [orElse_of_reject hrs] at h
    simp at h
  case refine_3.accept y rest' =>
    rw [orElse_accept_left hrs] at h
    simp at h
  case refine_3.decline p' e' =>
    obtain ⟨rfl, -, hsame⟩ := hr.decline hs hrs
    rw [orElse_of_decline hrs] at h
    obtain ⟨ts, htokens, hliteral, hsame', c, x, q', hplain, hc, htakes⟩ := hq.reject hs h
    refine ⟨ts, htokens, hliteral, fun us hus => ?_, c, x, q', hplain,
      fun hts us hus => (hc hts us hus).mono fun _ => .inr, htakes.orElse_right fun us hus => ?_⟩
    · rw [orElse_of_decline (hsame _ ?_), hsame' us hus]
      cases ts with
      | cons t ts => rw [htokens]; rfl
      | nil => rw [htokens]; exact hus
    · cases ts with
      | cons t ts => exact ⟨e', hsame _ (by rw [htokens]; rfl)⟩
      | nil => exact hfirst _ (hc rfl us hus)
  case refine_3.reject p' e' =>
    rw [orElse_of_reject hrs] at h
    obtain ⟨ts, htokens, hliteral, hsame, c, x, q', hplain, hc, htakes⟩ :=
      hr.reject hs (hrs.trans h)
    exact ⟨ts, htokens, hliteral, fun us hus => orElse_of_reject (hsame us hus),
      c, x, q', hplain, fun hts us hus => (hc hts us hus).mono fun _ => .inl, htakes.orElse_left q⟩

/-- Rules that read a token, of which the first one is never rejected by its first token. -/
theorem Predictive.orElse_of_progresses (hr : r.Predictive n (fun _ => False) follow)
    (hq : q.Predictive n first follow) (hfirst : r.DeclinesOn first) (hprogress : q.Progresses) :
    (r <|> q).Predictive n first follow :=
  (hr.orElse hq hfirst (.inl hprogress)).mono (by simp) fun _ hk => hk

theorem Sampled.orElse (hq : q.Sampled first follow) (hr : r.DeclinesOn first) :
    (r <|> q).Sampled first follow := by
  intro s
  obtain ⟨c, x, q', hplain, hc, htakes⟩ := hq s
  exact ⟨c, x, q', hplain, hc, htakes.orElse_right fun us hus => hr _ (hc us hus)⟩

theorem optional_of_decline {e : Expected} (h : r s = .decline s e) :
    optional r s = .accept none s :=
  optional_accept_none ⟨s, e, h, rfl⟩

theorem Predictive.optional (hr : r.Predictive n first follow) (hfollow : r.DeclinesOn follow) :
    (optional r).Completable n (fun k => first k ∨ follow k) follow := by
  have hsample : ∀ s us, Heads follow us →
      Rule.optional r (facing s us) = .accept none (s.facing us) := by
    intro s us hus
    obtain ⟨e, he⟩ := hfollow (s.facing us) hus
    exact optional_of_decline he
  refine ⟨⟨fun s x rest hs h => ?_, fun s p e _ h => absurd h (firm_optional r s p e),
    fun s p e hs h => ?_⟩, firm_optional r, fun s =>
      ⟨[], none, s, plain_nil, fun us hus => hus.mono fun _ => .inr,
        .nil fun us hus => hsample s us hus⟩⟩
  · cases hrs : r s with
    | accept y rest' =>
      obtain ⟨rfl, rfl⟩ : some y = x ∧ rest' = rest := by simpa [Rule.optional, hrs] using h
      obtain ⟨ts, htokens, htakes⟩ := hr.accept hs hrs
      exact ⟨ts, htokens, htakes.optional⟩
    | decline p e =>
      obtain ⟨rfl, -, hsame⟩ := hr.decline hs hrs
      rw [optional_of_decline hrs] at h
      obtain ⟨rfl, rfl⟩ := Reply.accept.inj h
      refine ⟨[], rfl, .nil fun us hus => ?_⟩
      exact hus.elim (fun hus => optional_of_decline (hsame us hus)) (hsample p us)
    | reject p e => simp [Rule.optional, hrs] at h
  · cases hrs : r s with
    | accept y rest' => simp [Rule.optional, hrs] at h
    | decline p e => simp [Rule.optional, hrs] at h
    | reject p' e' =>
      obtain ⟨rfl, rfl⟩ : p' = p ∧ e' = e := by simpa [Rule.optional, hrs] using h
      obtain ⟨ts, htokens, hliteral, hsame, c, x, q', hplain, hc, htakes⟩ := hr.reject hs hrs
      exact ⟨ts, htokens, hliteral, fun us hus => by rw [Rule.optional, hsame us hus],
        c, some x, q', hplain, fun hts us hus => (hc hts us hus).mono fun _ => .inl,
        htakes.optional⟩

/-- Where the rule declines, a sample of it completes what was read. -/
theorem Predictive.required (hr : r.Predictive n first follow) (hsampled : r.Sampled first follow)
    {e : Expected} (he : e ≠ .literal) : (r.required e).Completable n first follow := by
  refine ⟨⟨fun s x rest hs h => ?_, fun s p d _ h => absurd h (firm_required r e s p d),
    fun s p d hs h => ?_⟩, firm_required r e, fun s => ?_⟩
  · obtain ⟨ts, htokens, htakes⟩ := hr.accept hs (required_eq_accept.1 h)
    exact ⟨ts, htokens, htakes.required e⟩
  · cases hrs : r s with
    | accept y rest => simp [Rule.required, hrs] at h
    | decline p' d' =>
      obtain ⟨rfl, -, hsame⟩ := hr.decline hs hrs
      obtain ⟨rfl, rfl⟩ : p' = p ∧ e = d := by simpa [Rule.required, hrs] using h
      obtain ⟨c, x, q', hplain, hc, htakes⟩ := hsampled p'
      exact ⟨[], rfl, fun h => absurd h he, fun us hus => by simp [Rule.required, hsame us hus],
        c, x, q', hplain, fun _ => hc, htakes.required e⟩
    | reject p' d' =>
      obtain ⟨rfl, rfl⟩ : p' = p ∧ d' = d := by simpa [Rule.required, hrs] using h
      obtain ⟨ts, htokens, hliteral, hsame, c, x, q', hplain, hc, htakes⟩ := hr.reject hs hrs
      exact ⟨ts, htokens, hliteral, fun us hus => by rw [Rule.required, hsame us hus],
        c, x, q', hplain, hc, htakes.required e⟩
  · obtain ⟨c, x, q', hplain, hc, htakes⟩ := hsampled s
    exact ⟨c, x, q', hplain, hc, htakes.required e⟩

end

/-! ## Nodes and tokens -/

theorem located_eq_reject {r : Rule (Place → α)} {p : TokenStream} {e : Expected} :
    located r s = .reject p e ↔ r s = .reject p e := by
  unfold located
  cases r s <;> simp

theorem Progresses.of_located {r : Rule (Place → α)} (h : (Rule.located r).Progresses) :
    r.Progresses := by
  intro s build rest hx
  have hlt := h (located_eq_accept.2 ⟨build, rest, hx, rfl, rfl⟩)
  exact hlt

theorem Predictive.located {r : Rule (Place → α)} (hr : r.Predictive n first follow)
    (hprogress : r.Progresses) : (located r).Predictive n first follow := by
  refine ⟨fun s x rest hs h => ?_, fun s p e hs h => ?_, fun s p e hs h => ?_⟩
  · obtain ⟨build, s', hbuild, rfl, rfl⟩ := located_eq_accept.1 h
    obtain ⟨ts, htokens, htakes⟩ := hr.accept hs hbuild
    have hlocated := htakes.located (htakes.ne_nil hprogress) s'.tokens
    rw [facing_eq rfl, facing_eq htokens] at hlocated
    exact ⟨ts, htokens, hlocated⟩
  · obtain ⟨rfl, he, hsame⟩ := hr.decline hs (located_eq_decline h)
    exact ⟨rfl, he, fun us hus => by rw [Rule.located, hsame us hus]⟩
  · obtain ⟨ts, htokens, hliteral, hsame, c, build, q, hplain, hc, htakes⟩ :=
      hr.reject hs (located_eq_reject.1 h)
    exact ⟨ts, htokens, hliteral, fun us hus => located_eq_reject.2 (hsame us hus),
      c, _, q.drawId, hplain, hc, htakes.located (htakes.ne_nil hprogress) []⟩

theorem Sampled.located {r : Rule (Place → α)} (hr : r.Sampled first follow)
    (hprogress : r.Progresses) : (located r).Sampled first follow := by
  intro s
  obtain ⟨c, build, q, hplain, hc, htakes⟩ := hr s
  exact ⟨c, _, q.drawId, hplain, hc, htakes.located (htakes.ne_nil hprogress) []⟩

/-- A rule that reads a token if the token is of use, and that declines otherwise. -/
structure Single (r : Rule α) (use : Token → Option α) (e : Expected) : Prop where
  accept : ∀ ⦃s t x⦄, s.first? = some t → use t = some x → r s = .accept x s.tail
  decline : ∀ ⦃s⦄, (∀ t ∈ s.first?, use t = none) → r s = .decline s e

namespace Single

variable {r : Rule α} {use : Token → Option α} {e : Expected}

theorem takes (h : r.Single use e) {t : Token} {x : α} (hfirst : s.first? = some t)
    (hx : use t = some x) (next : List Token → Prop) : r.Takes s [t] x s.tail next := by
  refine ⟨tail_start hfirst, fun us _ => ?_⟩
  rw [← tail_facing hfirst us]
  exact h.accept rfl hx

theorem predictive (h : r.Single use e) (he : e ≠ .literal) :
    r.Predictive n (fun _ => False) fun _ => True := by
  have hcases : ∀ s : TokenStream,
      (∃ t x, s.first? = some t ∧ use t = some x) ∨ ∀ t ∈ s.first?, use t = none := by
    intro s
    cases hfirst : s.first? with
    | none => exact .inr (by simp)
    | some t =>
      cases hx : use t with
      | none => exact .inr (by simpa using hx)
      | some x => exact .inl ⟨t, x, rfl, hx⟩
  refine ⟨fun s y rest _ hy => ?_, fun s p d _ hp => ?_, fun s p d _ hp => ?_⟩
  all_goals rcases hcases s with ⟨t, x, hfirst, hx⟩ | hnone
  · obtain ⟨rfl, rfl⟩ := Reply.accept.inj ((h.accept hfirst hx).symm.trans hy)
    exact ⟨[t], tokens_of_first? hfirst, h.takes hfirst hx _⟩
  · simp [h.decline hnone] at hy
  · simp [h.accept hfirst hx] at hp
  · obtain ⟨rfl, rfl⟩ := Reply.decline.inj ((h.decline hnone).symm.trans hp)
    refine ⟨rfl, he, fun us hus => h.decline ?_⟩
    rw [first?_facing, hus]
    exact hnone
  · simp [h.accept hfirst hx] at hp
  · simp [h.decline hnone] at hp

theorem sampled (h : r.Single use e) {t : Token} {x : α} (hx : use t = some x)
    (hplain : t.isTrivia = false) (hfirst : first t.kind) : r.Sampled first follow := by
  intro s
  have htakes := h.takes (s := s.facing [t]) rfl hx (Heads follow)
  exact ⟨[t], x, (s.facing [t]).tail, List.forall_mem_singleton.2 hplain,
    fun us _ => heads_cons hfirst us,
    htakes.start_eq, htakes.accept⟩

theorem declinesOn (h : r.Single use e) {K : TokenKind → Prop}
    (hK : ∀ t, K t.kind → use t = none) : r.DeclinesOn K := by
  rintro s ⟨t, ht, hk⟩
  refine ⟨e, h.decline fun u hu => ?_⟩
  obtain rfl : t = u := Option.some.inj (ht.symm.trans hu)
  exact hK t hk

end Single

theorem single_token (kind : TokenKind) :
    (token kind).Single (fun t => if t.kind = kind then some t else none) (.token kind) := by
  refine ⟨fun s t x hfirst hx => ?_, fun s hnone => ?_⟩
  · obtain ⟨hkind, rfl⟩ : t.kind = kind ∧ t = x := by simpa using hx
    simp [token, hfirst, hkind]
  · unfold token
    cases hfirst : s.first? with
    | none => rfl
    | some t =>
      have hne := hnone t hfirst
      rw [ite_eq_right_iff] at hne
      exact if_neg fun hkind => by simpa using hne hkind

theorem single_identifier : identifier.Single
    (fun t => if t.kind = .identifier then t.text.map (⟨·, t.span⟩) else none) .identifier := by
  refine ⟨fun s t x hfirst hx => ?_, fun s hnone => ?_⟩
  · obtain ⟨kind, span, text⟩ := t
    rw [Option.ite_none_right_eq_some, Option.map_eq_some_iff] at hx
    obtain ⟨rfl, name, rfl, rfl⟩ := hx
    simp [identifier, hfirst]
  · unfold identifier
    split
    · next span name hfirst => simpa using hnone _ hfirst
    · rfl

theorem single_operator {Op : Type} (ofToken? : TokenKind → Option Op) :
    (operator ofToken?).Single (fun t => ofToken? t.kind) .expression := by
  refine ⟨fun s t x hfirst hx => ?_, fun s hnone => ?_⟩
  · simp [operator, firstKind?, hfirst, hx]
  · unfold operator firstKind?
    cases hfirst : s.first? with
    | none => rfl
    | some t => simp [hnone t hfirst]

theorem predictive_token (kind : TokenKind) (n : Nat) :
    (token kind).Predictive n (fun _ => False) fun _ => True :=
  (single_token kind).predictive (by simp)

theorem predictive_keyword (k : Keyword) (n : Nat) :
    (keyword k).Predictive n (fun _ => False) fun _ => True := predictive_token _ n

theorem predictive_punctuator (p : Punctuator) (n : Nat) :
    (punctuator p).Predictive n (fun _ => False) fun _ => True := predictive_token _ n

theorem predictive_identifier (n : Nat) :
    identifier.Predictive n (fun _ => False) fun _ => True :=
  single_identifier.predictive (by simp)

theorem predictive_operator {Op : Type} (ofToken? : TokenKind → Option Op) (n : Nat) :
    (operator ofToken?).Predictive n (fun _ => False) fun _ => True :=
  (single_operator ofToken?).predictive (by simp)

theorem sampled_token {kind : TokenKind} (h : kind.isTrivia = false) :
    (token kind).Sampled (· = kind) follow :=
  (single_token kind).sampled (t := ⟨kind, .dummy, none⟩) (if_pos rfl) h rfl

theorem sampled_keyword (k : Keyword) : (keyword k).Sampled (· = .keyword k) follow :=
  sampled_token rfl

theorem sampled_punctuator (p : Punctuator) :
    (punctuator p).Sampled (· = .punctuator p) follow := sampled_token rfl

theorem sampled_identifier : identifier.Sampled (· = .identifier) follow :=
  single_identifier.sampled (t := ⟨.identifier, .dummy, some "x"⟩) rfl rfl rfl

theorem completable_expect (p : Punctuator) (n : Nat) :
    (expect p).Completable n (· = .punctuator p) fun _ => True :=
  ((predictive_punctuator p n).mono (fun _ => False.elim) fun _ _ => trivial).required
    (sampled_punctuator p) (by simp)

theorem completable_identifier {e : Expected} (he : e ≠ .literal) (n : Nat) :
    (identifier.required e).Completable n (· = .identifier) fun _ => True :=
  ((predictive_identifier n).mono (fun _ => False.elim) fun _ _ => trivial).required
    sampled_identifier he

theorem declinesOn_token {kind : TokenKind} {K : TokenKind → Prop} (h : ¬ K kind) :
    (token kind).DeclinesOn K :=
  (single_token kind).declinesOn fun t hk => if_neg fun hkind : t.kind = kind => h (hkind ▸ hk)

theorem declinesOn_identifier {K : TokenKind → Prop} (h : ¬ K .identifier) :
    identifier.DeclinesOn K :=
  single_identifier.declinesOn fun t hk =>
    if_neg fun hkind : t.kind = .identifier => h (hkind ▸ hk)

theorem declinesOn_operator {Op : Type} {ofToken? : TokenKind → Option Op}
    {K : TokenKind → Prop} (h : ∀ kind, K kind → ofToken? kind = none) :
    (operator ofToken?).DeclinesOn K :=
  (single_operator ofToken?).declinesOn fun t => h t.kind

section

variable {K : TokenKind → Prop}

theorem declinesOn_false (r : Rule α) : r.DeclinesOn fun _ => False :=
  fun _ ⟨_, _, h⟩ => h.elim

theorem DeclinesOn.mono {r : Rule α} {K' : TokenKind → Prop} (h : r.DeclinesOn K)
    (hK : ∀ k, K' k → K k) : r.DeclinesOn K' :=
  fun s hs => h s (hs.mono hK)

theorem DeclinesOn.bind {r : Rule α} (h : r.DeclinesOn K) (f : α → Rule β) :
    (r >>= f).DeclinesOn K := by
  intro s hs
  obtain ⟨e, he⟩ := h s hs
  exact ⟨e, bind_of_decline he f⟩

theorem DeclinesOn.map {r : Rule α} (h : r.DeclinesOn K) (f : α → β) : (f <$> r).DeclinesOn K :=
  h.bind _

theorem DeclinesOn.orElse {r q : Rule α} (hr : r.DeclinesOn K) (hq : q.DeclinesOn K) :
    (r <|> q).DeclinesOn K := by
  intro s hs
  obtain ⟨d, hd⟩ := hr s hs
  obtain ⟨e, he⟩ := hq s hs
  exact ⟨e, (orElse_of_decline hd).trans he⟩

theorem DeclinesOn.located {r : Rule (Place → α)} (h : r.DeclinesOn K) :
    (located r).DeclinesOn K := by
  intro s hs
  obtain ⟨e, he⟩ := h s hs
  exact ⟨e, by rw [Rule.located, he]⟩

end

/-! ## Repetition -/

section

variable {r : Rule α} {first₁ follow₁ : TokenKind → Prop}

theorem Completable.map {r : Rule α} (h : r.Completable n first follow) (f : α → β) :
    (f <$> r).Completable n first follow :=
  ⟨h.predictive.map f, h.firm.map f, h.sampled.map f⟩

/-- Either nothing, or a first part that reads a token and a second one with fewer tokens ahead. -/
theorem Predictive.orElse_pure {f : α → Rule β} (hr : r.Predictive (n + 1) first₁ follow₁)
    (hprogress : r.Progresses) (hf : ∀ x, (f x).Completable n (fun k => first₁ k ∨ follow k) follow)
    (hbetween : ∀ k, first₁ k ∨ follow k → follow₁ k) (hfollow : r.DeclinesOn follow) (y : β) :
    ((r >>= f) <|> pure y).Predictive (n + 1) (fun k => first₁ k ∨ follow k) follow := by
  have hsequence : (r >>= f).Predictive (n + 1) first₁ follow :=
    hr.sequence hf (fun s x rest hs hx => by have := (hprogress hx).2; omega) hbetween
      (.inr fun k hk => hbetween k (.inr hk)) (.inl hprogress)
  exact hsequence.orElse (completable_pure y).predictive (hfollow.bind f) (.inr (hfollow.bind f))

/-- Elements one after another: what may begin an element, or end the repetition, may follow an
element. -/
theorem Predictive.many (hr : r.Predictive n first₁ follow₁) (hprogress : r.Progresses)
    (hbetween : ∀ k, first₁ k ∨ follow k → follow₁ k) (hfollow : r.DeclinesOn follow) :
    (many r).Completable n (fun k => first₁ k ∨ follow k) follow := by
  have hsampled : (Rule.many r).Sampled (fun k => first₁ k ∨ follow k) follow := by
    rw [many_eq hprogress]
    exact ((completable_pure (n := n) []).sampled.orElse (hfollow.bind _)).mono (fun _ => .inr)
      fun _ hk => hk
  refine ⟨?_, firm_many hprogress, hsampled⟩
  induction n with
  | zero => exact .zero _
  | succ n ih =>
    rw [many_eq hprogress]
    exact hr.orElse_pure hprogress
      (fun x => Completable.map ⟨ih (hr.le (Nat.le_succ n)), firm_many hprogress, hsampled⟩ _)
      hbetween hfollow []

theorem sampled_iterate {step : α → Rule α} (hprogress : ∀ x, (step x).Progresses)
    (hempty : ∀ x, (step x).DeclinesEmpty) (hfollow : ∀ x, (step x).DeclinesOn follow) (x : α) :
    (iterate step x).Sampled follow follow := by
  rw [iterate_eq hprogress hempty]
  exact (completable_pure (n := 0) x).sampled.orElse ((hfollow x).bind _)

theorem Predictive.iterate {step : α → Rule α} (hstep : ∀ x, (step x).Predictive n first₁ follow₁)
    (hprogress : ∀ x, (step x).Progresses) (hempty : ∀ x, (step x).DeclinesEmpty)
    (hbetween : ∀ k, first₁ k ∨ follow k → follow₁ k) (hfollow : ∀ x, (step x).DeclinesOn follow)
    (x : α) : (iterate step x).Completable n (fun k => first₁ k ∨ follow k) follow := by
  have hsampled : ∀ x, (Rule.iterate step x).Sampled (fun k => first₁ k ∨ follow k) follow :=
    fun x => (sampled_iterate hprogress hempty hfollow x).mono (fun _ => .inr) fun _ hk => hk
  refine ⟨?_, firm_iterate step x, hsampled x⟩
  induction n generalizing x with
  | zero => exact .zero _
  | succ n ih =>
    rw [iterate_eq hprogress hempty]
    exact (hstep x).orElse_pure (hprogress x)
      (fun y => ⟨ih (fun x => (hstep x).le (Nat.le_succ n)) y, firm_iterate step y, hsampled y⟩)
      hbetween (hfollow x) x

theorem Predictive.commaList (hr : r.Predictive n first₁ follow₁)
    (hsampled : r.Sampled first₁ follow₁) (hprogress : r.Progresses) {e : Expected}
    (he : e ≠ .literal) (hbetween : ∀ k, follow k → follow₁ k)
    (hcomma : ¬ follow (.punctuator .comma)) (hfollow : r.DeclinesOn follow) :
    (commaList r e).Completable n (fun k => first₁ k ∨ follow k) follow := by
  have hprogress' : (do let _ ← punctuator .comma; r.required e : Rule α).Progresses :=
    (progresses_punctuator _).bind fun _ => hprogress.shrinks.required e
  have hmore : (do let _ ← punctuator .comma; r.required e : Rule α).Predictive n
      (fun _ => False) follow₁ :=
    (Predictive.behind (predictive_punctuator _) (progresses_punctuator _)
      fun _ => hr.required hsampled he).le (Nat.le_succ n)
  have hmany : (Rule.many (do let _ ← punctuator .comma; r.required e)).Completable n
      follow follow :=
    (hmore.many hprogress' (by simpa using hbetween) ((declinesOn_token hcomma).bind _)).mono
      (by simp) fun _ hk => hk
  have hdeclines := hfollow.bind fun x =>
    (x :: ·) <$> Rule.many (do let _ ← punctuator .comma; r.required e)
  have hlist := hr.bind (fun x => hmany.map (x :: ·)) hbetween (.inr hbetween) (.inl hprogress)
  rw [commaList_eq hprogress']
  refine ⟨hlist.orElse (completable_pure []).predictive hdeclines (.inr hdeclines),
    .orElse _ (firm_pure _), ?_⟩
  exact ((completable_pure (n := n) []).sampled.orElse hdeclines).mono (fun _ => .inr)
    fun _ hk => hk

end

end Rule

end Sable
