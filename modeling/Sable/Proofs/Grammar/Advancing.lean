import Sable.Proofs.Grammar.ViablePrefix

/-!
# Rules that decide where they stand

A rule decides if it reads a token wherever it accepts, and declines only where it stands, with no
number drawn. A sequence decides if its first part does and the others never decline: whatever is
missing behind a token is a rejection. An alternative to such a rule begins where that one was
tried, and each turn of a repetition reads a token, so the repetition ends.

## Main definitions

* `TokenStream.Past`: the stream behind some more tokens.
* `Rule.Decides`: the rule reads a token, or leaves the stream as it is.
* `Rule.Continues`: the rule may stand behind others, since it never declines.
* `Rule.Repeats`, `Rule.Iterates`: the turns of a loop that has ended.

## Main statements

* `Rule.Decides.bind`, `Rule.Decides.orElse_eq`, `Rule.Decides.located`: sequence, choice and nodes.
* `Rule.Decides.repeats`, `Rule.Decides.iterates`: loops end.
* `Rule.Decides.many`, `Rule.Decides.iterate`, `Rule.Decides.commaList`: what loops read.
-/
namespace Sable

/-- `rest` stands `n` tokens further on than `s`. -/
structure TokenStream.Past (s : TokenStream) (n : Nat) (rest : TokenStream) : Prop where
  le : n ≤ s.tokens.length
  tokens_eq : rest.tokens = s.tokens.drop n
  start_eq : rest.start = s.start + n
  source_eq : rest.source = s.source

namespace TokenStream

variable {s s' rest : TokenStream} {t : Token} {m n : Nat}

theorem past_zero (s : TokenStream) : s.Past 0 s := ⟨Nat.zero_le _, rfl, rfl, rfl⟩

theorem past_tail (h : s.first? = some t) : s.Past 1 s.tail := by
  have htokens := tokens_of_first? h
  exact ⟨by simp [htokens], by rw [htokens, List.drop_one, List.tail_cons], tail_start h,
    tail_source s⟩

theorem Past.trans (h : s.Past m s') (h' : s'.Past n rest) : s.Past (m + n) rest := by
  have hle := h'.le
  rw [h.tokens_eq, List.length_drop] at hle
  have hle' := h.le
  refine ⟨by omega, ?_, ?_, h'.source_eq.trans h.source_eq⟩
  · rw [h'.tokens_eq, h.tokens_eq, List.drop_drop]
  · rw [h'.start_eq, h.start_eq, Nat.add_assoc]

theorem Past.drawId (h : s.Past n rest) : s.Past n rest.drawId :=
  ⟨h.le, h.tokens_eq, h.start_eq, h.source_eq⟩

end TokenStream

open TokenStream

namespace Rule

variable {α β : Type} {s : TokenStream}

/-- The rule reads a token at least, or it declines where it stands. Nothing stops it for lack of
progress. -/
structure Decides (r : Rule α) : Prop where
  accept : ∀ ⦃s x rest⦄, r s = .accept x rest → ∃ n, 0 < n ∧ s.Past n rest
  decline : ∀ ⦃s p e⦄, r s = .decline p e → p = s ∧ e ≠ .progress
  reject : ∀ ⦃s p e⦄, r s = .reject p e → e ≠ .progress

/-- The rule goes on behind what others have read, if only by nothing. -/
structure Continues (r : Rule α) : Prop where
  firm : r.Firm
  accept : ∀ ⦃s x rest⦄, r s = .accept x rest → ∃ n, s.Past n rest
  reject : ∀ ⦃s p e⦄, r s = .reject p e → e ≠ .progress

theorem Decides.progresses {r : Rule α} (h : r.Decides) : r.Progresses := by
  intro s x rest hx
  obtain ⟨n, hn, hpast⟩ := h.accept hx
  have hle := hpast.le
  have hlen := congrArg List.length hpast.tokens_eq
  rw [List.length_drop] at hlen
  have hstart := hpast.start_eq
  omega

/-! ## Sequence and choice -/

theorem continues_pure (x : α) : (pure x : Rule α).Continues := by
  refine ⟨firm_pure x, fun s y rest h => ?_, fun s p e h => absurd h pure_ne_reject⟩
  obtain ⟨-, rfl⟩ := pure_eq_accept.1 h
  exact ⟨0, past_zero s⟩

theorem Continues.bind {r : Rule α} {f : α → Rule β} (hr : r.Continues)
    (hf : ∀ x, (f x).Continues) : (r >>= f).Continues := by
  refine ⟨hr.firm.bind fun x => (hf x).firm, fun s y rest h => ?_, fun s p e h => ?_⟩
  · obtain ⟨x, s', hx, hy⟩ := bind_eq_accept.1 h
    obtain ⟨m, hm⟩ := hr.accept hx
    obtain ⟨n, hn⟩ := (hf x).accept hy
    exact ⟨m + n, hm.trans hn⟩
  · rcases bind_eq_reject h with h | ⟨x, s', -, h⟩
    · exact hr.reject h
    · exact (hf x).reject h

/-- Only the first part of a sequence may decline, before anything is read. -/
theorem Decides.bind {r : Rule α} {f : α → Rule β} (hr : r.Decides)
    (hf : ∀ x, (f x).Continues) : (r >>= f).Decides := by
  refine ⟨fun s y rest h => ?_, fun s p e h => ?_, fun s p e h => ?_⟩
  · obtain ⟨x, s', hx, hy⟩ := bind_eq_accept.1 h
    obtain ⟨m, hpos, hm⟩ := hr.accept hx
    obtain ⟨n, hn⟩ := (hf x).accept hy
    exact ⟨m + n, Nat.add_pos_left hpos n, hm.trans hn⟩
  · rcases bind_eq_decline h with h | ⟨x, s', -, h⟩
    · exact hr.decline h
    · exact absurd h ((hf x).firm s' p e)
  · rcases bind_eq_reject h with h | ⟨x, s', -, h⟩
    · exact hr.reject h
    · exact (hf x).reject h

theorem Continues.map {r : Rule α} (h : r.Continues) (f : α → β) : (f <$> r).Continues :=
  h.bind fun x => continues_pure (f x)

theorem Decides.map {r : Rule α} (h : r.Decides) (f : α → β) : (f <$> r).Decides :=
  h.bind fun x => continues_pure (f x)

theorem decides_declines {e : Expected} (he : e ≠ .progress) : (declines e : Rule α).Decides := by
  refine ⟨fun s x rest h => by simp [declines] at h, fun s p d h => ?_,
    fun s p d h => by simp [declines] at h⟩
  obtain ⟨rfl, rfl⟩ := Reply.decline.inj h
  exact ⟨rfl, he⟩

theorem decides_rejects {e : Expected} (he : e ≠ .progress) : (rejects e : Rule α).Decides := by
  refine ⟨fun s x rest h => by simp [rejects] at h, fun s p d h => by simp [rejects] at h,
    fun s p d h => ?_⟩
  obtain ⟨-, rfl⟩ := Reply.reject.inj h
  exact he

/-- A rule that does everywhere what some such rule does. -/
theorem Decides.of_eq {r : Rule α} (h : ∀ s, ∃ q : Rule α, q.Decides ∧ r s = q s) :
    r.Decides := by
  refine ⟨fun s x rest hx => ?_, fun s p e hp => ?_, fun s p e hp => ?_⟩
  all_goals obtain ⟨q, hq, heq⟩ := h s
  · exact hq.accept (heq ▸ hx)
  · exact hq.decline (heq ▸ hp)
  · exact hq.reject (heq ▸ hp)

/-- An alternative begins where the one before it was tried. -/
theorem Decides.orElse_eq {r : Rule α} (h : r.Decides) (q : Rule α) (s : TokenStream) :
    (r <|> q) s = match r s with
      | .decline _ _ => q s
      | reply => reply := by
  cases hr : r s with
  | accept x rest => exact orElse_accept_left hr
  | decline p e =>
    obtain ⟨rfl, -⟩ := h.decline hr
    exact orElse_of_decline hr
  | reject p e => exact orElse_of_reject hr

theorem Decides.orElse {r q : Rule α} (hr : r.Decides) (hq : q.Decides) :
    (r <|> q).Decides := by
  refine ⟨fun s x rest h => ?_, fun s p e h => ?_, fun s p e h => ?_⟩
  all_goals
    rw [hr.orElse_eq] at h
    split at h
  · exact hq.accept h
  · exact hr.accept h
  · exact hq.decline h
  · exact hr.decline h
  · exact hq.reject h
  · exact hr.reject h

theorem Decides.orElse_continues {r q : Rule α} (hr : r.Decides) (hq : q.Continues) :
    (r <|> q).Continues := by
  refine ⟨hq.firm.orElse r, fun s x rest h => ?_, fun s p e h => ?_⟩
  all_goals
    rw [hr.orElse_eq] at h
    split at h
  · exact hq.accept h
  · obtain ⟨n, -, hn⟩ := hr.accept h
    exact ⟨n, hn⟩
  · exact hq.reject h
  · exact hr.reject h

theorem Decides.optional_eq {r : Rule α} (h : r.Decides) (s : TokenStream) :
    optional r s = match r s with
      | .accept x rest => .accept (some x) rest
      | .decline _ _ => .accept none s
      | .reject p e => .reject p e := by
  unfold optional
  cases hr : r s with
  | accept x rest => rfl
  | decline p e =>
    obtain ⟨rfl, -⟩ := h.decline hr
    rfl
  | reject p e => rfl

theorem Decides.optional {r : Rule α} (hr : r.Decides) : (optional r).Continues := by
  refine ⟨firm_optional r, fun s x rest h => ?_, fun s p e h => ?_⟩
  all_goals
    rw [hr.optional_eq] at h
    cases hrs : r s with
    | accept y rest' => ?_
    | decline p' e' => ?_
    | reject p' e' => ?_
  all_goals simp only [hrs, Reply.accept.injEq, Reply.reject.injEq, reduceCtorEq] at h
  · obtain ⟨-, rfl⟩ := h
    obtain ⟨n, -, hn⟩ := hr.accept hrs
    exact ⟨n, hn⟩
  · obtain ⟨-, rfl⟩ := h
    exact ⟨0, past_zero s⟩
  · obtain ⟨-, rfl⟩ := h
    exact hr.reject hrs

section

variable {r : Rule α} (hr : r.Decides) {e : Expected} (he : e ≠ .progress)

include hr he

theorem Decides.reject_required {p : TokenStream} {d : Expected}
    (h : r.required e s = .reject p d) : d ≠ .progress := by
  cases hrs : r s with
  | accept x rest => simp [required, hrs] at h
  | decline p' d' =>
    obtain ⟨-, rfl⟩ : s = p ∧ e = d := by simpa [required, hrs] using h
    exact he
  | reject p' d' =>
    obtain ⟨-, rfl⟩ : p' = p ∧ d' = d := by simpa [required, hrs] using h
    exact hr.reject hrs

theorem Decides.required : (r.required e).Continues :=
  ⟨firm_required r e, fun _ _ _ h => (hr.accept (required_eq_accept.1 h)).imp fun _ => And.right,
    fun _ _ _ => hr.reject_required he⟩

theorem Decides.required_decides : (r.required e).Decides :=
  ⟨fun _ _ _ h => hr.accept (required_eq_accept.1 h),
    fun s p d h => absurd h (firm_required r e s p d), fun _ _ _ => hr.reject_required he⟩

end

/-! ## Nodes and tokens -/

theorem continues_numbered (span : Span) : (numbered span).Continues := by
  refine ⟨firm_numbered span, fun s place rest h => ?_, fun s p e h => by simp [numbered] at h⟩
  obtain ⟨-, rfl⟩ := numbered_eq_accept.1 h
  exact ⟨0, (past_zero s).drawId⟩

theorem continues_placed (span : Span) (f : Place → α) :
    (do let place ← numbered span; return f place : Rule α).Continues :=
  (continues_numbered span).bind fun _ => continues_pure _

theorem Decides.located {r : Rule (Place → α)} (hr : r.Decides) : (located r).Decides := by
  refine ⟨fun s x rest h => ?_, fun s p e h => hr.decline (located_eq_decline h),
    fun s p e h => hr.reject (located_eq_reject.1 h)⟩
  obtain ⟨build, s', hbuild, -, rfl⟩ := located_eq_accept.1 h
  obtain ⟨n, hpos, hn⟩ := hr.accept hbuild
  exact ⟨n, hpos, hn.drawId⟩

theorem Single.decides {r : Rule α} {use : Token → Option α} {e : Expected} (h : r.Single use e)
    (he : e ≠ .progress) : r.Decides := by
  have hreply : ∀ s, (∃ t x, s.first? = some t ∧ r s = .accept x s.tail) ∨ r s = .decline s e := by
    intro s
    by_cases hnone : ∀ t ∈ s.first?, use t = none
    · exact .inr (h.decline hnone)
    · simp only [not_forall, Option.mem_def, exists_prop] at hnone
      obtain ⟨t, hfirst, huse⟩ := hnone
      obtain ⟨x, hx⟩ := Option.ne_none_iff_exists'.1 huse
      exact .inl ⟨t, x, hfirst, h.accept hfirst hx⟩
  refine ⟨fun s y rest hy => ?_, fun s p d hp => ?_, fun s p d hp => ?_⟩
  all_goals rcases hreply s with ⟨t, x, hfirst, hx⟩ | hnone
  · obtain ⟨-, rfl⟩ := Reply.accept.inj (hx.symm.trans hy)
    exact ⟨1, Nat.one_pos, past_tail hfirst⟩
  · simp [hnone] at hy
  · simp [hx] at hp
  · obtain ⟨rfl, rfl⟩ := Reply.decline.inj (hnone.symm.trans hp)
    exact ⟨rfl, he⟩
  · simp [hx] at hp
  · simp [hnone] at hp

theorem decides_token (kind : TokenKind) : (token kind).Decides :=
  (single_token kind).decides (by simp)

theorem decides_keyword (k : Keyword) : (keyword k).Decides := decides_token _

theorem decides_punctuator (p : Punctuator) : (punctuator p).Decides := decides_token _

theorem decides_identifier : identifier.Decides := single_identifier.decides (by simp)

theorem decides_operator {Op : Type} (ofToken? : TokenKind → Option Op) :
    (operator ofToken?).Decides := (single_operator ofToken?).decides (by simp)

theorem continues_expect (p : Punctuator) : (expect p).Continues :=
  (decides_punctuator p).required (by simp)

theorem continues_identifier : (identifier.required .identifier).Continues :=
  decides_identifier.required (by simp)

/-- A part that a punctuator closes. -/
theorem Decides.closed {r : Rule α} (hr : r.Decides) (p : Punctuator) :
    (do let x ← r; let _ ← expect p; return x : Rule α).Decides :=
  hr.bind fun _ => (continues_expect p).bind fun _ => continues_pure _

/-! ## Loops -/

/-- The turns of a repetition, up to its end: each one reads on, and the last one declines where it
stands. -/
inductive Repeats (r : Rule α) : TokenStream → Reply (List α) → Prop
  | stop {s : TokenStream} {e : Expected} (h : r s = .decline s e) : Repeats r s (.accept [] s)
  | fail {s p : TokenStream} {e : Expected} (h : r s = .reject p e) : Repeats r s (.reject p e)
  | turn {s rest : TokenStream} {x : α} {reply : Reply (List α)} (h : r s = .accept x rest)
      (hlt : s.start < rest.start) (hrest : Repeats r rest reply) :
      Repeats r s (reply.map (x :: ·))

/-- The turns of an iteration, up to its end. -/
inductive Iterates (step : α → Rule α) : α → TokenStream → Reply α → Prop
  | stop {x : α} {s : TokenStream} {e : Expected} (h : step x s = .decline s e) :
      Iterates step x s (.accept x s)
  | fail {x : α} {s p : TokenStream} {e : Expected} (h : step x s = .reject p e) :
      Iterates step x s (.reject p e)
  | turn {x y : α} {s rest : TokenStream} {reply : Reply α} (h : step x s = .accept y rest)
      (hlt : s.start < rest.start) (hrest : Iterates step y rest reply) :
      Iterates step x s reply

/-- One element and the repetition again, or nothing. -/
theorem Decides.many_eq {r : Rule α} (hr : r.Decides) (s : TokenStream) :
    many r s = match r s with
      | .accept x rest => (many r rest).map (x :: ·)
      | .decline _ _ => .accept [] s
      | .reject p e => .reject p e := by
  have hmany := congrFun (Rule.many_eq hr.progresses) s
  rw [bind_orElse_pure fun x => (firm_many hr.progresses).map (x :: ·)] at hmany
  rw [hmany]
  cases hrs : r s with
  | accept x rest => exact map_apply _ _ _
  | decline p e =>
    obtain ⟨rfl, -⟩ := hr.decline hrs
    rfl
  | reject p e => rfl

/-- Each turn leaves fewer tokens ahead. -/
theorem Decides.repeats {r : Rule α} (hr : r.Decides) (s : TokenStream) :
    Repeats r s (many r s) := by
  induction hlen : s.tokens.length using Nat.strong_induction_on generalizing s with
  | _ n ih =>
    rw [hr.many_eq]
    cases hrs : r s with
    | accept x rest =>
      obtain ⟨hstart, hlt⟩ := hr.progresses hrs
      exact .turn hrs hstart (ih _ (hlen ▸ hlt) rest rfl)
    | decline p e =>
      obtain ⟨rfl, -⟩ := hr.decline hrs
      exact .stop hrs
    | reject p e => exact .fail hrs

theorem Decides.iterates {step : α → Rule α} (hstep : ∀ x, (step x).Decides)
    (hempty : ∀ x, (step x).DeclinesEmpty) (x : α) (s : TokenStream) :
    Iterates step x s (iterate step x s) := by
  induction hlen : s.tokens.length using Nat.strong_induction_on generalizing x s with
  | _ n ih =>
    rw [iterate_eq (fun x => (hstep x).progresses) hempty,
      bind_orElse_pure fun y => firm_iterate step y]
    cases hys : step x s with
    | accept y rest =>
      obtain ⟨hstart, hlt⟩ := (hstep x).progresses hys
      exact .turn hys hstart (ih _ (hlen ▸ hlt) y rest rfl)
    | decline p e =>
      obtain ⟨rfl, -⟩ := (hstep x).decline hys
      exact .stop hys
    | reject p e => exact .fail hys

theorem Repeats.past {r : Rule α} (hr : r.Decides) {reply : Reply (List α)}
    (h : Repeats r s reply) {xs : List α} {rest : TokenStream} (hreply : reply = .accept xs rest) :
    ∃ n, s.Past n rest := by
  induction h generalizing xs rest with
  | stop hs =>
    obtain ⟨-, rfl⟩ := Reply.accept.inj hreply
    exact ⟨0, past_zero _⟩
  | fail hs => simp at hreply
  | @turn s s' x reply hs hlt hrest ih =>
    cases reply with
    | accept ys rest' =>
      obtain ⟨-, rfl⟩ := Reply.accept.inj hreply
      obtain ⟨m, -, hm⟩ := hr.accept hs
      obtain ⟨n, hn⟩ := ih rfl
      exact ⟨m + n, hm.trans hn⟩
    | decline p e => simp [Reply.map] at hreply
    | reject p e => simp [Reply.map] at hreply

theorem Repeats.reject {r : Rule α} (hr : r.Decides) {reply : Reply (List α)}
    (h : Repeats r s reply) {p : TokenStream} {e : Expected} (hreply : reply = .reject p e) :
    e ≠ .progress := by
  induction h with
  | stop hs => simp at hreply
  | fail hs =>
    obtain ⟨rfl, rfl⟩ := Reply.reject.inj hreply
    exact hr.reject hs
  | @turn s s' x reply hs hlt hrest ih =>
    refine ih ?_
    cases reply <;> simp_all [Reply.map]

theorem Decides.many {r : Rule α} (hr : r.Decides) : (many r).Continues :=
  ⟨firm_many hr.progresses, fun s _ _ h => (hr.repeats s).past hr h,
    fun s _ _ h => (hr.repeats s).reject hr h⟩

theorem Iterates.past {step : α → Rule α} (hstep : ∀ x, (step x).Decides) {x : α}
    {reply : Reply α} (h : Iterates step x s reply) {y : α} {rest : TokenStream}
    (hreply : reply = .accept y rest) : ∃ n, s.Past n rest := by
  induction h with
  | stop hs =>
    obtain ⟨-, rfl⟩ := Reply.accept.inj hreply
    exact ⟨0, past_zero _⟩
  | fail hs => simp at hreply
  | turn hs hlt hrest ih =>
    obtain ⟨m, -, hm⟩ := (hstep _).accept hs
    obtain ⟨n, hn⟩ := ih hreply
    exact ⟨m + n, hm.trans hn⟩

theorem Iterates.reject {step : α → Rule α} (hstep : ∀ x, (step x).Decides) {x : α}
    {reply : Reply α} (h : Iterates step x s reply) {p : TokenStream} {e : Expected}
    (hreply : reply = .reject p e) : e ≠ .progress := by
  induction h with
  | stop hs => simp at hreply
  | fail hs =>
    obtain ⟨rfl, rfl⟩ := Reply.reject.inj hreply
    exact (hstep _).reject hs
  | turn hs hlt hrest ih => exact ih hreply

theorem Decides.iterate {step : α → Rule α} (hstep : ∀ x, (step x).Decides)
    (hempty : ∀ x, (step x).DeclinesEmpty) (x : α) : (iterate step x).Continues :=
  ⟨firm_iterate step x, fun s _ _ h => (iterates hstep hempty x s).past hstep h,
    fun s _ _ h => (iterates hstep hempty x s).reject hstep h⟩

/-- A comma and what must stand behind it. -/
def behindComma (r : Rule α) (e : Expected) : Rule α := do
  let _ ← punctuator .comma
  r.required e

theorem Decides.behindComma {r : Rule α} (hr : r.Decides) {e : Expected} (he : e ≠ .progress) :
    (r.behindComma e).Decides :=
  (decides_punctuator .comma).bind fun _ => hr.required he

theorem Decides.commaList {r : Rule α} (hr : r.Decides) {e : Expected} (he : e ≠ .progress) :
    (commaList r e).Continues := by
  have hmore := hr.behindComma he
  rw [commaList_eq hmore.progresses]
  exact (hr.bind fun x => hmore.many.map (x :: ·)).orElse_continues (continues_pure [])

/-- A rule whose bound is the tokens ahead. -/
theorem Decides.bounded {w : List Token → Rule α} (h : ∀ bound, (w bound).Decides) :
    Decides fun s => w s.tokens s :=
  .of_eq fun s => ⟨w s.tokens, h _, rfl⟩

end Rule

end Sable
