import Sable.Proofs.Grammar.Accepting

/-!
# Numbers are drawn last

A rule that declines has drawn no number. For a sequence this holds if only its first part may
decline, so the other parts have to accept or to reject.

## Main definitions

* `Rule.Firm`: the rule never declines.

## Main statements

* `Rule.Frugal.bind`, `Rule.Frugal.orElse`, `Rule.Frugal.located`: rules that draw no number where
  they decline.
* `Rule.firm_required`, `Rule.firm_optional`, `Rule.firm_iterate`: rules that never decline.
* `Rule.firm_many`: a repetition never declines if its element reads a token each time.
-/
namespace Sable.Rule

variable {α β : Type} {s p : TokenStream} {d : Expected}

/-- The rule accepts or rejects. -/
def Firm (r : Rule α) : Prop := ∀ s p e, r s ≠ .decline p e

theorem Firm.frugal {r : Rule α} (h : r.Firm) : r.Frugal :=
  fun s p e hp => absurd hp (h s p e)

/-! ## Sequence and choice -/

theorem bind_eq_decline {r : Rule α} {f : α → Rule β} (h : (r >>= f) s = .decline p d) :
    r s = .decline p d ∨ ∃ x s', r s = .accept x s' ∧ f x s' = .decline p d := by
  rw [bind_apply] at h
  cases hr : r s with
  | accept x s' =>
    rw [hr] at h
    exact .inr ⟨x, s', rfl, h⟩
  | decline p' d' =>
    left
    simpa [hr] using h
  | reject p' d' => simp [hr] at h

theorem Frugal.bind {r : Rule α} {f : α → Rule β} (hr : r.Frugal) (hf : ∀ x, (f x).Firm) :
    (r >>= f).Frugal := by
  intro s p d h
  rcases bind_eq_decline h with h | ⟨x, s', -, h⟩
  · exact hr h
  · exact absurd h (hf x s' p d)

theorem Firm.bind {r : Rule α} {f : α → Rule β} (hr : r.Firm) (hf : ∀ x, (f x).Firm) :
    (r >>= f).Firm := by
  intro s p d h
  rcases bind_eq_decline h with h | ⟨x, s', -, h⟩
  · exact hr s p d h
  · exact hf x s' p d h

theorem firm_pure (x : α) : (pure x : Rule α).Firm := by
  intro s p d h
  change Reply.accept x s = .decline p d at h
  simp at h

theorem Frugal.map {r : Rule α} (hr : r.Frugal) (f : α → β) : (f <$> r).Frugal :=
  hr.bind fun x => firm_pure (f x)

theorem frugal_declines (e : Expected) : (declines e : Rule α).Frugal := by
  intro s p d h
  obtain ⟨rfl, -⟩ := Reply.decline.inj h
  rfl

theorem orElse_eq_decline {r q : Rule α} (h : (r <|> q) s = .decline p d) :
    ∃ p' d', r s = .decline p' d' ∧ q (p'.backTo s) = .decline p d := by
  change orElse r (fun _ => q) s = _ at h
  unfold orElse at h
  split at h
  · next p' d' hp => exact ⟨p', d', hp, h⟩
  · next hr => exact absurd h (hr p d)

theorem Frugal.orElse {r q : Rule α} (hr : r.Frugal) (hq : q.Frugal) : (r <|> q).Frugal := by
  intro s p d h
  obtain ⟨p', d', hp, h⟩ := orElse_eq_decline h
  rw [hq h, TokenStream.backTo_nextId, hr hp]

theorem Firm.orElse (r : Rule α) {q : Rule α} (hq : q.Firm) : (r <|> q).Firm := by
  intro s p d h
  obtain ⟨p', d', -, h⟩ := orElse_eq_decline h
  exact hq _ p d h

theorem firm_optional (r : Rule α) : (optional r).Firm := by
  intro s p d
  unfold optional
  split <;> simp

theorem firm_required (r : Rule α) (e : Expected) : (r.required e).Firm := by
  intro s p d
  unfold required
  split
  · simp
  · next hr => exact hr p d

/-! ## Tokens and nodes -/

theorem frugal_token (kind : TokenKind) : (token kind).Frugal := by
  intro s p d h
  unfold token at h
  split at h
  · split at h
    · simp at h
    · obtain ⟨rfl, -⟩ := Reply.decline.inj h
      rfl
  · obtain ⟨rfl, -⟩ := Reply.decline.inj h
    rfl

theorem frugal_keyword (k : Keyword) : (keyword k).Frugal := frugal_token _

theorem frugal_punctuator (p : Punctuator) : (punctuator p).Frugal := frugal_token _

theorem firm_expect (p : Punctuator) : (expect p).Firm := firm_required _ _

theorem frugal_identifier : identifier.Frugal := by
  intro s p d h
  unfold identifier at h
  split at h
  · simp at h
  · obtain ⟨rfl, -⟩ := Reply.decline.inj h
    rfl

theorem frugal_operator {Op : Type} (ofToken? : TokenKind → Option Op) :
    (operator ofToken?).Frugal := by
  intro s p d h
  unfold operator at h
  split at h
  · simp at h
  · obtain ⟨rfl, -⟩ := Reply.decline.inj h
    rfl

theorem firm_numbered (span : Span) : (numbered span).Firm := by
  intro s p d
  simp [numbered]

theorem located_eq_decline {r : Rule (Place → α)} (h : located r s = .decline p d) :
    r s = .decline p d := by
  unfold located at h
  cases hr : r s <;> simp_all

theorem Frugal.located {r : Rule (Place → α)} (hr : r.Frugal) : (located r).Frugal :=
  fun _ _ _ h => hr (located_eq_decline h)

theorem Firm.located {r : Rule (Place → α)} (hr : r.Firm) : (located r).Firm :=
  fun s p d h => hr s p d (located_eq_decline h)

/-! ## Repetition -/

theorem firm_iterate (step : α → Rule α) (x : α) : (iterate step x).Firm := by
  intro s p d
  unfold iterate
  generalize s.tokens = bound
  induction bound generalizing x s with
  | nil => exact firm_pure x s p d
  | cons _ bound ih =>
    simp only [iterateWithin]
    split
    · exact ih _ _
    · simp
    · simp

/-- The rule reads at least one token where it accepts. -/
def Progresses (r : Rule α) : Prop := ∀ ⦃s x rest⦄, r s = .accept x rest →
  s.start < rest.start ∧ rest.tokens.length < s.tokens.length

theorem firm_many {r : Rule α} (hr : r.Progresses) : (many r).Firm := by
  intro s p d
  unfold many
  generalize hbound : s.tokens = bound
  replace hbound : s.tokens.length ≤ bound.length := hbound ▸ Nat.le_refl _
  induction bound generalizing s p d with
  | nil =>
    simp only [manyWithin]
    split
    · next x rest hx =>
      have hlt := (hr hx).2
      simp only [List.length_nil] at hbound
      omega
    · simp
    · simp
  | cons t bound ih =>
    simp only [manyWithin]
    split
    · next x rest hx =>
      obtain ⟨hstart, hlt⟩ := hr hx
      rw [if_neg (by omega)]
      simp only [List.length_cons] at hbound
      cases hm : manyWithin r bound rest with
      | accept xs s' => simp [Reply.map]
      | decline p' d' => exact absurd hm (ih rest p' d' (by omega))
      | reject p' d' => simp [Reply.map]
    · simp
    · simp

theorem firm_commaList {element : Rule α} {e : Expected}
    (h : (do let _ ← punctuator .comma; element.required e : Rule α).Progresses) :
    (commaList element e).Firm := by
  intro s p d
  unfold commaList
  split
  · next x rest _ =>
    cases hm : many (do let _ ← punctuator .comma; element.required e) rest with
    | accept xs s' => simp [Reply.map]
    | decline p' d' => exact absurd hm (firm_many h rest p' d')
    | reject p' d' => simp [Reply.map]
  · simp
  · simp

end Sable.Rule
