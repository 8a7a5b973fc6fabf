import Sable.Proofs.Grammar.Soundness

/-!
# Rules without bounds

Repetition and nesting are bounded by the tokens ahead. Each round and each level takes a token, so
any bound that is as long as the tokens ahead gives the same answer, and the rules obey the
equations of the grammar.

## Main definitions

* `Rule.Shrinks`: the rule goes forward, if only by nothing.
* `Rule.AgreeBelow`: two rules give the same answers where few tokens are ahead.

## Main statements

* `Rule.many_eq`, `Rule.iterate_eq`: one round, and then the repetition again.
* `Grammar.unary_eq`, `Grammar.expression_eq`, `Grammar.scope_eq`, `Grammar.branch_eq`,
  `Grammar.declarations_eq`: the rules that are nested in themselves.
-/
namespace Sable

open TokenStream

namespace Rule

variable {α β : Type} {s : TokenStream} {n : Nat}

/-! ## Going forward -/

/-- Where the rule accepts, no more tokens are ahead than before. -/
def Shrinks (r : Rule α) : Prop := ∀ ⦃s x rest⦄, r s = .accept x rest →
  s.start ≤ rest.start ∧ rest.tokens.length ≤ s.tokens.length

theorem Progresses.shrinks {r : Rule α} (h : r.Progresses) : r.Shrinks :=
  fun _ _ _ hx => ⟨(h hx).1.le, (h hx).2.le⟩

theorem Yields.shrinks {r : Rule α} {T : α → List Tree} {L : List Char → α → Phrases}
    (h : r.Yields T L) : r.Shrinks := by
  intro s x rest hx
  obtain ⟨ts, -, hadv⟩ := h.advances hx
  have hlen := congrArg List.length hadv.tokens_eq
  have hstart := hadv.start_eq
  rw [List.length_append] at hlen
  omega

theorem shrinks_pure (x : α) : (pure x : Rule α).Shrinks := by
  intro s y rest h
  obtain ⟨-, rfl⟩ := pure_eq_accept.1 h
  exact ⟨le_rfl, le_rfl⟩

theorem shrinks_numbered (span : Span) : (numbered span).Shrinks := by
  intro s place rest h
  obtain ⟨-, rfl⟩ := numbered_eq_accept.1 h
  exact ⟨le_rfl, le_rfl⟩

theorem Shrinks.bind {r : Rule α} {f : α → Rule β} (hr : r.Shrinks) (hf : ∀ x, (f x).Shrinks) :
    (r >>= f).Shrinks := by
  intro s y rest h
  obtain ⟨x, s', hx, hy⟩ := bind_eq_accept.1 h
  have hfirst := hr hx
  have hthen := hf x hy
  omega

theorem Shrinks.required {r : Rule α} (h : r.Shrinks) (e : Expected) : (r.required e).Shrinks :=
  fun _ _ _ hx => h (required_eq_accept.1 hx)

theorem Progresses.bind {r : Rule α} {f : α → Rule β} (hr : r.Progresses)
    (hf : ∀ x, (f x).Shrinks) : (r >>= f).Progresses := by
  intro s y rest h
  obtain ⟨x, s', hx, hy⟩ := bind_eq_accept.1 h
  have hfirst := hr hx
  have hthen := hf x hy
  omega

theorem Progresses.required {r : Rule α} (h : r.Progresses) (e : Expected) :
    (r.required e).Progresses :=
  fun _ _ _ hx => h (required_eq_accept.1 hx)

theorem map_apply (f : α → β) (r : Rule α) (s : TokenStream) : (f <$> r) s = (r s).map f := by
  change (r >>= fun x => pure (f x)) s = _
  simp only [Bind.bind, Reply.map]
  cases r s <;> rfl

theorem Progresses.map {r : Rule α} (h : r.Progresses) (f : α → β) : (f <$> r).Progresses :=
  h.bind fun _ => shrinks_pure _

theorem Progresses.orElse {r q : Rule α} (hr : r.Progresses) (hq : q.Progresses) :
    (r <|> q).Progresses := by
  intro s x rest h
  change Rule.orElse r (fun _ => q) s = _ at h
  unfold Rule.orElse at h
  split at h
  · have hlt := hq h
    exact hlt
  · exact hr h

theorem Progresses.located {r : Rule (Place → α)} (h : r.Progresses) : (located r).Progresses := by
  intro s x rest hx
  obtain ⟨build, s', hbuild, -, rfl⟩ := located_eq_accept.1 hx
  have hlt := h hbuild
  exact hlt

theorem progresses_token (kind : TokenKind) : (token kind).Progresses := by
  intro s t rest h
  obtain ⟨hfirst, -, rfl⟩ := token_eq_accept.1 h
  rw [tail_start hfirst, tokens_of_first? hfirst]
  exact ⟨Nat.lt_succ_self _, by simp⟩

theorem progresses_keyword (k : Keyword) : (keyword k).Progresses := progresses_token _

theorem progresses_punctuator (p : Punctuator) : (punctuator p).Progresses := progresses_token _

theorem progresses_expect (p : Punctuator) : (expect p).Progresses :=
  (progresses_punctuator p).required _

theorem progresses_identifier : identifier.Progresses := by
  intro s name rest h
  obtain ⟨hfirst, rfl⟩ := identifier_eq_accept.1 h
  rw [tail_start hfirst, tokens_of_first? hfirst]
  exact ⟨Nat.lt_succ_self _, by simp⟩

theorem progresses_operator {Op : Type} (ofToken? : TokenKind → Option Op) :
    (operator ofToken?).Progresses := by
  intro s op rest h
  obtain ⟨t, hfirst, -, rfl⟩ := operator_eq_accept.1 h
  rw [tail_start hfirst, tokens_of_first? hfirst]
  exact ⟨Nat.lt_succ_self _, by simp⟩

/-- The rule declines where nothing is left to read. -/
def DeclinesEmpty (r : Rule α) : Prop :=
  ∀ s : TokenStream, s.tokens = [] → ∃ e, r s = .decline s e

theorem declinesEmpty_token (kind : TokenKind) : (token kind).DeclinesEmpty :=
  fun s hs => ⟨.token kind, by simp [token, first?, hs]⟩

theorem declinesEmpty_operator {Op : Type} (ofToken? : TokenKind → Option Op) :
    (operator ofToken?).DeclinesEmpty :=
  fun s hs => ⟨.expression, by simp [operator, firstKind?, first?, hs]⟩

theorem DeclinesEmpty.bind {r : Rule α} (h : r.DeclinesEmpty) (f : α → Rule β) :
    (r >>= f).DeclinesEmpty := by
  intro s hs
  obtain ⟨e, he⟩ := h s hs
  exact ⟨e, by rw [bind_apply, he]⟩

theorem DeclinesEmpty.orElse {r q : Rule α} (hr : r.DeclinesEmpty) (hq : q.DeclinesEmpty) :
    (r <|> q).DeclinesEmpty := by
  intro s hs
  obtain ⟨d, hd⟩ := hr s hs
  obtain ⟨e, he⟩ := hq s hs
  refine ⟨e, ?_⟩
  change Rule.orElse r (fun _ => q) s = _
  simp only [Rule.orElse, hd, backTo_eq, he]

theorem DeclinesEmpty.located {r : Rule (Place → α)} (h : r.DeclinesEmpty) :
    (located r).DeclinesEmpty := by
  intro s hs
  obtain ⟨e, he⟩ := h s hs
  exact ⟨e, by rw [Rule.located, he]⟩

/-! ## Agreement -/

/-- The rules give the same answers where fewer than `n` tokens are ahead. -/
def AgreeBelow (n : Nat) (r r' : Rule α) : Prop := ∀ s, s.tokens.length < n → r s = r' s

namespace AgreeBelow

variable {r r' q q' : Rule α} {f f' : α → Rule β}

theorem refl (r : Rule α) : AgreeBelow n r r := fun _ _ => rfl

theorem mono {m : Nat} (h : AgreeBelow n r r') (hm : m ≤ n) : AgreeBelow m r r' :=
  fun s hs => h s (by omega)

theorem bind (hr : AgreeBelow n r r') (hshrinks : r.Shrinks) (hf : ∀ x, AgreeBelow n (f x) (f' x)) :
    AgreeBelow n (r >>= f) (r' >>= f') := by
  intro s hs
  rw [bind_apply, bind_apply, ← hr s hs]
  cases hx : r s with
  | accept x rest => exact hf x rest (by have := hshrinks hx; omega)
  | decline p e => rfl
  | reject p e => rfl

/-- Behind a token, there are fewer tokens to agree on. -/
theorem behind (hprogress : r.Progresses) (hf : ∀ x, AgreeBelow n (f x) (f' x)) :
    AgreeBelow (n + 1) (r >>= f) (r >>= f') := by
  intro s hs
  rw [bind_apply, bind_apply]
  cases hx : r s with
  | accept x rest => exact hf x rest (by have := hprogress hx; omega)
  | decline p e => rfl
  | reject p e => rfl

theorem map (h : AgreeBelow n r r') (f : α → β) : AgreeBelow n (f <$> r) (f <$> r') := by
  intro s hs
  rw [map_apply, map_apply, h s hs]

theorem orElse (hr : AgreeBelow n r r') (hq : AgreeBelow n q q') :
    AgreeBelow n (r <|> q) (r' <|> q') := by
  intro s hs
  change Rule.orElse r (fun _ => q) s = Rule.orElse r' (fun _ => q') s
  unfold Rule.orElse
  rw [← hr s hs]
  split
  · exact hq _ hs
  · rfl

theorem optional (h : AgreeBelow n r r') : AgreeBelow n (optional r) (Rule.optional r') := by
  intro s hs
  unfold Rule.optional
  rw [h s hs]

theorem required (h : AgreeBelow n r r') (e : Expected) :
    AgreeBelow n (r.required e) (r'.required e) := by
  intro s hs
  unfold Rule.required
  rw [h s hs]

theorem located {r r' : Rule (Place → α)} (h : AgreeBelow n r r') :
    AgreeBelow n (Rule.located r) (Rule.located r') := by
  intro s hs
  unfold Rule.located
  rw [h s hs]

/-! ## Repetition -/

theorem manyWithin (h : AgreeBelow n r r') (hr : r.Progresses) (bound bound' : List Token)
    (hs : s.tokens.length < n) (hbound : s.tokens.length ≤ bound.length)
    (hbound' : s.tokens.length ≤ bound'.length) :
    Rule.manyWithin r bound s = Rule.manyWithin r' bound' s := by
  have hempty : ∀ x rest, s.tokens.length ≤ 0 → r s ≠ .accept x rest := by
    intro x rest hzero hx
    have := hr hx
    omega
  induction bound generalizing bound' s with
  | nil =>
    have hzero : s.tokens.length ≤ 0 := hbound
    cases bound' with
    | nil => simp only [Rule.manyWithin, ← h s hs]
    | cons t' bound' =>
      simp only [Rule.manyWithin, ← h s hs]
      cases hx : r s with
      | accept x rest => exact absurd hx (hempty x rest hzero)
      | decline p e => rfl
      | reject p e => rfl
  | cons t bound ih =>
    cases bound' with
    | nil =>
      have hzero : s.tokens.length ≤ 0 := hbound'
      simp only [Rule.manyWithin, ← h s hs]
      cases hx : r s with
      | accept x rest => exact absurd hx (hempty x rest hzero)
      | decline p e => rfl
      | reject p e => rfl
    | cons t' bound' =>
      simp only [Rule.manyWithin, ← h s hs]
      cases hx : r s with
      | accept x rest =>
        have hlt := (hr hx).2
        simp only [List.length_cons] at hbound hbound'
        simp only
        rw [ih bound' (by omega) (by omega) (by omega) fun y rest' hzero hy => by
          have := hr hy
          omega]
      | decline p e => rfl
      | reject p e => rfl

theorem many (h : AgreeBelow n r r') (hr : r.Progresses) : AgreeBelow n (many r) (Rule.many r') :=
  fun _ hs => h.manyWithin hr _ _ hs le_rfl le_rfl

theorem commaList (h : AgreeBelow n r r') (hr : r.Shrinks) (e : Expected) :
    AgreeBelow n (commaList r e) (Rule.commaList r' e) := by
  intro s hs
  unfold Rule.commaList
  rw [← h s hs]
  cases hx : r s with
  | accept x rest =>
    have hle := (hr hx).2
    have hrest : AgreeBelow n (do let _ ← punctuator .comma; r.required e : Rule α)
        (do let _ ← punctuator .comma; r'.required e) :=
      (behind (progresses_punctuator _) fun _ => h.required e).mono (Nat.le_succ n)
    simp only
    rw [hrest.many ((progresses_punctuator _).bind fun _ => hr.required e) rest (by omega)]
  | decline p d => rfl
  | reject p d => rfl

theorem iterateWithin {step step' : α → Rule α} (h : ∀ x, AgreeBelow n (step x) (step' x))
    (hprogress : ∀ x, (step x).Progresses) (hempty : ∀ x, (step x).DeclinesEmpty) {x : α}
    (bound bound' : List Token) (hs : s.tokens.length < n) (hbound : s.tokens.length ≤ bound.length)
    (hbound' : s.tokens.length ≤ bound'.length) :
    Rule.iterateWithin step bound x s = Rule.iterateWithin step' bound' x s := by
  induction bound generalizing bound' s x with
  | nil =>
    have hnil : s.tokens = [] := by simpa using hbound
    obtain ⟨e, he⟩ := hempty x s hnil
    cases bound' with
    | nil => rfl
    | cons t' bound' =>
      simp only [Rule.iterateWithin, ← h x s hs, he]
      rfl
  | cons t bound ih =>
    cases bound' with
    | nil =>
      have hnil : s.tokens = [] := by simpa using hbound'
      obtain ⟨e, he⟩ := hempty x s hnil
      simp only [Rule.iterateWithin, he]
      exact congrArg _ (backTo_eq rfl)
    | cons t' bound' =>
      simp only [Rule.iterateWithin, ← h x s hs]
      cases hy : step x s with
      | accept y rest =>
        have hlt := (hprogress x hy).2
        simp only [List.length_cons] at hbound hbound'
        exact ih bound' (by omega) (by omega) (by omega)
      | decline p e => rfl
      | reject p e => rfl

theorem iterate {step step' : α → Rule α} (h : ∀ x, AgreeBelow n (step x) (step' x))
    (hprogress : ∀ x, (step x).Progresses) (hempty : ∀ x, (step x).DeclinesEmpty) (x : α) :
    AgreeBelow n (Rule.iterate step x) (Rule.iterate step' x) :=
  fun _ hs => iterateWithin h hprogress hempty _ _ hs le_rfl le_rfl

end AgreeBelow

theorem Firm.map {r : Rule α} (h : r.Firm) (f : α → β) : (f <$> r).Firm :=
  h.bind fun x => firm_pure (f x)

/-- A rule, and what it makes of the reply; nothing where it declines. -/
theorem bind_orElse_pure {r : Rule α} {f : α → Rule β} (hf : ∀ x, (f x).Firm) (y : β)
    (s : TokenStream) : ((r >>= f) <|> pure y) s = match r s with
      | .accept x rest => f x rest
      | .decline p _ => .accept y (p.backTo s)
      | .reject p e => .reject p e := by
  change Rule.orElse (r >>= f) (fun _ => pure y) s = _
  simp only [Rule.orElse, Bind.bind]
  cases hx : r s with
  | accept x rest =>
    simp only
    split
    · next p e hp => exact absurd hp (hf x rest p e)
    · rfl
  | decline p e => rfl
  | reject p e => rfl

/-- One element and the repetition again, or nothing. -/
theorem many_eq {r : Rule α} (hr : r.Progresses) :
    many r = ((do let x ← r; (x :: ·) <$> many r) <|> pure []) := by
  funext s
  rw [bind_orElse_pure fun x => (firm_many hr).map (x :: ·)]
  unfold many
  cases htokens : s.tokens with
  | nil =>
    simp only [manyWithin]
    cases hx : r s with
    | accept x rest =>
      have hlt := (hr hx).2
      simp [htokens] at hlt
    | decline p e => rfl
    | reject p e => rfl
  | cons t bound =>
    simp only [manyWithin]
    cases hx : r s with
    | accept x rest =>
      obtain ⟨hstart, hlt⟩ := hr hx
      rw [htokens, List.length_cons] at hlt
      simp only
      rw [if_neg (by omega), (AgreeBelow.refl r).manyWithin hr bound rest.tokens
        (Nat.lt_succ_self _) (by omega) le_rfl]
      exact (map_apply (x :: ·) (many r) rest).symm
    | decline p e => rfl
    | reject p e => rfl

/-- One step and the iteration again, or nothing. -/
theorem iterate_eq {step : α → Rule α} (hprogress : ∀ x, (step x).Progresses)
    (hempty : ∀ x, (step x).DeclinesEmpty) (x : α) :
    iterate step x = ((do let y ← step x; iterate step y) <|> pure x) := by
  funext s
  rw [bind_orElse_pure fun y => firm_iterate step y]
  unfold iterate
  cases htokens : s.tokens with
  | nil =>
    obtain ⟨e, he⟩ := hempty x s htokens
    simp only [iterateWithin, he]
    rfl
  | cons t bound =>
    simp only [iterateWithin]
    cases hy : step x s with
    | accept y rest =>
      have hlt := (hprogress x hy).2
      rw [htokens, List.length_cons] at hlt
      exact AgreeBelow.iterateWithin (fun x => .refl (step x)) hprogress hempty bound rest.tokens
        (Nat.lt_succ_self _) (by omega) le_rfl
    | decline p e => rfl
    | reject p e => rfl

/-- An element and those behind commas, or nothing. -/
theorem commaList_eq {element : Rule α} {e : Expected}
    (h : (do let _ ← punctuator .comma; element.required e : Rule α).Progresses) :
    commaList element e = ((do
      let x ← element
      (x :: ·) <$> many (do let _ ← punctuator .comma; element.required e)) <|> pure []) := by
  funext s
  rw [bind_orElse_pure fun x => (firm_many h).map (x :: ·)]
  unfold commaList
  cases element s <;> simp only [map_apply]

end Rule

namespace Grammar

open Rule

/-! ## Expressions -/

section

variable {nested nested' : Rule Expr} {n : Nat}

theorem progresses_access (kind : AccessKind) (object : Expr) :
    (access kind object).Progresses :=
  (progresses_punctuator _).bind fun _ => (progresses_identifier.required _).shrinks.bind fun _ =>
    (shrinks_numbered _).bind fun _ => shrinks_pure _

theorem progresses_call {nested : Rule Expr}
    (hnested : nested.Yields (fun e => [e.tree]) fun source e => e.phrases source) (callee : Expr) :
    (call nested callee).Progresses :=
  (progresses_punctuator _).bind fun _ => (yields_commaList hnested).shrinks.bind fun _ =>
    (progresses_expect _).shrinks.bind fun _ => (shrinks_numbered _).bind fun _ => shrinks_pure _

theorem progresses_cast (operand : Expr) : (cast operand).Progresses :=
  (progresses_keyword _).bind fun _ => (yields_writtenType.shrinks.required _).bind fun _ =>
    (shrinks_numbered _).bind fun _ => shrinks_pure _

theorem progresses_index (hnested : nested.Shrinks) (target : Expr) :
    (index nested target).Progresses :=
  (progresses_punctuator _).bind fun _ => (hnested.required _).bind fun _ =>
    (progresses_expect _).shrinks.bind fun _ => (shrinks_numbered _).bind fun _ => shrinks_pure _

theorem progresses_suffix
    (hnested : nested.Yields (fun e => [e.tree]) fun source e => e.phrases source)
    (operand : Expr) : (suffix nested operand).Progresses :=
  (progresses_access _ _).orElse <| (progresses_access _ _).orElse <|
    (progresses_call hnested _).orElse <| (progresses_cast _).orElse <|
    progresses_index hnested.shrinks _

theorem declinesEmpty_suffix (nested : Rule Expr) (operand : Expr) :
    (suffix nested operand).DeclinesEmpty :=
  .orElse (.bind (declinesEmpty_token _) _) <| .orElse (.bind (declinesEmpty_token _) _) <|
    .orElse (.bind (declinesEmpty_token _) _) <| .orElse (.bind (declinesEmpty_token _) _) <|
    .bind (declinesEmpty_token _) _

theorem progresses_binaryRest {operand : Rule Expr} (hoperand : operand.Shrinks)
    (p : BinaryOp → Bool) (left : Expr) : (binaryRest p operand left).Progresses :=
  (progresses_operator _).bind fun _ => (hoperand.required _).bind fun _ =>
    (shrinks_numbered _).bind fun _ => shrinks_pure _

theorem declinesEmpty_binaryRest (p : BinaryOp → Bool) (operand : Rule Expr) (left : Expr) :
    (binaryRest p operand left).DeclinesEmpty :=
  .bind (declinesEmpty_operator _) _

theorem agreeBelow_binaryRest {operand operand' : Rule Expr} (h : AgreeBelow n operand operand')
    (hshrinks : operand.Shrinks) (p : BinaryOp → Bool) (left : Expr) :
    AgreeBelow (n + 1) (binaryRest p operand left) (binaryRest p operand' left) :=
  .behind (progresses_operator _) fun _ =>
    (h.required _).bind (hshrinks.required _) fun _ => .refl _

/-- A prefix operator and its operand. -/
def prefixed (operand : Rule Expr) : Rule Expr := located do
  let op ← operator UnaryOp.ofToken?
  let e ← operand.required .expression
  return fun place => .unary place op e

theorem declinesEmpty_prefixed (operand : Rule Expr) : (prefixed operand).DeclinesEmpty :=
  .located <| .bind (declinesEmpty_operator _) _

theorem agreeBelow_prefixed {operand operand' : Rule Expr} (h : AgreeBelow n operand operand')
    (hshrinks : operand.Shrinks) : AgreeBelow (n + 1) (prefixed operand) (prefixed operand') :=
  .located <| .behind (progresses_operator _) fun _ =>
    (h.required _).bind (hshrinks.required _) fun _ => .refl _

section

variable (hnested : nested.Yields (fun e => [e.tree]) fun source e => e.phrases source)
  (h : AgreeBelow n nested nested')

include hnested h

theorem agreeBelow_suffix (operand : Expr) :
    AgreeBelow (n + 1) (suffix nested operand) (suffix nested' operand) := by
  refine .orElse (.refl _) <| .orElse (.refl _) <| .orElse ?_ <| .orElse (.refl _) ?_
  · exact .behind (progresses_punctuator _) fun _ =>
      (h.commaList hnested.shrinks _).bind (yields_commaList hnested).shrinks fun _ => .refl _
  · exact .behind (progresses_punctuator _) fun _ =>
      (h.required _).bind (hnested.shrinks.required _) fun _ => .refl _

theorem agreeBelow_value : AgreeBelow (n + 1) (value nested) (value nested') := by
  have hgrouped : AgreeBelow (n + 1) (grouped nested) (grouped nested') :=
    .behind (progresses_punctuator _) fun _ =>
      (h.required _).bind (hnested.shrinks.required _) fun _ => .refl _
  intro s hs
  unfold value
  split
  · rfl
  · split <;> first | rfl | exact hgrouped s hs

theorem agreeBelow_postfixed : AgreeBelow (n + 1) (postfixed nested) (postfixed nested') :=
  (agreeBelow_value hnested h).bind (yields_value hnested).shrinks fun operand =>
    .iterate (agreeBelow_suffix hnested h) (progresses_suffix hnested)
      (declinesEmpty_suffix nested) operand

omit hnested h in
theorem unaryWithin_of_tokens_eq_nil {s : TokenStream} (hs : s.tokens = []) (bound : List Token) :
    unaryWithin nested bound s = postfixed nested s := by
  cases bound with
  | nil => rfl
  | cons t bound =>
    obtain ⟨e, he⟩ := declinesEmpty_prefixed (unaryWithin nested bound) s hs
    change orElse (prefixed _) (fun _ => postfixed nested) s = _
    simp only [orElse, he, backTo_eq]

theorem unaryWithin_congr (bound bound' : List Token) {s : TokenStream}
    (hs : s.tokens.length < n + 1) (hbound : s.tokens.length ≤ bound.length)
    (hbound' : s.tokens.length ≤ bound'.length) :
    unaryWithin nested bound s = unaryWithin nested' bound' s := by
  have hpostfixed := agreeBelow_postfixed hnested h
  induction bound generalizing bound' s with
  | nil =>
    have hnil : s.tokens = [] := by simpa using hbound
    rw [unaryWithin_of_tokens_eq_nil hnil, unaryWithin_of_tokens_eq_nil hnil]
    exact hpostfixed s hs
  | cons t bound ih =>
    cases bound' with
    | nil =>
      have hnil : s.tokens = [] := by simpa using hbound'
      rw [unaryWithin_of_tokens_eq_nil hnil, unaryWithin_of_tokens_eq_nil hnil]
      exact hpostfixed s hs
    | cons t' bound' =>
      simp only [List.length_cons] at hbound hbound'
      have hunary : AgreeBelow s.tokens.length (unaryWithin nested bound)
          (unaryWithin nested' bound') :=
        fun s' hs' => ih bound' (by omega) (by omega) (by omega)
      exact (agreeBelow_prefixed hunary (yields_unaryWithin hnested bound).shrinks).orElse
        (hpostfixed.mono hs) s (Nat.lt_succ_self _)

theorem agreeBelow_unary : AgreeBelow (n + 1) (unary nested) (unary nested') :=
  fun _ hs => unaryWithin_congr hnested h _ _ hs le_rfl le_rfl

theorem agreeBelow_binaryWithin (levels : Nat) :
    AgreeBelow (n + 1) (binaryWithin nested levels) (binaryWithin nested' levels) := by
  induction levels with
  | zero => exact agreeBelow_unary hnested h
  | succ levels ih =>
    have hshrinks := (yields_binaryWithin hnested levels).shrinks
    refine ih.bind hshrinks fun left => .iterate (fun left => ?_)
      (progresses_binaryRest hshrinks _) (declinesEmpty_binaryRest _ _) left
    exact agreeBelow_binaryRest (ih.mono (Nat.le_succ n)) hshrinks _ left

theorem agreeBelow_assignment : AgreeBelow (n + 1) (assignment nested) (assignment nested') :=
  (agreeBelow_binaryWithin hnested h _).bind (yields_binaryWithin hnested _).shrinks fun left =>
    (agreeBelow_binaryRest h hnested.shrinks _ left).orElse (.refl _)

end

end

/-- Prefix operators, or none, in front of an operand. -/
theorem unary_eq (hnested : nested.Yields (fun e => [e.tree]) fun source e => e.phrases source) :
    unary nested = (prefixed (unary nested) <|> postfixed nested) := by
  funext s
  cases htokens : s.tokens with
  | nil =>
    obtain ⟨e, he⟩ := declinesEmpty_prefixed (unary nested) s htokens
    change unaryWithin nested s.tokens s = orElse (prefixed _) (fun _ => postfixed nested) s
    rw [unaryWithin_of_tokens_eq_nil htokens]
    simp only [orElse, he, backTo_eq]
  | cons t bound =>
    have hunary : AgreeBelow (bound.length + 1) (unaryWithin nested bound) (unary nested) :=
      fun s' hs' => unaryWithin_congr hnested (.refl nested) _ _ hs' (by omega) le_rfl
    have hlen : s.tokens.length = bound.length + 1 := by rw [htokens, List.length_cons]
    change unaryWithin nested s.tokens s = _
    rw [htokens]
    exact (agreeBelow_prefixed hunary (yields_unaryWithin hnested bound).shrinks).orElse
      (.refl _) s (by omega)

theorem assignment_of_tokens_eq_nil {s : TokenStream} (hs : s.tokens = []) (nested : Rule Expr) :
    assignment nested s = .decline s .expression := by
  have hvalue : value nested s = .decline s .expression := by
    simp [value, first?, hs]
  have hpostfixed : postfixed nested s = .decline s .expression := by
    simp only [postfixed, bind, hvalue]
  have hbinary : ∀ levels, binaryWithin nested levels s = .decline s .expression := by
    intro levels
    induction levels with
    | zero =>
      change unaryWithin nested s.tokens s = _
      rw [unaryWithin_of_tokens_eq_nil hs, hpostfixed]
    | succ levels ih => simp only [binaryWithin, bind, ih]
  simp only [assignment, bind, binary, hbinary]

theorem expressionWithin_congr (bound bound' : List Token) {s : TokenStream}
    (hbound : s.tokens.length ≤ bound.length) (hbound' : s.tokens.length ≤ bound'.length) :
    expressionWithin bound s = expressionWithin bound' s := by
  have hnil : ∀ bound : List Token, s.tokens = [] →
      expressionWithin bound s = .decline s .expression := by
    intro bound hs
    cases bound with
    | nil => rfl
    | cons t bound => exact assignment_of_tokens_eq_nil hs _
  induction bound generalizing bound' s with
  | nil =>
    have hs : s.tokens = [] := by simpa using hbound
    rw [hnil _ hs, hnil _ hs]
  | cons t bound ih =>
    cases bound' with
    | nil =>
      have hs : s.tokens = [] := by simpa using hbound'
      rw [hnil _ hs, hnil _ hs]
    | cons t' bound' =>
      simp only [List.length_cons] at hbound hbound'
      have hnested : AgreeBelow s.tokens.length (expressionWithin bound)
          (expressionWithin bound') := by
        intro s' hs'
        exact ih bound' (by omega) (by omega) fun bound hs => by
          cases bound with
          | nil => rfl
          | cons t bound => exact assignment_of_tokens_eq_nil hs _
      exact agreeBelow_assignment (yields_expressionWithin bound) hnested s (Nat.lt_succ_self _)

/-- Expressions are nested in one another without a bound. -/
theorem expression_eq : expression = assignment expression := by
  funext s
  cases htokens : s.tokens with
  | nil =>
    rw [assignment_of_tokens_eq_nil htokens]
    change expressionWithin s.tokens s = _
    rw [htokens]
    rfl
  | cons t bound =>
    have hnested : AgreeBelow (bound.length + 1) (expressionWithin bound) expression :=
      fun s' hs' => expressionWithin_congr _ _ (by omega) le_rfl
    have hlen : s.tokens.length = bound.length + 1 := by rw [htokens, List.length_cons]
    change expressionWithin s.tokens s = _
    rw [htokens]
    exact agreeBelow_assignment (yields_expressionWithin bound) hnested s (by omega)

/-! ## Statements -/

section

variable {scope scope' : Rule Scope} {branch branch' : Rule Branch}
  (hyields : scope.Yields (fun b => [b.tree]) fun source b => b.phrases source)
  (hyields' : branch.Yields (fun b => [b.tree]) fun source b => b.phrases source)
  (hscope : AgreeBelow n scope scope') (hbranch : AgreeBelow n branch branch')

include hyields hscope

theorem agreeBelow_whileStmt : AgreeBelow (n + 1) (whileStmt scope) (whileStmt scope') :=
  .located <| .behind (progresses_keyword _) fun _ =>
    (AgreeBelow.refl _).bind yields_condition.shrinks fun _ =>
    (hscope.required _).bind (hyields.shrinks.required _) fun _ => .refl _

theorem agreeBelow_forStmt : AgreeBelow (n + 1) (forStmt scope) (forStmt scope') :=
  .located <| .behind (progresses_keyword _) fun _ =>
    (AgreeBelow.refl _).bind (progresses_expect _).shrinks fun _ =>
    (AgreeBelow.refl _).bind yields_forInit.shrinks fun _ =>
    (AgreeBelow.refl _).bind (progresses_expect _).shrinks fun _ =>
    (AgreeBelow.refl _).bind yields_expression.optional.shrinks fun _ =>
    (AgreeBelow.refl _).bind (progresses_expect _).shrinks fun _ =>
    (AgreeBelow.refl _).bind yields_expression.optional.shrinks fun _ =>
    (AgreeBelow.refl _).bind (progresses_expect _).shrinks fun _ =>
    (hscope.required _).bind (hyields.shrinks.required _) fun _ => .refl _

include hbranch

theorem agreeBelow_statementOf :
    AgreeBelow n (statementOf scope branch) (statementOf scope' branch') :=
  .orElse (hbranch.map _) <|
    .orElse ((agreeBelow_whileStmt hyields hscope).mono (Nat.le_succ n)) <|
    .orElse ((agreeBelow_forStmt hyields hscope).mono (Nat.le_succ n)) (.refl _)

include hyields'

theorem agreeBelow_branchOf :
    AgreeBelow (n + 1) (branchOf scope branch) (branchOf scope' branch') := by
  have hotherwise : AgreeBelow (n + 1) (otherwise scope branch) (otherwise scope' branch') :=
    .behind (progresses_keyword _) fun _ => ((hbranch.map _).orElse (hscope.map _)).required _
  exact .located <| .behind (progresses_keyword _) fun _ =>
    (AgreeBelow.refl _).bind yields_condition.shrinks fun _ =>
    (hscope.required _).bind (hyields.shrinks.required _) fun _ =>
    (hotherwise.mono (Nat.le_succ n)).optional.bind
      (yields_otherwise hyields hyields').optional.shrinks fun _ => .refl _

theorem agreeBelow_scopeOf : AgreeBelow (n + 1) (scopeOf (statementOf scope branch))
    (scopeOf (statementOf scope' branch')) := by
  have hstatement := yields_statementOf hyields hyields'
  exact .located <| .behind (progresses_punctuator _) fun _ =>
    ((agreeBelow_statementOf hyields hscope hbranch).many
      (hstatement.progresses nil_notMem_statement)).bind
      (yields_many hstatement nil_notMem_statement).shrinks fun _ => .refl _

end

theorem scopeOf_of_tokens_eq_nil {s : TokenStream} (hs : s.tokens = []) (statement : Rule Stmt) :
    scopeOf statement s = .decline s (.token (.punctuator .openBrace)) := by
  simp [scopeOf, located, bind, punctuator, token, first?, hs]

theorem branchOf_of_tokens_eq_nil {s : TokenStream} (hs : s.tokens = []) (scope : Rule Scope)
    (branch : Rule Branch) : branchOf scope branch s = .decline s (.token (.keyword .ifWord)) := by
  simp [branchOf, located, bind, keyword, token, first?, hs]

theorem scopeWithin_of_tokens_eq_nil {s : TokenStream} (hs : s.tokens = []) (bound : List Token) :
    scopeWithin bound s = .decline s (.token (.punctuator .openBrace)) := by
  cases bound with
  | nil => rfl
  | cons t bound => exact scopeOf_of_tokens_eq_nil hs _

theorem branchWithin_of_tokens_eq_nil {s : TokenStream} (hs : s.tokens = []) (bound : List Token) :
    branchWithin bound s = .decline s (.token (.keyword .ifWord)) := by
  cases bound with
  | nil => rfl
  | cons t bound => exact branchOf_of_tokens_eq_nil hs _ _

theorem scopeWithin_branchWithin_congr (bound bound' : List Token) {s : TokenStream}
    (hbound : s.tokens.length ≤ bound.length) (hbound' : s.tokens.length ≤ bound'.length) :
    scopeWithin bound s = scopeWithin bound' s ∧ branchWithin bound s = branchWithin bound' s := by
  rcases Nat.eq_zero_or_pos s.tokens.length with hzero | hpos
  · have hs := List.length_eq_zero_iff.1 hzero
    simp only [scopeWithin_of_tokens_eq_nil hs, branchWithin_of_tokens_eq_nil hs, and_self]
  · induction bound generalizing bound' s with
    | nil => exact absurd hpos (Nat.not_lt.2 hbound)
    | cons t bound ih =>
      cases bound' with
      | nil => exact absurd hpos (Nat.not_lt.2 hbound')
      | cons t' bound' =>
        simp only [List.length_cons] at hbound hbound'
        have hnested : ∀ s' : TokenStream, s'.tokens.length < s.tokens.length →
            scopeWithin bound s' = scopeWithin bound' s' ∧
              branchWithin bound s' = branchWithin bound' s' := by
          intro s' hs'
          rcases Nat.eq_zero_or_pos s'.tokens.length with hzero | hpos'
          · have hs' := List.length_eq_zero_iff.1 hzero
            simp only [scopeWithin_of_tokens_eq_nil hs', branchWithin_of_tokens_eq_nil hs',
              and_self]
          · exact ih bound' (by omega) (by omega) hpos'
        obtain ⟨hyields, hyields'⟩ := yields_scopeWithin_branchWithin bound
        have hscope : AgreeBelow s.tokens.length (scopeWithin bound) (scopeWithin bound') :=
          fun s' hs' => (hnested s' hs').1
        have hbranch : AgreeBelow s.tokens.length (branchWithin bound) (branchWithin bound') :=
          fun s' hs' => (hnested s' hs').2
        exact ⟨agreeBelow_scopeOf hyields hyields' hscope hbranch s (Nat.lt_succ_self _),
          agreeBelow_branchOf hyields hyields' hscope hbranch s (Nat.lt_succ_self _)⟩

theorem agreeBelow_scopeWithin (bound : List Token) :
    AgreeBelow (bound.length + 1) (scopeWithin bound) scope :=
  fun _ hs => (scopeWithin_branchWithin_congr _ _ (by omega) le_rfl).1

theorem agreeBelow_branchWithin (bound : List Token) :
    AgreeBelow (bound.length + 1) (branchWithin bound) branch :=
  fun _ hs => (scopeWithin_branchWithin_congr _ _ (by omega) le_rfl).2

/-- Scopes and conditions are nested in one another without a bound. -/
theorem scope_eq : scope = scopeOf statement := by
  funext s
  cases htokens : s.tokens with
  | nil =>
    rw [scopeOf_of_tokens_eq_nil htokens]
    exact scopeWithin_of_tokens_eq_nil htokens _
  | cons t bound =>
    obtain ⟨hyields, hyields'⟩ := yields_scopeWithin_branchWithin bound
    change scopeWithin s.tokens s = _
    rw [htokens]
    refine agreeBelow_scopeOf hyields hyields' (agreeBelow_scopeWithin bound)
      (agreeBelow_branchWithin bound) s ?_
    rw [htokens]
    exact Nat.lt_succ_self _

theorem branch_eq : branch = branchOf scope branch := by
  funext s
  cases htokens : s.tokens with
  | nil =>
    rw [branchOf_of_tokens_eq_nil htokens]
    exact branchWithin_of_tokens_eq_nil htokens _
  | cons t bound =>
    obtain ⟨hyields, hyields'⟩ := yields_scopeWithin_branchWithin bound
    change branchWithin s.tokens s = _
    rw [htokens]
    refine agreeBelow_branchOf hyields hyields' (agreeBelow_scopeWithin bound)
      (agreeBelow_branchWithin bound) s ?_
    rw [htokens]
    exact Nat.lt_succ_self _

/-! ## Declarations -/

/-- Declarations up to the end of the input, as many as there are. -/
def declarations : Rule (List Declaration) := fun s => declarationsWithin s.tokens s

theorem atEnd_of_tokens_eq_nil {s : TokenStream} (hs : s.tokens = []) : s.atEnd := by
  simp [atEnd, firstKind?, first?, hs]

theorem progresses_declaration : declaration.Progresses :=
  yields_declaration.progresses nil_notMem_declaration

theorem declarationsWithin_of_atEnd {s : TokenStream} (hs : s.atEnd) (bound : List Token) :
    declarationsWithin bound s = .accept [] s := by
  cases bound with
  | nil => rfl
  | cons t bound => simp [declarationsWithin, hs]

theorem declarationsWithin_congr (bound bound' : List Token) {s : TokenStream}
    (hbound : s.tokens.length ≤ bound.length) (hbound' : s.tokens.length ≤ bound'.length) :
    declarationsWithin bound s = declarationsWithin bound' s := by
  induction bound generalizing bound' s with
  | nil =>
    have hs := atEnd_of_tokens_eq_nil (s := s) (by simpa using hbound)
    rw [declarationsWithin_of_atEnd hs, declarationsWithin_of_atEnd hs]
  | cons t bound ih =>
    cases bound' with
    | nil =>
      have hs := atEnd_of_tokens_eq_nil (s := s) (by simpa using hbound')
      rw [declarationsWithin_of_atEnd hs, declarationsWithin_of_atEnd hs]
    | cons t' bound' =>
      simp only [declarationsWithin]
      split
      · rfl
      · cases hd : (declaration.required .declaration) s with
        | accept d rest =>
          have hlt := (progresses_declaration.required _ hd).2
          simp only [List.length_cons] at hbound hbound'
          simp only
          rw [ih bound' (by omega) (by omega)]
        | decline p e => rfl
        | reject p e => rfl

/-- Nothing, where nothing is left to read. -/
def noDeclarations : Rule (List Declaration) := fun s =>
  if s.atEnd then .accept [] s else .decline s .declaration

theorem declarations_eq : declarations = (noDeclarations <|> do
    let d ← declaration.required .declaration
    (d :: ·) <$> declarations) := by
  funext s
  by_cases hs : s.atEnd
  · have hnone : noDeclarations s = .accept [] s := if_pos hs
    rw [orElse_accept_left hnone]
    exact declarationsWithin_of_atEnd hs _
  · have hnone : noDeclarations s = .decline s .declaration := if_neg hs
    change _ = Rule.orElse noDeclarations _ s
    simp only [Rule.orElse, hnone, backTo_eq]
    unfold declarations
    cases htokens : s.tokens with
    | nil => exact absurd (atEnd_of_tokens_eq_nil htokens) hs
    | cons t bound =>
      simp only [declarationsWithin, if_neg hs, Bind.bind]
      cases hd : (declaration.required .declaration) s with
      | accept d rest =>
        have hlt := (progresses_declaration.required _ hd).2
        rw [htokens, List.length_cons] at hlt
        simp only
        rw [declarationsWithin_congr bound rest.tokens (by omega) le_rfl]
        exact (map_apply (d :: ·) declarations rest).symm
      | decline p e => rfl
      | reject p e => rfl

theorem declarations_of_atEnd {s : TokenStream} (hs : s.atEnd) : declarations s = .accept [] s :=
  declarationsWithin_of_atEnd hs _

theorem declarations_of_not_atEnd {s : TokenStream} (hs : s.atEnd = false) : declarations s = (do
    let d ← declaration.required .declaration
    (d :: ·) <$> declarations : Rule (List Declaration)) s := by
  have hnone : noDeclarations s = .decline s .declaration := if_neg (by simp [hs])
  have hdeclarations := congrFun declarations_eq s
  change _ = Rule.orElse noDeclarations _ s at hdeclarations
  simpa only [Rule.orElse, hnone, TokenStream.backTo_eq] using hdeclarations

theorem shrinks_declarations : declarations.Shrinks := by
  intro s ds rest h
  obtain ⟨⟨ts, -, hadv⟩, -⟩ := declarationsWithin_phrases h le_rfl
  have hlen := congrArg List.length hadv.tokens_eq
  have hstart := hadv.start_eq
  rw [List.length_append] at hlen
  omega

theorem firm_declarations : declarations.Firm := by
  have hwithin : ∀ bound : List Token, Rule.Firm (declarationsWithin bound) := by
    intro bound
    induction bound with
    | nil => exact firm_pure []
    | cons t bound ih =>
      intro s p e h
      simp only [declarationsWithin] at h
      split at h
      · simp at h
      · cases hd : (declaration.required .declaration) s with
        | accept d rest =>
          rw [hd] at h
          exact ih.map (d :: ·) rest p e ((map_apply _ _ rest).trans h)
        | decline p' e' => exact firm_required _ _ s p' e' hd
        | reject p' e' => simp [hd] at h
  exact fun s => hwithin s.tokens s

end Grammar

end Sable
