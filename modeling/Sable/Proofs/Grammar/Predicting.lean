import Sable.Proofs.Grammar.Lookahead

/-!
# Types and expressions look one token ahead

Behind an expression or a type stands a token that closes it: none of these goes on with what is in
front of it. In front of such a token, an identifier completes whatever lacks an operand.

## Main definitions

* `TokenKind.closes`: tokens that go on with nothing in front of them.

## Main statements

* `Grammar.predictive_writtenType`, `Grammar.predictive_expression`: one token of lookahead.
* `Grammar.sampled_expression`: some expression.
-/
namespace Sable

open TokenStream Token Rule Phrases

/-- Behind an expression, a type or a list, such a token ends it, and nothing begins with it. -/
def TokenKind.closes : TokenKind → Bool
  | .punctuator .closeParen | .punctuator .closeBracket | .punctuator .closeBrace
  | .punctuator .openBrace | .punctuator .semicolon | .eof => true
  | _ => false

/-- What may stand behind an expression. -/
abbrev Closes (k : TokenKind) : Prop := k.closes = true

theorem BinaryOp.ofToken?_of_closes {k : TokenKind} (h : Closes k) : ofToken? k = none := by
  cases k with
  | punctuator p => cases p <;> first | rfl | simp [Closes, TokenKind.closes] at h
  | _ => rfl

theorem UnaryOp.ofToken?_of_closes {k : TokenKind} (h : Closes k) : ofToken? k = none := by
  cases k with
  | punctuator p => cases p <;> first | rfl | simp [Closes, TokenKind.closes] at h
  | _ => rfl

namespace Phrases

theorem nil_notMem_grouped {A : Phrases} (h : [] ∉ A) : [] ∉ grouped A := by
  intro hnil
  generalize hts : ([] : List Token) = ts at hnil
  cases hnil with
  | bare hmem => exact h (hts ▸ hmem)
  | pair => simp at hts

end Phrases

theorem Expr.nil_notMem_phrases (source : List Char) (e : Expr) : [] ∉ e.phrases source := by
  cases e with
  | value place v =>
    refine nil_notMem_grouped ?_
    cases v with
    | boolean b => cases b <;> exact nil_notMem_word _
    | null => exact nil_notMem_word _
    | _ => exact nil_notMem_one _
  | _ => exact nil_notMem_grouped (by simp [nil_mem_mul, nil_notMem_sign, nil_notMem_word])

theorem TokenStream.exists_cons_of_first? {s : TokenStream} {t : Token} {ts us : List Token}
    (ht : s.first? = some t) (htokens : s.tokens = ts ++ us) (hts : ts ≠ []) :
    ∃ ts', ts = t :: ts' := by
  obtain ⟨u, ts, rfl⟩ := List.exists_cons_of_ne_nil hts
  obtain rfl : u = t := by simpa [first?, htokens] using ht
  exact ⟨ts, rfl⟩

section

variable {α β : Type} {n : Nat} {first first' follow : TokenKind → Prop} {r : Rule α}
  {p : Punctuator} {f : α → Token → Rule β}

/-- A part that a punctuator closes, and what stands behind it. -/
theorem Rule.Predictive.closed (hr : r.Predictive n first Closes) (hp : Closes (.punctuator p))
    (hfirst : r.Progresses ∨ first (.punctuator p))
    (hf : ∀ x t, (f x t).Completable n first' follow)
    (hshrinks : ∀ x t, (f x t).Shrinks) : (do
      let x ← r
      let t ← expect p
      f x t : Rule β).Predictive n first follow :=
  hr.bind (fun x => (completable_expect p n).after (progresses_expect p) (hf x))
    (by rintro _ rfl; exact hp) (.inl fun x => (progresses_expect p).bind (hshrinks x))
    (hfirst.imp_right fun h => by rintro _ rfl; exact h)

theorem Rule.Completable.closed (hr : r.Completable n first Closes) (hp : Closes (.punctuator p))
    (hfirst : r.Progresses ∨ first (.punctuator p))
    (hf : ∀ x t, (f x t).Completable n first' follow)
    (hshrinks : ∀ x t, (f x t).Shrinks) : (do
      let x ← r
      let t ← expect p
      f x t : Rule β).Completable n first follow :=
  ⟨hr.predictive.closed hp hfirst hf hshrinks,
    hr.firm.bind fun x => (firm_expect p).bind fun t => (hf x t).firm,
    hr.sampled.bind (fun x => (completable_expect p n).sampled.bind (fun t => (hf x t).sampled)
      fun _ _ => trivial) (by rintro _ rfl; exact hp)⟩

end

namespace Grammar

variable {n : Nat} {K : TokenKind → Prop}

/-! ## Types -/

theorem completable_stars (n : Nat) : (many (punctuator .star)).Completable n Closes Closes :=
  ((predictive_punctuator .star n).many (progresses_punctuator _) (fun _ _ => trivial)
    (declinesOn_token (by decide))).mono (by simp) fun _ hk => hk

theorem completable_starred (n : Nat) (name : Ident) : (do
    let stars ← many (punctuator .star)
    return fun place => ⟨place, name, stars.length⟩ : Rule (Place → WrittenType)).Completable n
      Closes Closes :=
  (completable_stars n).bind (fun _ => completable_pure _) (fun _ hk => hk) (.inr fun _ hk => hk)
    (.inr fun _ hk => hk)

theorem progresses_starred : (do
    let name ← identifier
    let stars ← many (punctuator .star)
    return fun place => ⟨place, name, stars.length⟩ : Rule (Place → WrittenType)).Progresses :=
  progresses_identifier.bind fun _ =>
    (yields_many (yields_punctuator .star) fun _ _ => nil_notMem_sign _).shrinks.bind fun _ =>
    shrinks_pure _

theorem predictive_writtenType (n : Nat) : writtenType.Predictive n (fun _ => False) Closes :=
  Predictive.located ((predictive_identifier n).after progresses_identifier (completable_starred n))
    progresses_starred

theorem sampled_writtenType : writtenType.Sampled (· = .identifier) Closes :=
  Sampled.located (sampled_identifier.bind (fun name => (completable_starred 0 name).sampled)
    fun _ _ => trivial) progresses_starred

theorem progresses_writtenType : writtenType.Progresses := progresses_starred.located

/-- A rule that is required may begin with anything that it has a sample for. -/
theorem completable_required {α : Type} {r : Rule α} {first first' follow : TokenKind → Prop}
    (hr : r.Predictive n first follow) (hsampled : r.Sampled first' follow)
    (hfirst : ∀ k, first k → first' k) {e : Expected} (he : e ≠ .literal) :
    (r.required e).Completable n first' follow :=
  (hr.mono hfirst fun _ hk => hk).required hsampled he

theorem completable_writtenType {e : Expected} (he : e ≠ .literal) (n : Nat) :
    (writtenType.required e).Completable n (· = .identifier) Closes :=
  completable_required (predictive_writtenType n) sampled_writtenType (fun _ => False.elim) he

theorem predictive_annotatedType (n : Nat) :
    typeAnnotation.Predictive n (fun _ => False) Closes :=
  (predictive_punctuator _ n).after (progresses_punctuator _) fun _ =>
    completable_writtenType (by simp) n

theorem sampled_annotatedType : typeAnnotation.Sampled (· = .punctuator .colon) Closes :=
  (sampled_punctuator _).bind (fun _ => (completable_writtenType (by simp) 0).sampled)
    fun _ _ => trivial

theorem progresses_annotatedType : typeAnnotation.Progresses :=
  (progresses_punctuator _).bind fun _ => progresses_writtenType.shrinks.required _

theorem completable_annotatedType {e : Expected} (he : e ≠ .literal) (n : Nat) :
    ( typeAnnotation.required e).Completable n (· = .punctuator .colon) Closes :=
  completable_required (predictive_annotatedType n) sampled_annotatedType (fun _ => False.elim) he

/-! ## Values -/

theorem exists_takes_constant {s : TokenStream} {t : Token} (v : Value)
    (hfirst : s.first? = some t) (next : List Token → Prop) :
    ∃ e, (constant v).Takes s [t] e s.tail.drawId next := by
  have htakes : Takes (fun s => .accept (fun place => Expr.value place v) s.tail) s [t]
      (fun place => .value place v) s.tail next :=
    ⟨tail_start hfirst, fun us _ => congrArg _ (tail_facing hfirst us)⟩
  exact ⟨_, htakes.located (fun _ _ => by simp) []⟩

theorem predictive_variableName (n : Nat) :
    variableName.Predictive n (fun _ => False) fun _ => True :=
  .located ((predictive_identifier n).after progresses_identifier fun _ => completable_pure _)
    (progresses_identifier.bind fun _ => shrinks_pure _)

theorem sampled_variableName (follow : TokenKind → Prop) :
    variableName.Sampled (· = .identifier) follow :=
  .located (sampled_identifier.bind (fun _ => (completable_pure (n := 0) _).sampled)
    fun _ _ => trivial) (progresses_identifier.bind fun _ => shrinks_pure _)

/-- The rule of a value, by the token that it begins with. -/
def valueAt (nested : Rule Expr) (t : Token) : Rule Expr :=
  match t.kind with
  | .integerLiteral | .floatLiteral | .characterLiteral | .stringLiteral => literal t
  | .keyword .trueWord => constant (.boolean true)
  | .keyword .falseWord => constant (.boolean false)
  | .keyword .nullWord => constant .null
  | .identifier => variableName
  | .punctuator .openParen => grouped nested
  | _ => declines .expression

theorem value_eq {s : TokenStream} {t : Token} (hfirst : s.first? = some t) (nested : Rule Expr) :
    value nested s = valueAt nested t s := by
  obtain ⟨kind, span, text⟩ := t
  unfold value valueAt
  simp only [hfirst]
  cases kind with
  | keyword k => cases k <;> rfl
  | punctuator p => cases p <;> rfl
  | _ => rfl

theorem value_of_first?_eq_none {s : TokenStream} (hfirst : s.first? = none) (nested : Rule Expr) :
    value nested s = .decline s .expression := by
  simp [value, hfirst]

theorem sampled_value (nested : Rule Expr) (follow : TokenKind → Prop) :
    (value nested).Sampled (· = .identifier) follow := by
  intro s
  obtain ⟨c, e, q, hplain, hc, htakes⟩ := sampled_variableName follow s
  refine ⟨c, e, q, hplain, hc, htakes.start_eq, fun us hus => ?_⟩
  obtain ⟨t, hfirst, hkind⟩ := hc us hus
  rw [value_eq (s := s.facing (c ++ us)) hfirst, valueAt, hkind]
  exact htakes.accept us hus

theorem valueAt_cases (nested : Rule Expr) (t : Token) :
    (∃ v, valueAt nested t = constant v) ∨ (t.kind ≠ .eof ∧ valueAt nested t = literal t) ∨
      valueAt nested t = declines .expression ∨
      valueAt nested t = variableName ∨ valueAt nested t = grouped nested := by
  unfold valueAt
  split <;> simp_all

/-- How a value is read that begins with the token `t`. Only a literal may be rejected there. -/
theorem value_cases (nested : Rule Expr) (s : TokenStream) (t : Token) :
    (∃ v, ∀ us, value nested (s.facing (t :: us)) = constant v (s.facing (t :: us))) ∨
      (t.kind ≠ .eof ∧
        ∀ us, value nested (s.facing (t :: us)) = .reject (s.facing (t :: us)) .literal) ∨
      (∀ us, value nested (s.facing (t :: us)) = .decline (s.facing (t :: us)) .expression) ∨
      ∃ q ∈ [variableName, grouped nested],
        ∀ us, value nested (s.facing (t :: us)) = q (s.facing (t :: us)) := by
  have hvalue : ∀ us, value nested (s.facing (t :: us)) = valueAt nested t (s.facing (t :: us)) :=
    fun us => value_eq rfl nested
  rcases valueAt_cases nested t with ⟨v, hat⟩ | ⟨hkind, hat⟩ | hat | hat | hat
  all_goals rw [hat] at hvalue
  · exact .inl ⟨v, hvalue⟩
  · have hsame : ∀ us, literalValue? (s.facing (t :: us)) t = literalValue? s t := fun us => rfl
    cases hv : literalValue? s t with
    | some v => exact .inl ⟨v, fun us => by rw [hvalue, literal, hsame, hv]⟩
    | none => exact .inr (.inl ⟨hkind, fun us => by rw [hvalue, literal, hsame, hv]⟩)
  · exact .inr (.inr (.inl hvalue))
  · exact .inr (.inr (.inr ⟨_, by simp, hvalue⟩))
  · exact .inr (.inr (.inr ⟨_, by simp, hvalue⟩))

section

variable {nested : Rule Expr}
  (hyields : nested.Yields (fun e => [e.tree]) fun source e => e.phrases source)
  (hnested : nested.Predictive n (· = .identifier) Closes)
  (hsampled : nested.Sampled (· = .identifier) Closes)

include hyields hnested hsampled

theorem predictive_grouped : (grouped nested).Predictive (n + 1) (fun _ => False) fun _ => True :=
  .behind (predictive_punctuator _) (progresses_punctuator _) fun _ =>
    (hnested.required hsampled (by simp)).closed rfl
      (.inl ((hyields.progresses Expr.nil_notMem_phrases).required _)) 
      (fun _ _ => completable_pure _) fun _ _ => shrinks_pure _

theorem predictive_value : (value nested).Predictive (n + 1) (· = .identifier) fun _ => True := by
  have hrules : ∀ q ∈ [variableName, grouped nested],
      q.Progresses ∧ q.Predictive (n + 1) (fun _ => False) fun _ => True := by
    simp only [List.mem_cons, List.not_mem_nil, or_false, forall_eq_or_imp, forall_eq]
    exact ⟨⟨.located (progresses_identifier.bind fun _ => shrinks_pure _),
      predictive_variableName _⟩,
      (yields_grouped hyields).progresses Expr.nil_notMem_phrases,
      predictive_grouped hyields hnested hsampled⟩
  have hcons : ∀ {t : Token} {us : List Token}, us.head? = some t → ∃ ts, us = t :: ts :=
    fun h => ⟨_, List.eq_cons_of_mem_head? h⟩
  refine ⟨fun s x rest hs h => ?_, fun s p e hs h => ?_, fun s p e hs h => ?_⟩
  all_goals cases ht : s.first?
  case refine_1.none => simp [value_of_first?_eq_none ht] at h
  case refine_2.none =>
    rw [value_of_first?_eq_none ht] at h
    obtain ⟨rfl, rfl⟩ := Reply.decline.inj h
    exact ⟨rfl, by simp, fun us hus => value_of_first?_eq_none (s := s.facing us) (hus.trans ht) _⟩
  case refine_3.none => simp [value_of_first?_eq_none ht] at h
  all_goals
    rename_i t
    have hself : s.facing (t :: s.tail.tokens) = s := facing_eq (tokens_of_first? ht)
    rw [← hself] at h
  case refine_1.some =>
    rcases value_cases nested s t with ⟨v, hv⟩ | ⟨-, hv⟩ | hv | ⟨q, hq, hv⟩
    · obtain ⟨e, htakes⟩ := exists_takes_constant v ht fun _ => True
      obtain ⟨rfl, rfl⟩ := Reply.accept.inj
        ((htakes.accept s.tail.tokens trivial).symm.trans ((hv _).symm.trans h))
      exact ⟨[t], tokens_of_first? ht, htakes.start_eq,
        fun us _ => (hv us).trans (htakes.accept us trivial)⟩
    · simp [hv] at h
    · simp [hv] at h
    · obtain ⟨hprogress, hpredictive⟩ := hrules q hq
      rw [hv, hself] at h
      obtain ⟨ts, htokens, htakes⟩ := hpredictive.accept hs h
      obtain ⟨ts, rfl⟩ := exists_cons_of_first? ht htokens
        (htakes.ne_nil hprogress rest.tokens (.inl rfl))
      exact ⟨t :: ts, htokens, htakes.start_eq,
        fun us hus => (hv (ts ++ us)).trans (htakes.accept us hus)⟩
  case refine_2.some =>
    have hsame : ∀ us : List Token, us.head? = s.tokens.head? → ∃ us', us = t :: us' :=
      fun us hus => hcons (hus.trans ht)
    rcases value_cases nested s t with ⟨v, hv⟩ | ⟨-, hv⟩ | hv | ⟨q, hq, hv⟩
    · exact absurd (hv _ ▸ h) (firm_constant v _ _ _)
    · simp [hv] at h
    · rw [hv, hself] at h
      obtain ⟨rfl, rfl⟩ := Reply.decline.inj h
      refine ⟨rfl, by simp, fun us hus => ?_⟩
      obtain ⟨us, rfl⟩ := hsame us hus
      exact hv us
    · rw [hv, hself] at h
      obtain ⟨rfl, he, hdecline⟩ := (hrules q hq).2.decline hs h
      refine ⟨rfl, he, fun us hus => ?_⟩
      obtain ⟨us', rfl⟩ := hsame us hus
      exact (hv us').trans (hdecline _ hus)
  case refine_3.some =>
    rcases value_cases nested s t with ⟨v, hv⟩ | ⟨hkind, hv⟩ | hv | ⟨q, hq, hv⟩
    · exact absurd ((hv _).symm.trans h) (by simp [constant, located])
    · rw [hv, hself] at h
      obtain ⟨rfl, rfl⟩ := Reply.reject.inj h
      obtain ⟨c, x, q, hplain, hc, htakes⟩ :=
        sampled_value nested (fun _ => True) s
      refine ⟨[], rfl, fun _ => ⟨t, ht, hkind⟩, fun us hus => ?_, c, x, q, hplain,
        fun _ => hc, htakes⟩
      obtain ⟨us, rfl⟩ := hcons (hus.trans ht)
      exact hv us
    · simp [hv] at h
    · rw [hv, hself] at h
      obtain ⟨ts, htokens, hliteral, hreject, c, x, q', hplain, hc, htakes⟩ :=
        (hrules q hq).2.reject hs h
      have hts : ts ≠ [] := by
        intro hts
        obtain ⟨_, -, hfalse⟩ := hc hts [t] (heads_cons trivial [])
        exact hfalse
      obtain ⟨ts, rfl⟩ := exists_cons_of_first? ht htokens hts
      exact ⟨t :: ts, htokens, hliteral, fun us hus => (hv (ts ++ us)).trans (hreject us hus),
        c, x, q', hplain, fun hnil => absurd hnil (List.cons_ne_nil _ _), htakes.start_eq,
        fun us hus => by
          rw [List.cons_append, List.cons_append, hv]
          exact htakes.accept us hus⟩

end

/-! ## What follows an operand -/

theorem completable_placed {α : Type} (span : Span) (f : Place → α) (n : Nat) :
    (do let place ← numbered span; return f place : Rule α).Completable n K K :=
  (completable_numbered span).bind (fun _ => completable_pure _) (fun _ hk => hk)
    (.inr fun _ hk => hk) (.inr fun _ hk => hk)

theorem shrinks_placed {α : Type} (span : Span) (f : Place → α) :
    (do let place ← numbered span; return f place : Rule α).Shrinks :=
  (shrinks_numbered span).bind fun _ => shrinks_pure _

theorem predictive_access (kind : AccessKind) (object : Expr) (n : Nat) :
    (access kind object).Predictive n (fun _ => False) K :=
  (predictive_punctuator _ n).after (progresses_punctuator _) fun _ =>
    (completable_identifier (by simp) n).after (progresses_identifier.required _) fun _ =>
    completable_placed _ _ n

theorem predictive_cast (operand : Expr) (n : Nat) :
    (cast operand).Predictive n (fun _ => False) Closes :=
  (predictive_keyword _ n).after (progresses_keyword _) fun _ =>
    (completable_writtenType (by simp) n).bind (fun _ => completable_placed _ _ n) (fun _ hk => hk)
    (.inr fun _ hk => hk) (.inl (progresses_writtenType.required _))

section

variable {nested : Rule Expr}
  (hyields : nested.Yields (fun e => [e.tree]) fun source e => e.phrases source)
  (hnested : nested.Predictive n (· = .identifier) Closes)
  (hsampled : nested.Sampled (· = .identifier) Closes)
  (hdeclines : nested.DeclinesOn Closes)

include hyields

theorem progresses_nested : nested.Progresses := hyields.progresses Expr.nil_notMem_phrases

include hnested hsampled

theorem predictive_index (target : Expr) :
    (index nested target).Predictive (n + 1) (fun _ => False) K :=
  .behind (predictive_punctuator _) (progresses_punctuator _) fun _ =>
    (hnested.required hsampled (by simp)).closed rfl (.inl ((progresses_nested hyields).required _))
      (fun _ _ => completable_placed _ _ n) fun _ _ => shrinks_placed _ _

include hdeclines

theorem predictive_call (callee : Expr) :
    (call nested callee).Predictive (n + 1) (fun _ => False) K :=
  .behind (predictive_punctuator _) (progresses_punctuator _) fun _ =>
    (hnested.commaList hsampled (progresses_nested hyields) (by simp) (fun _ hk => hk) (by decide)
      hdeclines).closed rfl (.inr (.inr rfl)) (fun _ _ => completable_placed _ _ n)
      fun _ _ => shrinks_placed _ _

theorem predictive_suffix (operand : Expr) :
    (suffix nested operand).Predictive (n + 1) (fun _ => False) Closes := by
  have hindex := predictive_index hyields hnested hsampled (K := Closes) operand
  have hcast := predictive_cast operand (n + 1)
  have hcall := predictive_call hyields hnested hsampled hdeclines (K := Closes) operand
  have hprogress := progresses_index hyields.shrinks operand
  have hprogress' := (progresses_cast operand).orElse hprogress
  have hprogress'' := (progresses_call hyields operand).orElse hprogress'
  exact (predictive_access _ _ _).orElse_of_progresses
    ((predictive_access _ _ _).orElse_of_progresses
      (hcall.orElse_of_progresses (hcast.orElse_of_progresses hindex (declinesOn_false _) hprogress)
        (declinesOn_false _) hprogress')
      (declinesOn_false _) hprogress'')
    (declinesOn_false _) ((progresses_access _ _).orElse hprogress'')

omit hyields hnested hsampled hdeclines in
theorem declinesOn_suffix (operand : Expr) : (suffix nested operand).DeclinesOn Closes :=
  .orElse (.bind (declinesOn_token (by decide)) _) <|
    .orElse (.bind (declinesOn_token (by decide)) _) <|
    .orElse (.bind (declinesOn_token (by decide)) _) <|
    .orElse (.bind (declinesOn_token (by decide)) _) <|
    .bind (declinesOn_token (by decide)) _

theorem completable_suffixes (operand : Expr) :
    (iterate (suffix nested) operand).Completable (n + 1) Closes Closes :=
  (Predictive.iterate (predictive_suffix hyields hnested hsampled hdeclines)
    (progresses_suffix hyields) (declinesEmpty_suffix nested) (by simp) declinesOn_suffix
    operand).mono (by simp) fun _ hk => hk

theorem predictive_postfixed :
    (postfixed nested).Predictive (n + 1) (· = .identifier) Closes :=
  (predictive_value hyields hnested hsampled).after
    ((yields_value hyields).progresses Expr.nil_notMem_phrases)
    (completable_suffixes hyields hnested hsampled hdeclines)

end

section

variable {nested : Rule Expr}
  (hyields : nested.Yields (fun e => [e.tree]) fun source e => e.phrases source)

include hyields

theorem sampled_postfixed : (postfixed nested).Sampled (· = .identifier) Closes :=
  (sampled_value nested Closes).bind (sampled_iterate (progresses_suffix hyields)
    (declinesEmpty_suffix nested) declinesOn_suffix) fun _ hk => hk

theorem progresses_postfixed : (postfixed nested).Progresses :=
  (yields_postfixed hyields).progresses Expr.nil_notMem_phrases

end

/-! ## Operators -/

section

variable {operand : Rule Expr} (hprogress : operand.Progresses)
  (hoperand : operand.Predictive n (· = .identifier) Closes)
  (hsampled : operand.Sampled (· = .identifier) Closes)

theorem declinesOn_prefixed (operand : Rule Expr) :
    (prefixed operand).DeclinesOn (· = .identifier) :=
  .located (.bind (declinesOn_operator (by rintro _ rfl; rfl)) _)

theorem declinesOn_binaryRest (p : BinaryOp → Bool) (operand : Rule Expr) (left : Expr) :
    (binaryRest p operand left).DeclinesOn Closes :=
  .bind (declinesOn_operator fun _ hk => by rw [BinaryOp.ofToken?_of_closes hk]; rfl) _

include hprogress hoperand hsampled

theorem predictive_prefixed : (prefixed operand).Predictive (n + 1) (fun _ => False) Closes :=
  .located (.behind (predictive_operator _) (progresses_operator _) fun _ =>
      (hoperand.required hsampled (by simp)).bind (fun _ => completable_pure _) (fun _ hk => hk)
        (.inr fun _ hk => hk) (.inl (hprogress.required _)))
    ((progresses_operator _).bind fun _ => (hprogress.shrinks.required _).bind fun _ =>
      shrinks_pure _)

theorem predictive_binaryRest (p : BinaryOp → Bool) (left : Expr) :
    (binaryRest p operand left).Predictive (n + 1) (fun _ => False) Closes :=
  .behind (predictive_operator _) (progresses_operator _) fun _ =>
    (hoperand.required hsampled (by simp)).bind (fun _ => completable_placed _ _ n) (fun _ hk => hk)
      (.inr fun _ hk => hk) (.inl (hprogress.required _))

end

section

variable {nested : Rule Expr}
  (hyields : nested.Yields (fun e => [e.tree]) fun source e => e.phrases source)

include hyields

theorem sampled_unary : (unary nested).Sampled (· = .identifier) Closes := by
  rw [unary_eq hyields]
  exact (sampled_postfixed hyields).orElse (declinesOn_prefixed _)

theorem sampled_binaryWithin (levels : Nat) :
    (binaryWithin nested levels).Sampled (· = .identifier) Closes := by
  induction levels with
  | zero => exact sampled_unary hyields
  | succ levels ih =>
    exact ih.bind (sampled_iterate
      (progresses_binaryRest (yields_binaryWithin hyields levels).shrinks _)
      (declinesEmpty_binaryRest _ _) (declinesOn_binaryRest _ _)) fun _ hk => hk

theorem sampled_assignment : (assignment nested).Sampled (· = .identifier) Closes :=
  (sampled_binaryWithin hyields _).bind
    (fun left => (completable_pure (n := 0) left).sampled.orElse (declinesOn_binaryRest _ _ _))
    fun _ hk => hk

omit hyields in
theorem declinesOn_value : (value nested).DeclinesOn Closes := by
  rintro s ⟨t, ht, hk⟩
  refine ⟨.expression, ?_⟩
  rw [value_eq (s := s) ht]
  obtain ⟨kind, span, text⟩ := t
  cases kind with
  | punctuator p => cases p <;> first | rfl | simp [Closes, TokenKind.closes] at hk
  | eof => rfl
  | _ => simp [Closes, TokenKind.closes] at hk

theorem declinesOn_unary : (unary nested).DeclinesOn Closes := by
  rw [unary_eq hyields]
  exact .orElse (.located (.bind (declinesOn_operator fun _ => UnaryOp.ofToken?_of_closes) _))
    (declinesOn_value.bind _)

theorem declinesOn_assignment : (assignment nested).DeclinesOn Closes := by
  have hbinary : ∀ levels, (binaryWithin nested levels).DeclinesOn Closes := by
    intro levels
    induction levels with
    | zero => exact declinesOn_unary hyields
    | succ levels ih => exact ih.bind _
  exact (hbinary _).bind _

variable (hnested : nested.Predictive n (· = .identifier) Closes)
  (hsampled : nested.Sampled (· = .identifier) Closes)
  (hdeclines : nested.DeclinesOn Closes)

include hnested hsampled hdeclines

/-- Each prefix operator leaves fewer tokens ahead. -/
theorem predictive_unary : (unary nested).Predictive (n + 1) (· = .identifier) Closes := by
  have hpostfixed := predictive_postfixed hyields hnested hsampled hdeclines
  have hwithin : ∀ m ≤ n + 1, (unary nested).Predictive m (· = .identifier) Closes := by
    intro m hm
    induction m with
    | zero => exact .zero _
    | succ m ih =>
      have hprefixed := predictive_prefixed (progresses_nested (yields_binaryWithin hyields 0))
        (ih (by omega)) (sampled_unary hyields)
      rw [unary_eq hyields]
      exact hprefixed.orElse_of_progresses (hpostfixed.le hm) (declinesOn_prefixed _)
        (progresses_postfixed hyields)
  exact hwithin _ le_rfl

theorem predictive_binaryWithin (levels : Nat) :
    (binaryWithin nested levels).Predictive (n + 1) (· = .identifier) Closes := by
  induction levels with
  | zero => exact predictive_unary hyields hnested hsampled hdeclines
  | succ levels ih =>
    have hprogress := progresses_nested (yields_binaryWithin hyields levels)
    have hrests : ∀ left, (iterate (binaryRest (·.precedence == BinaryOp.maxPrecedence - levels)
        (binaryWithin nested levels)) left).Completable (n + 1) (fun k => False ∨ Closes k)
        Closes :=
      Predictive.iterate
        (fun left => (predictive_binaryRest hprogress ih (sampled_binaryWithin hyields levels) _
          left).le (Nat.le_succ _))
        (progresses_binaryRest hprogress.shrinks _) (declinesEmpty_binaryRest _ _) (by simp)
        (declinesOn_binaryRest _ _)
    exact ih.bind hrests (by simp) (.inr fun _ hk => hk) (.inl hprogress)

theorem predictive_assignment :
    (assignment nested).Predictive (n + 1) (· = .identifier) Closes := by
  have hrest : ∀ left, (binaryRest BinaryOp.isAssignment nested left <|> pure left).Completable
      (n + 1) (fun k => False ∨ Closes k) Closes := fun left =>
    ⟨(predictive_binaryRest (progresses_nested hyields) hnested hsampled _ left).orElse
        (completable_pure left).predictive (declinesOn_binaryRest _ _ _)
        (.inr (declinesOn_binaryRest _ _ _)),
      .orElse _ (firm_pure left),
      ((completable_pure (n := 0) left).sampled.orElse (declinesOn_binaryRest _ _ _)).mono
        (fun _ => .inr) fun _ hk => hk⟩
  exact (predictive_binaryWithin hyields hnested hsampled hdeclines _).bind hrest (by simp)
    (.inr fun _ hk => hk) (.inl (progresses_nested (yields_binaryWithin hyields _)))

end

theorem sampled_expression : expression.Sampled (· = .identifier) Closes := by
  rw [expression_eq]
  exact sampled_assignment yields_expression

theorem declinesOn_expression : expression.DeclinesOn Closes := by
  rw [expression_eq]
  exact declinesOn_assignment yields_expression

theorem predictive_expression (n : Nat) :
    expression.Predictive n (· = .identifier) Closes := by
  induction n with
  | zero => exact .zero _
  | succ n ih =>
    rw [expression_eq]
    exact predictive_assignment yields_expression ih sampled_expression declinesOn_expression

theorem completable_expression (n : Nat) :
    (expression.required .expression).Completable n (· = .identifier) Closes :=
  (predictive_expression n).required sampled_expression (by simp)

end Grammar

end Sable
