import Mathlib.Algebra.BigOperators.Group.List.Defs
import Sable.Grammar.Parse
import Sable.Proofs.Grammar.Reading

/-!
# The grammar reads trees off their tokens

Rule by rule, what is accepted has been read as one of its phrases. So a parse neither loses nor
invents a token, whatever was tried in between.

## Main statements

* `Grammar.yields_expression`, `Grammar.yields_scope`, `Grammar.yields_declaration`: the rules.
* `parse_phrases`: the tokens up to the end of input are a phrase of the parsed tree.
-/
namespace Sable

open TokenStream Phrases Rule

theorem BinaryOp.eq_punctuator_of_ofToken? {kind : TokenKind} {op : BinaryOp}
    (h : ofToken? kind = some op) : kind = .punctuator op.punctuator := by
  cases kind with
  | punctuator p =>
    rw [ofToken?] at h
    have hp := List.find?_some h
    rw [eq_of_beq hp]
  | _ => simp [ofToken?] at h

theorem UnaryOp.eq_punctuator_of_ofToken? {kind : TokenKind} {op : UnaryOp}
    (h : ofToken? kind = some op) : kind = .punctuator op.punctuator := by
  cases kind with
  | punctuator p =>
    rw [ofToken?] at h
    have hp := List.find?_some h
    rw [eq_of_beq hp]
  | _ => simp [ofToken?] at h

namespace Grammar

/-- A sign that must stand here is read as it stands. -/
theorem advances_of_expect {p : Punctuator} {s rest : TokenStream} {t : Token}
    (h : expect p s = .accept t rest) : t.kind = .punctuator p ∧ s.Advances [t] [] rest := by
  obtain ⟨hfirst, hkind, rfl⟩ := token_eq_accept.1 (required_eq_accept.1 h)
  exact ⟨hkind, advances_tail hfirst (by rw [hkind]; exact ⟨by simp, by simp⟩)⟩

/-! ## Types -/

theorem yields_writtenType : writtenType.Yields (fun t => [t.tree]) fun _ => WrittenType.phrases := by
  have hmany := yields_many (yields_punctuator .star) fun _ _ => nil_notMem_sign _
  have hfirm := (yields_punctuator .star).firm_many fun _ _ => nil_notMem_sign _
  refine ⟨fun s x rest h => ?_,
    .located <| frugal_identifier.bind fun _ => hfirm.bind fun _ => firm_pure _⟩
  simp only [writtenType, located_eq_accept, bind_eq_accept, pure_eq_accept] at h
  obtain ⟨build, s', ⟨name, s₁, hname, stars, s₂, hstars, rfl, rfl⟩, rfl, rfl⟩ := h
  obtain ⟨ts, hts, hadv⟩ := yields_identifier.advances hname
  obtain ⟨us, hus, hadv⟩ := hmany.append hadv hstars
  have hnone : stars.flatMap (fun _ => ([] : List Tree)) = [] :=
    List.flatMap_eq_nil_iff.2 fun _ _ => rfl
  refine ⟨ts ++ us, ?_, ?_⟩
  · simpa [WrittenType.phrases, List.prod_replicate] using mem_mul hts hus
  · rw [hnone] at hadv
    obtain ⟨t, rfl, rfl⟩ := hts
    refine hadv.close_plain rfl ?_ (by simp)
    simp [Head.names]

theorem yields_annotatedType :
    typeAnnotation.Yields (fun t => [t.tree]) fun _ t => sign .colon * t.phrases :=
  yields_behindSign _ yields_writtenType

/-! ## Values -/

theorem kind_ne_identifier {source : List Char} {t : Token} {v : Value}
    (hv : ∀ name, v ≠ .identifier name) (h : [t] ∈ v.phrases source) : t.kind ≠ .identifier := by
  have hone : ∀ {p : Token → Prop}, [t] ∈ one p → p t := by
    rintro p ⟨u, hu, hp⟩
    rwa [List.singleton_inj.1 hu]
  cases v with
  | identifier name => exact absurd rfl (hv name)
  | integer | float | character | string =>
    rw [(hone h).1]
    simp
  | null =>
    rw [hone h]
    simp
  | boolean value =>
    cases value <;>
    · rw [hone h]
      simp

/-- A constant reads one token. -/
theorem yields_constant {s rest : TokenStream} {t : Token} {v : Value} {e : Expr}
    (h : constant v s = .accept e rest) (ht : s.first? = some t) (hkind : t.kind.IsMeaningful)
    (hv : ∀ name, v ≠ .identifier name) (hphrase : [t] ∈ v.phrases s.source) :
    ∃ ts ∈ e.phrases s.source, s.Advances ts [e.tree] rest := by
  obtain ⟨build, s', hbuild, rfl, rfl⟩ := located_eq_accept.1 h
  obtain ⟨rfl, rfl⟩ := Reply.accept.inj hbuild
  have hadv := advances_tail ht hkind
  refine ⟨[t], mem_grouped hphrase, hadv.close ?_ (fun _ => ?_) (hadv.nests_located (by simp))⟩
  · intro name hname
    cases v with
    | identifier name' => exact absurd rfl (hv name')
    | _ => simp [Head.names] at hname
  · exact ⟨[t], .refl _, hadv.encloses (by simp), fun _ =>
      ⟨t, List.mem_cons_self, kind_ne_identifier hv hphrase⟩⟩

theorem firm_constant (v : Value) : (constant v).Firm :=
  Firm.located fun s p d => by simp

theorem mem_phrases_of_literalValue? {s : TokenStream} {t : Token} {v : Value}
    (h : literalValue? s t = some v) : [t] ∈ v.phrases s.source := by
  unfold literalValue? at h
  split at h
  · next hkind =>
    simp only [hkind, numberValue?, Option.map_eq_some_iff] at h
    obtain ⟨n, hn, rfl⟩ := h
    exact mem_one ⟨hkind, hn⟩
  · next hkind =>
    simp only [hkind, numberValue?, Option.map_eq_some_iff] at h
    obtain ⟨x, hx, rfl⟩ := h
    refine mem_one ⟨hkind, _, ?_, hx⟩
    split
    · next hf =>
      exact .inr (List.dropLast_append_getLast? _ hf).symm
    · next hf => exact .inl ⟨rfl, hf⟩
  · next hkind =>
    obtain ⟨text, htext, rfl⟩ := Option.map_eq_some_iff.1 h
    exact mem_one ⟨hkind, htext⟩
  · next hkind =>
    obtain ⟨text, htext, rfl⟩ := Option.map_eq_some_iff.1 h
    exact mem_one ⟨hkind, htext⟩
  · simp at h

theorem ne_identifier_of_literalValue? {s : TokenStream} {t : Token} {v : Value}
    (h : literalValue? s t = some v) (name : Ident) : v ≠ .identifier name := by
  rintro rfl
  obtain ⟨u, hu, rfl⟩ := mem_phrases_of_literalValue? h
  obtain rfl : t = name.token := by simpa using hu
  simp [literalValue?, Ident.token] at h

theorem yields_literal {s rest : TokenStream} {t : Token} {e : Expr}
    (h : literal t s = .accept e rest) (ht : s.first? = some t) (hkind : t.kind.IsMeaningful) :
    ∃ ts ∈ e.phrases s.source, s.Advances ts [e.tree] rest := by
  unfold literal at h
  split at h
  · next v hv =>
    exact yields_constant h ht hkind (ne_identifier_of_literalValue? hv)
      (mem_phrases_of_literalValue? hv)
  · simp at h

theorem firm_literal (t : Token) : (literal t).Firm := by
  intro s p d
  unfold literal
  split
  · exact firm_constant _ s p d
  · simp

theorem yields_variableName :
    variableName.Yields (fun e => [e.tree]) fun source e => e.phrases source := by
  refine ⟨fun s e rest h => ?_, .located <| frugal_identifier.bind fun _ => firm_pure _⟩
  simp only [variableName, located_eq_accept, bind_eq_accept, pure_eq_accept] at h
  obtain ⟨build, s', ⟨name, s₁, hname, rfl, rfl⟩, rfl, rfl⟩ := h
  obtain ⟨ts, hts, hadv⟩ := yields_identifier.advances hname
  refine ⟨ts, mem_grouped hts, ?_⟩
  obtain ⟨t, rfl, rfl⟩ := hts
  exact hadv.close (by simp [Head.names]) (fun _ =>
    ⟨_, .refl _, hadv.encloses (by simp), by simp [Head.isBuiltin]⟩) (hadv.nests_located (by simp))

/-! ## Expressions -/

theorem mem_phrases_of_pair {source : List Char} {e : Expr} {ts us vs : List Token}
    (hts : ts ∈ sign .openParen) (hus : us ∈ e.phrases source) (hvs : vs ∈ sign .closeParen) :
    ts ++ us ++ vs ∈ e.phrases source := by
  obtain ⟨t, rfl, ht⟩ := hts
  obtain ⟨u, rfl, hu⟩ := hvs
  cases e <;> exact .pair hus ht hu

section

variable {nested : Rule Expr}
  (hnested : nested.Yields (fun e => [e.tree]) fun source e => e.phrases source)

include hnested

theorem yields_grouped : (grouped nested).Yields (fun e => [e.tree])
    fun source e => e.phrases source := by
  refine ⟨fun s e rest h => ?_,
    (frugal_punctuator _).bind fun _ => (firm_required _ _).bind fun _ => (firm_expect _).bind fun
    _ => firm_pure _⟩
  simp only [grouped, bind_eq_accept, required_eq_accept, pure_eq_accept] at h
  obtain ⟨t, s₁, ht, e', s₂, he, u, s₃, hu, rfl, rfl⟩ := h
  obtain ⟨ts, hts, hadv⟩ := (yields_punctuator _).advances ht
  obtain ⟨us, hus, hadv⟩ := hnested.append hadv he
  obtain ⟨vs, hvs, hadv⟩ := (yields_expect _).append hadv hu
  exact ⟨_, mem_phrases_of_pair hts hus hvs, by simpa using hadv⟩

theorem frugal_value : (value nested).Frugal := by
  intro s p d h
  unfold value at h
  split at h
  · obtain ⟨rfl, -⟩ := Reply.decline.inj h
    rfl
  · split at h
    · exact absurd h (firm_literal _ s p d)
    · exact absurd h (firm_literal _ s p d)
    · exact absurd h (firm_literal _ s p d)
    · exact absurd h (firm_literal _ s p d)
    · exact absurd h (firm_constant _ s p d)
    · exact absurd h (firm_constant _ s p d)
    · exact absurd h (firm_constant _ s p d)
    · exact yields_variableName.frugal h
    · exact (yields_grouped hnested).frugal h
    · obtain ⟨rfl, -⟩ := Reply.decline.inj h
      rfl

theorem yields_value : (value nested).Yields (fun e => [e.tree])
    fun source e => e.phrases source := by
  refine ⟨fun s e rest h => ?_, frugal_value hnested⟩
  unfold value at h
  split at h
  · simp at h
  · next t ht =>
    split at h
    · next hkind => exact yields_literal h ht (by simp [hkind, TokenKind.IsMeaningful])
    · next hkind => exact yields_literal h ht (by simp [hkind, TokenKind.IsMeaningful])
    · next hkind => exact yields_literal h ht (by simp [hkind, TokenKind.IsMeaningful])
    · next hkind => exact yields_literal h ht (by simp [hkind, TokenKind.IsMeaningful])
    · next hkind =>
      exact yields_constant h ht (by simp [hkind, TokenKind.IsMeaningful]) (by simp)
        (mem_one hkind)
    · next hkind =>
      exact yields_constant h ht (by simp [hkind, TokenKind.IsMeaningful]) (by simp)
        (mem_one hkind)
    · next hkind =>
      exact yields_constant h ht (by simp [hkind, TokenKind.IsMeaningful]) (by simp)
        (mem_one hkind)
    · exact yields_variableName.advances h
    · exact (yields_grouped hnested).advances h
    · simp at h

/-! ## What follows an operand -/

omit hnested in
theorem extends_access (kind : AccessKind) :
    Extends (access kind) (fun e => [e.tree]) fun source e => e.phrases source := by
  refine ⟨fun s ts object s' e rest hts hadv h => ?_, fun _ =>
    (frugal_punctuator _).bind fun _ => (firm_required _ _).bind fun _ => (firm_numbered _).bind
    fun _ => firm_pure _⟩
  simp only [access, bind_eq_accept, required_eq_accept, numbered_eq_accept, pure_eq_accept] at h
  obtain ⟨t, s₁, ht, member, s₂, hmember, place, s₃, ⟨rfl, rfl⟩, rfl, rfl⟩ := h
  obtain ⟨ws, hws, hencloses⟩ := hadv.encloses_expr
  obtain ⟨us, hus, hadv⟩ := (yields_punctuator _).append hadv ht
  obtain ⟨vs, hvs, hadv⟩ := yields_identifier.append hadv hmember
  have hphrase := mem_mul (mem_mul hts hus) hvs
  obtain ⟨t, rfl, rfl⟩ := hvs
  exact ⟨_, mem_grouped hphrase, hadv.close (by simp [Head.names]) (fun _ =>
      ⟨ws, hws.trans (by simp [List.append_assoc]), hencloses.merge_left _, by simp [Head.isBuiltin]⟩)
    fun horder => (hadv.nests horder).expr_close horder List.getLast?_concat rfl⟩

theorem extends_call :
    Extends (call nested) (fun e => [e.tree]) fun source e => e.phrases source := by
  have hfirm := hnested.firm_commaList .expression
  refine ⟨fun s ts callee s' e rest hts hadv h => ?_, fun _ =>
    (frugal_punctuator _).bind fun _ => hfirm.bind fun _ => (firm_expect _).bind fun _ =>
    (firm_numbered _).bind fun _ => firm_pure _⟩
  simp only [call, bind_eq_accept, numbered_eq_accept, pure_eq_accept] at h
  obtain ⟨t, s₁, ht, arguments, s₂, hargs, u, s₃, hu, place, s₄, ⟨rfl, rfl⟩, rfl, rfl⟩ := h
  obtain ⟨ws', hws', hencloses⟩ := hadv.encloses_expr
  obtain ⟨us, hus, hadv⟩ := (yields_punctuator _).append hadv ht
  obtain ⟨vs, hvs, hadv⟩ := (yields_commaList hnested).append hadv hargs
  obtain ⟨hkind, hclose⟩ := advances_of_expect hu
  rw [← Expr.listPhrases_eq_map] at hvs
  have hadv' : s.Advances (ts ++ us ++ vs ++ [u]) (callee.tree :: Expr.trees arguments) s₃ := by
    rw [Expr.trees_eq_map, List.map_eq_flatMap]
    simpa using hadv.append hclose
  exact ⟨_, mem_grouped (mem_mul (mem_mul (mem_mul hts hus) hvs) (mem_one hkind)), hadv'.close (by simp [Head.names]) (fun _ =>
      ⟨ws', hws'.trans (by simp [List.append_assoc]), hencloses.merge_left _,
        by simp [Head.isBuiltin]⟩)
    fun horder => (hadv'.nests horder).expr_close horder List.getLast?_concat rfl⟩

omit hnested in
theorem extends_cast : Extends cast (fun e => [e.tree]) fun source e => e.phrases source := by
  refine ⟨fun s ts operand s' e rest hts hadv h => ?_, fun _ =>
    (frugal_keyword _).bind fun _ => (firm_required _ _).bind fun _ => (firm_numbered _).bind fun
    _ => firm_pure _⟩
  simp only [cast, bind_eq_accept, required_eq_accept, numbered_eq_accept, pure_eq_accept] at h
  obtain ⟨t, s₁, ht, target, s₂, htarget, place, s₃, ⟨rfl, rfl⟩, rfl, rfl⟩ := h
  obtain ⟨ws, hws, hencloses⟩ := hadv.encloses_expr
  obtain ⟨us, hus, hadv⟩ := (yields_keyword _).append hadv ht
  obtain ⟨vs, hvs, hadv⟩ := yields_writtenType.append hadv htarget
  exact ⟨_, mem_grouped (mem_mul (mem_mul hts hus) hvs), hadv.close (by simp [Head.names]) (fun _ =>
      ⟨ws, hws.trans (by simp [List.append_assoc]), hencloses.merge_left _, by simp [Head.isBuiltin]⟩)
    fun horder => (hadv.nests horder).expr_pair horder target.kind_root_ne_block rfl⟩

theorem extends_index :
    Extends (index nested) (fun e => [e.tree]) fun source e => e.phrases source := by
  refine ⟨fun s ts target s' e rest hts hadv h => ?_, fun _ =>
    (frugal_punctuator _).bind fun _ => (firm_required _ _).bind fun _ => (firm_expect _).bind fun
    _ => (firm_numbered _).bind fun _ => firm_pure _⟩
  simp only [index, bind_eq_accept, required_eq_accept, numbered_eq_accept, pure_eq_accept] at h
  obtain ⟨t, s₁, ht, subscript, s₂, hsub, u, s₃, hu, place, s₄, ⟨rfl, rfl⟩, rfl, rfl⟩ := h
  obtain ⟨ws', hws', hencloses⟩ := hadv.encloses_expr
  obtain ⟨us, hus, hadv⟩ := (yields_punctuator _).append hadv ht
  obtain ⟨vs, hvs, hadv⟩ := hnested.append hadv hsub
  obtain ⟨hkind, hclose⟩ := advances_of_expect hu
  have hadv := hadv.append hclose
  exact ⟨_, mem_grouped (mem_mul (mem_mul (mem_mul hts hus) hvs) (mem_one hkind)), hadv.close (by simp [Head.names]) (fun _ =>
      ⟨ws', hws'.trans (by simp [List.append_assoc]), hencloses.merge_left _,
        by simp [Head.isBuiltin]⟩)
    fun horder => (hadv.nests horder).expr_close horder List.getLast?_concat rfl⟩

theorem yields_postfixed :
    (postfixed nested).Yields (fun e => [e.tree]) fun source e => e.phrases source := by
  have hsuffix : Extends (suffix nested) (fun e => [e.tree]) fun source e => e.phrases source :=
    (extends_access .dot).orElse ((extends_access .arrow).orElse
      ((extends_call hnested).orElse (extends_cast.orElse (extends_index hnested))))
  exact (yields_value hnested).bind_extends hsuffix.iterate (firm_iterate _)

/-! ## Operators -/

theorem yields_unaryWithin (bound : List Token) :
    (unaryWithin nested bound).Yields (fun e => [e.tree]) fun source e => e.phrases source := by
  induction bound with
  | nil => exact yields_postfixed hnested
  | cons t bound ih =>
    refine Yields.orElse ?_ (yields_postfixed hnested)
    refine ⟨fun s e rest h => ?_,
      .located <| (frugal_operator _).bind fun _ => (firm_required _ _).bind fun _ => firm_pure _⟩
    simp only [located_eq_accept, bind_eq_accept, required_eq_accept, pure_eq_accept] at h
    obtain ⟨build, s', ⟨op, s₁, hop, operand, s₂, ho, rfl, rfl⟩, rfl, rfl⟩ := h
    obtain ⟨ts, hts, hadv⟩ :=
      (yields_operator fun _ _ => UnaryOp.eq_punctuator_of_ofToken?).advances hop
    obtain ⟨us, hus, hadv⟩ := ih.append hadv ho
    have hphrase := mem_mul hts hus
    obtain ⟨t, rfl, hkind⟩ := hts
    exact ⟨_, mem_grouped hphrase, hadv.close (by simp [Head.names]) (fun _ =>
        ⟨_, .refl _, hadv.encloses (by simp), fun _ => ⟨t, by simp, by rw [hkind]; simp⟩⟩)
      (hadv.nests_located (by simp))⟩

omit hnested in
theorem yields_binaryOperator (p : BinaryOp → Bool) :
    (binaryOperator p).Yields (fun _ => []) fun _ op => sign op.punctuator := by
  refine yields_operator ?_
  intro kind op h
  exact BinaryOp.eq_punctuator_of_ofToken? (Option.filter_eq_some_iff.1 h).1

omit hnested in
theorem extends_binaryRest {operand : Rule Expr} (p : BinaryOp → Bool)
    (hoperand : operand.Yields (fun e => [e.tree]) fun source e => e.phrases source) :
    Extends (binaryRest p operand) (fun e => [e.tree]) fun source e => e.phrases source := by
  refine ⟨fun s ts left s' e rest hts hadv h => ?_, fun _ =>
    (frugal_operator _).bind fun _ => (firm_required _ _).bind fun _ => (firm_numbered _).bind fun
    _ => firm_pure _⟩
  simp only [binaryRest, bind_eq_accept, required_eq_accept, numbered_eq_accept,
    pure_eq_accept] at h
  obtain ⟨op, s₁, hop, right, s₂, hright, place, s₃, ⟨rfl, rfl⟩, rfl, rfl⟩ := h
  obtain ⟨lefts, hlefts, hencloses⟩ := hadv.encloses_expr
  obtain ⟨us, hus, hadv⟩ := (yields_binaryOperator p).append hadv hop
  have hphrase := mem_mul hts hus
  obtain ⟨t, rfl, hkind⟩ := hus
  have hsource := hadv.source_eq
  obtain ⟨vs, hvs, hadv'⟩ := hoperand.advances hright
  obtain ⟨rights, hrights, hencloses'⟩ := hadv'.encloses_expr
  rw [hsource] at hvs
  refine ⟨_, mem_grouped (mem_mul hphrase hvs), (hadv.append hadv').close (by simp [Head.names])
    (fun _ => ⟨lefts ++ [t] ++ rights, (hlefts.append (.refl [t])).append hrights,
      hencloses.merge hencloses' [t], fun _ => ⟨t, by simp, by rw [hkind]; simp⟩⟩)
    fun horder => ((hadv.append hadv').nests horder).expr_pair horder right.kind_root_ne_block ?_⟩
  rw [right.span_root]
  rfl

theorem yields_binaryWithin (levels : Nat) :
    (binaryWithin nested levels).Yields (fun e => [e.tree]) fun source e => e.phrases source := by
  induction levels with
  | zero =>
    exact ⟨fun s _ _ h => (yields_unaryWithin hnested s.tokens).advances h,
      fun s _ _ h => (yields_unaryWithin hnested s.tokens).frugal h⟩
  | succ levels ih => exact ih.bind_extends (extends_binaryRest _ ih).iterate (firm_iterate _)

theorem yields_assignment :
    (assignment nested).Yields (fun e => [e.tree]) fun source e => e.phrases source := by
  exact (yields_binaryWithin hnested _).bind_extends
    ((extends_binaryRest _ hnested).orElse extends_pure) fun x => .orElse _ (firm_pure x)

end

theorem yields_expressionWithin (bound : List Token) : (expressionWithin bound).Yields
    (fun e => [e.tree]) fun source e => e.phrases source := by
  induction bound with
  | nil => exact yields_declines _
  | cons t bound ih => exact yields_assignment ih

theorem yields_expression :
    expression.Yields (fun e => [e.tree]) fun source e => e.phrases source :=
  ⟨fun s _ _ h => (yields_expressionWithin s.tokens).advances h,
    fun s _ _ h => (yields_expressionWithin s.tokens).frugal h⟩

/-! ## Statements -/

theorem yields_variableDecl :
    variableDecl.Yields (fun d => [d.tree]) VariableDecl.phrases := by
  have hinit : (do let _ ← punctuator .assign; expression.required .expression : Rule Expr).Yields
      (fun e => [e.tree]) fun source e => sign .assign * e.phrases source :=
    yields_behindSign _ yields_expression
  refine ⟨fun s d rest h => ?_,
    .located <| (frugal_keyword _).bind fun _ => (firm_required _ _).bind fun _ => (firm_required
    _ _).bind fun _ => (firm_optional _).bind fun _ => firm_pure _⟩
  simp only [variableDecl, located_eq_accept, bind_eq_accept, required_eq_accept,
    pure_eq_accept] at h
  obtain ⟨build, s', ⟨t, s₁, ht, name, s₂, hname, type, s₃, htype, init, s₄, hi, rfl, rfl⟩, rfl,
    rfl⟩ := h
  obtain ⟨ts, hts, hadv⟩ := (yields_keyword _).advances ht
  obtain ⟨us, hus, hadv⟩ := yields_identifier.append hadv hname
  obtain ⟨vs, hvs, hadv⟩ := yields_annotatedType.append hadv htype
  obtain ⟨ws, hws, hadv⟩ := hinit.optional.append hadv hi
  refine ⟨ts ++ us ++ vs ++ ws, ?_, ?_⟩
  · rw [VariableDecl.phrases, mul_assoc (_ * _) (sign .colon)]
    exact mem_mul (mem_mul (mem_mul hts hus) hvs) hws
  · obtain ⟨t, rfl, rfl⟩ := hus
    rw [← List.map_eq_flatMap] at hadv
    exact hadv.close_plain rfl (by simp [Head.names]) (by simp)

/-- A statement that a semicolon completes. -/
def Lacks (p : Punctuator) (L : Phrases) : Phrases := fun ts => ∀ us ∈ sign p, ts ++ us ∈ L

theorem mem_lacks {p : Punctuator} {L : Phrases} {ts : List Token} (h : ts ∈ L) :
    ts ∈ Lacks p (L * sign p) := fun _ hus => mem_mul h hus

theorem yields_named {k : Keyword} {make : Place → Ident → Stmt} {head : Ident → Head}
    (htree : ∀ place name, (make place name).tree = .node ⟨place, head name⟩ [])
    (hnames : ∀ name, (head name).names = [name])
    (hkind : ∀ name, (head name).kind.isExpression = false)
    (hphrases : ∀ source place name, (make place name).phrases source =
      word k * name.phrase * sign .semicolon) :
    (located do
      let _ ← keyword k
      let name ← identifier.required .identifier
      return fun place => make place name : Rule Stmt).Yields (fun x => [x.tree])
      fun source x => Lacks .semicolon (x.phrases source) := by
  refine ⟨fun s x rest h => ?_,
    .located <| (frugal_keyword _).bind fun _ => (firm_required _ _).bind fun _ => firm_pure _⟩
  simp only [located_eq_accept, bind_eq_accept, required_eq_accept, pure_eq_accept] at h
  obtain ⟨build, s', ⟨t, s₁, ht, name, s₂, hname, rfl, rfl⟩, rfl, rfl⟩ := h
  obtain ⟨ts, hts, hadv⟩ := (yields_keyword _).advances ht
  obtain ⟨us, hus, hadv⟩ := yields_identifier.append hadv hname
  refine ⟨ts ++ us, ?_, ?_⟩
  · simp only [hphrases]
    exact mem_lacks (mem_mul hts hus)
  · obtain ⟨t, rfl, rfl⟩ := hus
    simp only [htree]
    exact hadv.close_plain (hkind _) (by simp [hnames]) (by simp)

theorem yields_returnStmt : returnStmt.Yields (fun x => [x.tree])
    fun source x => Lacks .semicolon (x.phrases source) := by
  refine ⟨fun s x rest h => ?_,
    .located <| (frugal_keyword _).bind fun _ => (firm_optional _).bind fun _ => firm_pure _⟩
  simp only [returnStmt, located_eq_accept, bind_eq_accept, pure_eq_accept] at h
  obtain ⟨build, s', ⟨t, s₁, ht, value, s₂, hvalue, rfl, rfl⟩, rfl, rfl⟩ := h
  obtain ⟨ts, hts, hadv⟩ := (yields_keyword _).advances ht
  obtain ⟨us, hus, hadv⟩ := yields_expression.optional.append hadv hvalue
  rw [← List.map_eq_flatMap] at hadv
  exact ⟨_, mem_lacks (mem_mul hts hus), hadv.close_plain rfl (by simp [Head.names])
    (by simp [ne_nil_of_mem_one hts])⟩

/-- A statement of one word. -/
theorem yields_bareWord {k : Keyword} {make : Place → Stmt} {head : Head}
    (htree : ∀ place, (make place).tree = .node ⟨place, head⟩ []) (hnames : head.names = [])
    (hkind : head.kind.isExpression = false)
    (hphrases : ∀ source place, (make place).phrases source = word k * sign .semicolon) :
    (located do
      let _ ← keyword k
      return make : Rule Stmt).Yields (fun x => [x.tree])
      fun source x => Lacks .semicolon (x.phrases source) := by
  refine ⟨fun s x rest h => ?_, .located <| (frugal_keyword _).bind fun _ => firm_pure _⟩
  simp only [located_eq_accept, bind_eq_accept, pure_eq_accept] at h
  obtain ⟨build, s', ⟨t, s₁, ht, rfl, rfl⟩, rfl, rfl⟩ := h
  obtain ⟨ts, hts, hadv⟩ := (yields_keyword _).advances ht
  refine ⟨ts, ?_, ?_⟩
  · simp only [hphrases]
    exact mem_lacks hts
  · simp only [htree]
    exact hadv.close_plain hkind (by simp [hnames]) (ne_nil_of_mem_one hts)

theorem yields_simpleStmt : simpleStmt.Yields (fun x => [x.tree])
    fun source x => Lacks .semicolon (x.phrases source) := by
  refine .orElse ?_ (.orElse ?_ (.orElse yields_returnStmt (.orElse ?_ (.orElse ?_ (.orElse ?_ ?_)))))
  · exact yields_named (fun _ _ => rfl) (fun _ => rfl) (fun _ => rfl) fun _ _ _ => rfl
  · exact yields_named (fun _ _ => rfl) (fun _ => rfl) (fun _ => rfl) fun _ _ _ => rfl
  · exact yields_bareWord (fun _ => rfl) rfl rfl fun _ _ => rfl
  · exact yields_bareWord (fun _ => rfl) rfl rfl fun _ _ => rfl
  · exact .map (yields_variableDecl.mono fun _ _ _ h => mem_lacks h)
  · exact .map (yields_expression.mono fun _ _ _ h => mem_lacks h)

theorem firm_condition : condition.Firm :=
  (firm_expect _).bind fun _ => (firm_required _ _).bind fun _ => (firm_expect _).bind fun _ =>
    firm_pure _

theorem yields_condition : condition.Yields (fun e => [e.tree])
    fun source e => sign .openParen * e.phrases source * sign .closeParen := by
  refine ⟨fun s e rest h => ?_, firm_condition.frugal⟩
  simp only [condition, bind_eq_accept, required_eq_accept, pure_eq_accept] at h
  obtain ⟨t, s₁, ht, e', s₂, he, u, s₃, hu, rfl, rfl⟩ := h
  obtain ⟨ts, hts, hadv⟩ := (yields_expect _).advances ht
  obtain ⟨us, hus, hadv⟩ := yields_expression.append hadv he
  obtain ⟨vs, hvs, hadv⟩ := (yields_expect _).append hadv hu
  exact ⟨_, mem_mul (mem_mul hts hus) hvs, by simpa using hadv⟩

theorem firm_forInit : forInit.Firm := .orElse _ (.orElse _ (firm_pure _))

theorem yields_forInit : forInit.Yields ForInit.trees ForInit.phrases := by
  refine .orElse (.map yields_variableDecl) (.orElse (.map yields_expression)
    ⟨fun s x rest h => ?_, (firm_pure _).frugal⟩)
  obtain ⟨rfl, rfl⟩ := pure_eq_accept.1 h
  exact ⟨[], Language.nil_mem_one, advances_refl s⟩

section

variable {scope : Rule Scope} {branch : Rule Branch}
  (hscope : scope.Yields (fun b => [b.tree]) fun source b => b.phrases source)
  (hbranch : branch.Yields (fun b => [b.tree]) fun source b => b.phrases source)

include hscope

theorem yields_whileStmt : (whileStmt scope).Yields (fun x => [x.tree])
    fun source x => x.phrases source := by
  refine ⟨fun s x rest h => ?_,
    .located <| (frugal_keyword _).bind fun _ => firm_condition.bind fun _ => (firm_required _
    _).bind fun _ => firm_pure _⟩
  simp only [whileStmt, located_eq_accept, bind_eq_accept, required_eq_accept, pure_eq_accept] at h
  obtain ⟨build, s', ⟨t, s₁, ht, test, s₂, htest, body, s₃, hbody, rfl, rfl⟩, rfl, rfl⟩ := h
  obtain ⟨ts, hts, hadv⟩ := (yields_keyword _).advances ht
  obtain ⟨us, hus, hadv⟩ := yields_condition.append hadv htest
  obtain ⟨vs, hvs, hadv⟩ := hscope.append hadv hbody
  refine ⟨_, ?_, hadv.close_plain rfl (by simp [Head.names]) (by simp [ne_nil_of_mem_one hts])⟩
  simp only [Stmt.phrases]
  simpa only [mul_assoc] using mem_mul (mem_mul hts hus) hvs

theorem yields_forStmt : (forStmt scope).Yields (fun x => [x.tree])
    fun source x => x.phrases source := by
  have hfrugal : (forStmt scope).Frugal := .located <| (frugal_keyword _).bind fun _ =>
    (firm_expect _).bind fun _ => firm_forInit.bind fun _ => (firm_expect _).bind fun _ =>
    (firm_optional _).bind fun _ => (firm_expect _).bind fun _ => (firm_optional _).bind fun _ =>
    (firm_expect _).bind fun _ => (firm_required _ _).bind fun _ => firm_pure _
  refine ⟨fun s x rest h => ?_, hfrugal⟩
  simp only [forStmt, located_eq_accept, bind_eq_accept, required_eq_accept, pure_eq_accept] at h
  obtain ⟨build, s', ⟨t, s₁, ht, t₂, s₂, ht₂, init, s₃, hinit, t₄, s₄, ht₄, test, s₅, htest, t₆, s₆,
    ht₆, step, s₇, hstep, t₈, s₈, ht₈, body, s₉, hbody, rfl, rfl⟩, rfl, rfl⟩ := h
  obtain ⟨ts, hts, hadv⟩ := (yields_keyword _).advances ht
  obtain ⟨ts₂, hts₂, hadv⟩ := (yields_expect _).append hadv ht₂
  obtain ⟨ts₃, hts₃, hadv⟩ := yields_forInit.append hadv hinit
  obtain ⟨ts₄, hts₄, hadv⟩ := (yields_expect _).append hadv ht₄
  obtain ⟨ts₅, hts₅, hadv⟩ := yields_expression.optional.append hadv htest
  obtain ⟨ts₆, hts₆, hadv⟩ := (yields_expect _).append hadv ht₆
  obtain ⟨ts₇, hts₇, hadv⟩ := yields_expression.optional.append hadv hstep
  obtain ⟨ts₈, hts₈, hadv⟩ := (yields_expect _).append hadv ht₈
  obtain ⟨ts₉, hts₉, hadv⟩ := hscope.append hadv hbody
  rw [← List.map_eq_flatMap, ← List.map_eq_flatMap] at hadv
  simp only [List.nil_append, List.append_nil] at hadv
  refine ⟨_, ?_, hadv.close_plain rfl (by simp [Head.names]) (by simp [ne_nil_of_mem_one hts])⟩
  exact mem_mul (mem_mul (mem_mul (mem_mul (mem_mul (mem_mul (mem_mul (mem_mul hts hts₂) hts₃)
    hts₄) hts₅) hts₆) hts₇) hts₈) hts₉

include hbranch

theorem yields_otherwise : (otherwise scope branch).Yields Otherwise.trees
    fun source x => x.phrases source := by
  have hscope' : (Otherwise.scope <$> scope).Yields Otherwise.trees
      fun source x => {ts | ∀ us ∈ word .elseWord, us ++ ts ∈ x.phrases source} :=
    .map (hscope.mono fun _ _ _ h _ hus => mem_mul hus h)
  have hbranch' : (Otherwise.branch <$> branch).Yields Otherwise.trees
      fun source x => {ts | ∀ us ∈ word .elseWord, us ++ ts ∈ x.phrases source} :=
    .map (hbranch.mono fun _ _ _ h _ hus => mem_mul hus h)
  refine ⟨fun s x rest h => ?_, (frugal_keyword _).bind fun _ => firm_required _ _⟩
  simp only [otherwise, bind_eq_accept, required_eq_accept] at h
  obtain ⟨t, s₁, ht, hx⟩ := h
  obtain ⟨ts, hts, hadv⟩ := (yields_keyword _).advances ht
  obtain ⟨us, hus, hadv⟩ := (hbranch'.orElse hscope').append hadv hx
  exact ⟨_, hus _ hts, hadv⟩

theorem yields_branchOf : (branchOf scope branch).Yields (fun b => [b.tree])
    fun source b => b.phrases source := by
  refine ⟨fun s x rest h => ?_,
    .located <| (frugal_keyword _).bind fun _ => firm_condition.bind fun _ => (firm_required _
    _).bind fun _ => (firm_optional _).bind fun _ => firm_pure _⟩
  simp only [branchOf, located_eq_accept, bind_eq_accept, required_eq_accept, pure_eq_accept] at h
  obtain ⟨build, s', ⟨t, s₁, ht, test, s₂, htest, body, s₃, hbody, other, s₄, hother, rfl, rfl⟩, rfl,
    rfl⟩ := h
  obtain ⟨ts, hts, hadv⟩ := (yields_keyword _).advances ht
  obtain ⟨us, hus, hadv⟩ := yields_condition.append hadv htest
  obtain ⟨vs, hvs, hadv⟩ := hscope.append hadv hbody
  obtain ⟨ws, hws, hadv⟩ := (yields_otherwise hscope hbranch).optional.append hadv hother
  have hws' : ws ∈ (other.getD .nothing).phrases s.source := by
    cases other <;> exact hws
  have htrees : other.toList.flatMap Otherwise.trees = (other.getD .nothing).trees := by
    cases other <;> simp [Otherwise.trees]
  rw [htrees] at hadv
  refine ⟨_, ?_, hadv.close_plain rfl (by simp [Head.names]) (by simp [ne_nil_of_mem_one hts])⟩
  simp only [Branch.phrases]
  simpa only [mul_assoc] using mem_mul (mem_mul (mem_mul hts hus) hvs) hws'

theorem yields_statementOf : (statementOf scope branch).Yields (fun x => [x.tree])
    fun source x => x.phrases source := by
  refine .orElse (.map hbranch) (.orElse (yields_whileStmt hscope) (.orElse (yields_forStmt hscope)
    ⟨fun s x rest h => ?_, yields_simpleStmt.frugal.bind fun _ =>
      (firm_expect _).bind fun _ => firm_pure _⟩))
  simp only [bind_eq_accept, pure_eq_accept] at h
  obtain ⟨x, s₁, hx, t, s₂, ht, rfl, rfl⟩ := h
  obtain ⟨ts, hts, hadv⟩ := yields_simpleStmt.advances hx
  obtain ⟨us, hus, hadv⟩ := (yields_expect _).append hadv ht
  exact ⟨_, hts _ hus, by simpa using hadv⟩

omit hscope hbranch in
theorem nil_notMem_statement (source : List Char) (x : Stmt) : [] ∉ x.phrases source := by
  match x with
  | .branch (.mk ..) => simp [Stmt.phrases, Branch.phrases, nil_mem_mul, nil_notMem_word]
  | .label .. | .goto .. | .returns .. | .breakLoop .. | .continueLoop .. | .variable .. | .expr ..
  | .whileLoop .. | .forLoop .. =>
    simp [Stmt.phrases, nil_mem_mul, nil_notMem_word, nil_notMem_sign]

omit hscope hbranch in
theorem yields_scopeOf {statement : Rule Stmt}
    (hstatement : statement.Yields (fun x => [x.tree]) fun source x => x.phrases source) :
    (scopeOf statement).Yields (fun b => [b.tree]) fun source b => b.phrases source := by
  have hfirm := hstatement.firm_many nil_notMem_statement
  refine ⟨fun s b rest h => ?_,
    .located <| (frugal_punctuator _).bind fun _ => hfirm.bind fun _ => (firm_expect _).bind fun _
    => firm_pure _⟩
  simp only [scopeOf, located_eq_accept, bind_eq_accept, pure_eq_accept] at h
  obtain ⟨build, s', ⟨t, s₁, ht, statements, s₂, hstmts, u, s₃, hu, rfl, rfl⟩, rfl, rfl⟩ := h
  obtain ⟨ts, hts, hadv⟩ := (yields_punctuator _).advances ht
  obtain ⟨us, hus, hadv⟩ := (yields_many hstatement nil_notMem_statement).append hadv hstmts
  obtain ⟨vs, hvs, hadv⟩ := (yields_expect _).append hadv hu
  rw [← List.map_eq_flatMap, ← Stmt.trees_eq_map, List.append_nil] at hadv
  rw [← Stmt.listPhrases_eq_map] at hus
  exact ⟨_, mem_mul (mem_mul hts hus) hvs, hadv.close_plain rfl (by simp [Head.names])
    (by simp [ne_nil_of_mem_one hts])⟩

end

theorem yields_scopeWithin_branchWithin (bound : List Token) :
    ((scopeWithin bound).Yields (fun b => [b.tree]) fun source b => b.phrases source) ∧
      (branchWithin bound).Yields (fun b => [b.tree]) fun source b => b.phrases source := by
  induction bound with
  | nil => exact ⟨yields_declines _, yields_declines _⟩
  | cons t bound ih =>
    obtain ⟨hscope, hbranch⟩ := ih
    exact ⟨yields_scopeOf (yields_statementOf hscope hbranch), yields_branchOf hscope hbranch⟩

theorem yields_scope : scope.Yields (fun b => [b.tree]) fun source b => b.phrases source :=
  ⟨fun s _ _ h => (yields_scopeWithin_branchWithin s.tokens).1.advances h,
    fun s _ _ h => (yields_scopeWithin_branchWithin s.tokens).1.frugal h⟩

/-! ## Declarations -/

theorem yields_parameter : parameter.Yields (fun d => [d.tree]) fun _ => Parameter.phrases := by
  refine ⟨fun s d rest h => ?_,
    .located <| frugal_identifier.bind fun _ => (firm_required _ _).bind fun _ => firm_pure _⟩
  simp only [parameter, located_eq_accept, bind_eq_accept, required_eq_accept, pure_eq_accept] at h
  obtain ⟨build, s', ⟨name, s₁, hname, type, s₂, htype, rfl, rfl⟩, rfl, rfl⟩ := h
  obtain ⟨ts, hts, hadv⟩ := yields_identifier.advances hname
  obtain ⟨us, hus, hadv⟩ := yields_annotatedType.append hadv htype
  refine ⟨ts ++ us, ?_, ?_⟩
  · simp only [Parameter.phrases, mul_assoc]
    exact mem_mul hts hus
  · obtain ⟨t, rfl, rfl⟩ := hts
    exact hadv.close_plain rfl (by simp [Head.names]) (by simp)

theorem yields_functionDecl :
    functionDecl.Yields (fun d => [d.tree]) FunctionDecl.phrases := by
  have hfirm := yields_parameter.firm_commaList .identifier
  refine ⟨fun s d rest h => ?_,
    .located <| (frugal_keyword _).bind fun _ => (firm_required _ _).bind fun _ => (firm_expect
    _).bind fun _ => hfirm.bind fun _ => (firm_expect _).bind fun _ => (firm_optional _).bind fun
    _ => (firm_required _ _).bind fun _ => firm_pure _⟩
  simp only [functionDecl, located_eq_accept, bind_eq_accept, required_eq_accept,
    pure_eq_accept] at h
  obtain ⟨build, s', ⟨t, s₁, ht, name, s₂, hname, t₃, s₃, ht₃, parameters, s₄, hparams, t₅, s₅, ht₅,
    returns, s₆, hreturns, body, s₇, hbody, rfl, rfl⟩, rfl, rfl⟩ := h
  obtain ⟨ts, hts, hadv⟩ := (yields_keyword _).advances ht
  obtain ⟨ts₂, hts₂, hadv⟩ := yields_identifier.append hadv hname
  obtain ⟨ts₃, hts₃, hadv⟩ := (yields_expect _).append hadv ht₃
  obtain ⟨ts₄, hts₄, hadv⟩ := (yields_commaList yields_parameter).append hadv hparams
  obtain ⟨ts₅, hts₅, hadv⟩ := (yields_expect _).append hadv ht₅
  obtain ⟨ts₆, hts₆, hadv⟩ := yields_annotatedType.optional.append hadv hreturns
  obtain ⟨ts₇, hts₇, hadv⟩ := yields_scope.append hadv hbody
  rw [← List.map_eq_flatMap, ← List.map_eq_flatMap] at hadv
  simp only [List.nil_append, List.append_nil] at hadv
  refine ⟨_, ?_, hadv.close_plain rfl ?_ (by simp [ne_nil_of_mem_one hts])⟩
  · exact mem_mul (mem_mul (mem_mul (mem_mul (mem_mul (mem_mul hts hts₂) hts₃) hts₄) hts₅) hts₆) hts₇
  · obtain ⟨t, rfl, rfl⟩ := hts₂
    simp [Head.names]

theorem yields_variableLine : variableLine.Yields (fun d => [d.tree])
    fun source d => d.phrases source * sign .semicolon := by
  refine ⟨fun s d rest h => ?_,
    yields_variableDecl.frugal.bind fun _ => (firm_expect _).bind fun _ => firm_pure _⟩
  simp only [variableLine, bind_eq_accept, pure_eq_accept] at h
  obtain ⟨d, s₁, hd, t, s₂, ht, rfl, rfl⟩ := h
  obtain ⟨ts, hts, hadv⟩ := yields_variableDecl.advances hd
  obtain ⟨us, hus, hadv⟩ := (yields_expect _).append hadv ht
  exact ⟨_, mem_mul hts hus, by simpa using hadv⟩

theorem yields_member : member.Yields (fun d => [d.tree]) Member.phrases :=
  .orElse (.map yields_variableLine) (.map yields_functionDecl)

theorem nil_notMem_member (source : List Char) (m : Member) : [] ∉ m.phrases source := by
  cases m <;> simp [Member.phrases, FunctionDecl.phrases, VariableDecl.phrases, nil_mem_mul,
    nil_notMem_word]

theorem yields_classDecl : classDecl.Yields (fun d => [d.tree]) ClassDecl.phrases := by
  have hfirm := yields_member.firm_many nil_notMem_member
  refine ⟨fun s d rest h => ?_,
    .located <| (frugal_keyword _).bind fun _ => (firm_required _ _).bind fun _ => (firm_expect
    _).bind fun _ => hfirm.bind fun _ => (firm_expect _).bind fun _ => firm_pure _⟩
  simp only [classDecl, located_eq_accept, bind_eq_accept, required_eq_accept, pure_eq_accept] at h
  obtain ⟨build, s', ⟨t, s₁, ht, name, s₂, hname, t₃, s₃, ht₃, members, s₄, hmembers, t₅, s₅, ht₅,
    rfl, rfl⟩, rfl, rfl⟩ := h
  obtain ⟨ts, hts, hadv⟩ := (yields_keyword _).advances ht
  obtain ⟨ts₂, hts₂, hadv⟩ := yields_identifier.append hadv hname
  obtain ⟨ts₃, hts₃, hadv⟩ := (yields_expect _).append hadv ht₃
  obtain ⟨ts₄, hts₄, hadv⟩ := (yields_many yields_member nil_notMem_member).append hadv hmembers
  obtain ⟨ts₅, hts₅, hadv⟩ := (yields_expect _).append hadv ht₅
  rw [← List.map_eq_flatMap, List.append_nil] at hadv
  refine ⟨_, mem_mul (mem_mul (mem_mul (mem_mul hts hts₂) hts₃) hts₄) hts₅,
    hadv.close_plain rfl ?_ (by simp [ne_nil_of_mem_one hts])⟩
  obtain ⟨t, rfl, rfl⟩ := hts₂
  simp [Head.names]

theorem yields_declaration : declaration.Yields (fun d => [d.tree]) Declaration.phrases :=
  .orElse (.map yields_classDecl) (.orElse (.map yields_functionDecl) (.map yields_variableLine))

theorem nil_notMem_declaration (source : List Char) (d : Declaration) : [] ∉ d.phrases source := by
  cases d <;> simp [Declaration.phrases, ClassDecl.phrases, FunctionDecl.phrases,
    VariableDecl.phrases, nil_mem_mul, nil_notMem_word]

/-- A unit goes on to the end of the input: its bound is large enough. -/
theorem declarationsWithin_phrases {bound : List Token} {s rest : TokenStream}
    {ds : List Declaration} (h : declarationsWithin bound s = .accept ds rest)
    (hbound : s.tokens.length ≤ bound.length) :
    (∃ ts ∈ (ds.map (Declaration.phrases s.source)).prod,
      s.Advances ts (ds.map Declaration.tree) rest) ∧ rest.atEnd := by
  induction bound generalizing s ds with
  | nil =>
    obtain ⟨rfl, rfl⟩ := pure_eq_accept.1 h
    have hnil : s.tokens = [] := by simpa using hbound
    exact ⟨⟨[], Language.nil_mem_one, advances_refl s⟩, by simp [atEnd, firstKind?, first?, hnil]⟩
  | cons t bound ih =>
    simp only [declarationsWithin] at h
    split at h
    · next hend =>
      obtain ⟨rfl, rfl⟩ := Reply.accept.inj h
      exact ⟨⟨[], Language.nil_mem_one, advances_refl s⟩, hend⟩
    · split at h
      · next d s' hd =>
        obtain ⟨ts, hts, hadv⟩ := yields_declaration.required.advances hd
        cases hds : declarationsWithin bound s' with
        | accept ds' s'' =>
          rw [hds] at h
          obtain ⟨rfl, rfl⟩ := Reply.accept.inj h
          have hne : ts ≠ [] := by
            rintro rfl
            exact nil_notMem_declaration _ d hts
          have hlen := congrArg List.length hadv.tokens_eq
          have hpos := List.length_pos_of_ne_nil hne
          simp only [List.length_append, List.length_cons] at hlen hbound
          obtain ⟨⟨us, hus, hadv'⟩, hend⟩ := ih hds (by omega)
          rw [hadv.source_eq] at hus
          refine ⟨⟨ts ++ us, ?_, hadv.append hadv'⟩, hend⟩
          rw [List.map_cons, List.prod_cons]
          exact mem_mul hts hus
        | decline p e => simp [hds, Reply.map] at h
        | reject p e => simp [hds, Reply.map] at h
      · simp at h
      · simp at h

theorem block_phrases {s rest : TokenStream} {b : Block} (h : block s = .accept b rest) :
    (∃ ts ∈ b.phrases s.source, s.Advances ts [b.tree] rest) ∧ rest.atEnd := by
  obtain ⟨build, s', hbuild, rfl, rfl⟩ := located_eq_accept.1 h
  cases hds : declarationsWithin s.tokens s with
  | accept ds s'' =>
    rw [hds] at hbuild
    obtain ⟨rfl, rfl⟩ := Reply.accept.inj hbuild
    obtain ⟨⟨ts, hts, hadv⟩, hend⟩ := declarationsWithin_phrases hds (Nat.le_refl _)
    refine ⟨⟨ts, hts, hadv.close (by simp [Head.names]) (fun hn => by simp [Node.kind, Head.kind,
      NodeKind.isExpression] at hn) fun horder => ?_⟩, hend⟩
    cases ds with
    | nil => exact .inl ⟨rfl, rfl⟩
    | cons d ds =>
      refine hadv.nests_located ?_ horder
      rintro rfl
      rw [List.map_cons, List.prod_cons, nil_mem_mul] at hts
      exact nil_notMem_declaration _ d hts.1
  | decline p e => simp [hds, Reply.map] at hbuild
  | reject p e => simp [hds, Reply.map] at hbuild

end Grammar

/-! ## Parsing -/

namespace Token

/-- The tokens in front of the end of input. -/
def beforeEof (tokens : List Token) : List Token := tokens.takeWhile fun t => !t.isEof

theorem significant_beforeEof (tokens : List Token) :
    significant (beforeEof tokens) = beforeEof (significant tokens) := by
  induction tokens with
  | nil => rfl
  | cons t ts ih =>
    simp only [beforeEof, significant] at ih ⊢
    cases heof : t.isEof with
    | true =>
      have htrivia : t.isTrivia = false := by
        rw [isTrivia, eq_of_beq heof]
        rfl
      simp [heof, htrivia]
    | false => cases htrivia : t.isTrivia <;> simp [heof, htrivia, ih]

/-- The end of input stands behind all tokens that cover a text. -/
theorem Covers.beforeEof_eq {source : String} {tokens : List Token} (h : Covers source tokens)
    (stop file : Nat) : beforeEof (tokens ++ [.eof stop file]) = tokens := by
  have heof : ∀ u ∈ tokens, (!u.isEof) = true := by
    intro u hu
    simpa [isEof] using h.kind_ne_eof u hu
  rw [beforeEof, List.takeWhile_append_of_pos heof]
  simp [isEof, Token.eof]

/-- Nothing in front of the end of input is unrecognized; so nothing at all is, if the tokens are
those of a text. -/
structure Recognized (tokens : List Token) : Prop where
  beforeEof : ∀ t ∈ beforeEof tokens, t.kind ≠ .unrecognized
  tokenize : ∀ (lexer : Lexer) (source : String), tokens = lexer.tokenize source →
    ∀ t ∈ tokens, t.kind ≠ .unrecognized

theorem recognized_of_significant {tokens : List Token}
    (h : ∀ t ∈ significant (Token.beforeEof tokens), t.kind ≠ .unrecognized) :
    Recognized tokens := by
  have hbefore : ∀ t ∈ Token.beforeEof tokens, t.kind ≠ .unrecognized := by
    intro t ht hkind
    refine h t ?_ hkind
    simpa [significant, isTrivia, hkind, TokenKind.isTrivia] using ht
  refine ⟨hbefore, ?_⟩
  rintro lexer source rfl t ht
  obtain ⟨tokens, hcuts, htokens⟩ := lexer.exists_tokenize_eq source
  have hall : Token.beforeEof (lexer.tokenize source) = tokens := by
    rw [htokens, hcuts.covers.beforeEof_eq]
  rw [htokens, List.mem_append, List.mem_singleton] at ht
  rcases ht with ht | rfl
  · exact hbefore t (hall ▸ ht)
  · simp [Token.eof]

end Token

/-- A stream that goes on to its end has read all tokens in front of it. -/
theorem TokenStream.Advances.beforeEof_eq {s rest : TokenStream} {ts : List Token}
    {trees : List Tree} (h : s.Advances ts trees rest) (hend : rest.atEnd) :
    Token.beforeEof s.tokens = ts := by
  have hts : ∀ t ∈ ts, (!t.isEof) = true := by
    intro t ht
    simpa [Token.isEof] using (h.isMeaningful t ht).1
  rw [h.tokens_eq, Token.beforeEof, List.takeWhile_append_of_pos hts]
  cases htokens : rest.tokens with
  | nil => simp
  | cons t us =>
    have heof : t.kind = .eof := by
      simp only [atEnd, firstKind?, first?, htokens, List.head?_cons, Option.map_some] at hend
      split at hend
      · simp_all
      · simp_all
      · simp at hend
    simp [Token.isEof, heof]

theorem Block.accept_of_parse {tokens : List Token} {source : String} {b : Block}
    (h : Block.parse tokens source = .ok b) : ∃ rest,
    Grammar.block (.ofTokens (Token.significant tokens) source) = .accept b rest := by
  unfold Block.parse at h
  cases hb : Grammar.block (.ofTokens (Token.significant tokens) source) with
  | accept b' rest =>
    rw [hb] at h
    obtain rfl : b' = b := by simpa [Reply.result, Except.map] using h
    exact ⟨rest, rfl⟩
  | decline p e => simp [hb, Reply.result, Except.map] at h
  | reject p e => simp [hb, Reply.result, Except.map] at h

theorem Block.parse_advances {tokens : List Token} {source : String} {b : Block}
    (h : Block.parse tokens source = .ok b) :
    ∃ ts rest, ts ∈ b.phrases source.toList ∧ rest.atEnd ∧
      (TokenStream.ofTokens (Token.significant tokens) source).Advances ts [b.tree] rest := by
  obtain ⟨rest, hb⟩ := Block.accept_of_parse h
  obtain ⟨⟨ts, hts, hadv⟩, hend⟩ := Grammar.block_phrases hb
  exact ⟨ts, rest, hts, hend, hadv⟩

theorem Expr.accept_of_parse {tokens : List Token} {source : String} {e : Expr}
    (h : Expr.parse tokens source = .ok e) : ∃ rest,
    (Grammar.expression.required .expression) (.ofTokens (Token.significant tokens) source) =
      .accept e rest ∧ rest.atEnd := by
  unfold Expr.parse at h
  cases he : (Grammar.expression.required .expression)
      (.ofTokens (Token.significant tokens) source) with
  | accept e' rest =>
    simp only [he, Reply.result, bind, Except.bind] at h
    split at h
    · next hend =>
      obtain rfl : e' = e := by simpa [pure, Except.pure] using h
      exact ⟨rest, rfl, hend⟩
    · simp [throw, throwThe, MonadExceptOf.throw] at h
  | decline p e => simp [he, Reply.result, bind, Except.bind] at h
  | reject p e => simp [he, Reply.result, bind, Except.bind] at h

theorem Expr.parse_advances {tokens : List Token} {source : String} {e : Expr}
    (h : Expr.parse tokens source = .ok e) :
    ∃ ts rest, ts ∈ e.phrases source.toList ∧ rest.atEnd ∧
      (TokenStream.ofTokens (Token.significant tokens) source).Advances ts [e.tree] rest := by
  obtain ⟨rest, he, hend⟩ := Expr.accept_of_parse h
  obtain ⟨ts, hts, hadv⟩ := Grammar.yields_expression.required.advances he
  exact ⟨ts, rest, hts, hend, hadv⟩

/-- The tokens that mean something, up to the end of input, are those of the parsed tree, and all
of them were recognized. -/
theorem parse_phrases (tokens : List Token) (source : String) :
    (∀ b, Block.parse tokens source = .ok b →
      Token.significant (Token.beforeEof tokens) ∈ b.phrases source.toList ∧
        Token.Recognized tokens) ∧
    ∀ e, Expr.parse tokens source = .ok e →
      Token.significant (Token.beforeEof tokens) ∈ e.phrases source.toList ∧
        Token.Recognized tokens := by
  have hread : ∀ {L : Phrases} {ts trees rest}, ts ∈ L → rest.atEnd →
      (TokenStream.ofTokens (Token.significant tokens) source).Advances ts trees rest →
      Token.significant (Token.beforeEof tokens) ∈ L ∧ Token.Recognized tokens := by
    intro L ts trees rest hts hend hadv
    have hall : Token.significant (Token.beforeEof tokens) = ts := by
      rw [Token.significant_beforeEof]
      exact hadv.beforeEof_eq hend
    refine ⟨hall ▸ hts, Token.recognized_of_significant ?_⟩
    rw [hall]
    exact fun t ht => (hadv.isMeaningful t ht).2
  constructor
  · intro b h
    obtain ⟨ts, rest, hts, hend, hadv⟩ := Block.parse_advances h
    exact hread hts hend hadv
  · intro e h
    obtain ⟨ts, rest, hts, hend, hadv⟩ := Expr.parse_advances h
    exact hread hts hend hadv

theorem exists_of_isOk {ε α : Type} {x : Except ε α} (h : x.isOk = true) : ∃ a, x = .ok a := by
  cases x with
  | error e => simp [Except.isOk, Except.toBool] at h
  | ok a => exact ⟨a, rfl⟩

theorem exists_of_isOk_eq_false {ε α : Type} {x : Except ε α} (h : x.isOk = false) :
    ∃ e, x = .error e := by
  cases x with
  | error e => exact ⟨e, rfl⟩
  | ok a => simp [Except.isOk, Except.toBool] at h

theorem exists_of_toOption_map {ε α β : Type} {x : Except ε α} {f : α → β} {y : β}
    (h : x.toOption.map f = some y) : ∃ a, x = .ok a ∧ f a = y := by
  cases x with
  | error e => simp [Except.toOption] at h
  | ok a => exact ⟨a, rfl, Option.some.inj h⟩

theorem exists_of_toOption_bind {ε α β : Type} {x : Except ε α} {f : α → Option β} {y : β}
    (h : x.toOption.bind f = some y) : ∃ a, x = .ok a ∧ f a = some y := by
  cases x with
  | error e => simp [Except.toOption] at h
  | ok a => exact ⟨a, rfl, h⟩

/-- `class C { }` and `(x)`, with a blank in front and an end of input behind. -/
theorem parse_phrases_class_and_name :
    let blank : Token := ⟨.whitespace, ⟨0, 1, 0⟩, none⟩
    let unit : List Token := [blank, ⟨.keyword .classWord, ⟨1, 6, 0⟩, none⟩,
      ⟨.identifier, ⟨7, 8, 0⟩, some "C"⟩, ⟨.punctuator .openBrace, ⟨9, 10, 0⟩, none⟩,
      ⟨.punctuator .closeBrace, ⟨11, 12, 0⟩, none⟩, .eof 12 0]
    let expression : List Token := [blank, ⟨.punctuator .openParen, ⟨1, 2, 0⟩, none⟩,
      ⟨.identifier, ⟨2, 3, 0⟩, some "x"⟩, ⟨.punctuator .closeParen, ⟨3, 4, 0⟩, none⟩, .eof 4 0]
    (∃ b, Block.parse unit "" = .ok b ∧
      Token.significant (Token.beforeEof unit) ∈ b.phrases "".toList) ∧
    ∃ e, Expr.parse expression "" = .ok e ∧
      Token.significant (Token.beforeEof expression) ∈ e.phrases "".toList := by
  intro blank unit expression
  obtain ⟨b, hb⟩ := exists_of_isOk (x := Block.parse unit "") (by decide +kernel)
  obtain ⟨e, he⟩ := exists_of_isOk (x := Expr.parse expression "") (by decide +kernel)
  exact ⟨⟨b, hb, ((parse_phrases unit "").1 b hb).1⟩, ⟨e, he, ((parse_phrases _ "").2 e he).1⟩⟩

end Sable
