import Sable.Proofs.Grammar.Frugal
import Sable.Proofs.Grammar.Soundness
import Sable.Syntax.Tree

/-!
# Literals are read once and in order

A literal token that has no value stops all reading. Every other one becomes a node, where it
stands, so the literals of what a rule accepts are the literals among the tokens that it has read.

A rule is looked at behind literals that have been read before it: what it accepts has these in
front. So a sequence of rules hands its literals on from one rule to the next, up to the tree that
is made of all of them.

## Main definitions

* `Token.literals`, `Tree.literals`: the literals of a list of tokens and of a tree.
* `Rule.Accounts`: a rule that loses no literal and invents none.

## Main statements

* `Grammar.accounts_expression`, `Grammar.accounts_scope`, `Grammar.accounts_block`: the rules.
* `Block.literals_of_parse`, `Expr.literals_of_parse`: the literals of a parsed tree.
* `Block.literal_of_parse_error`, `Expr.literal_of_parse_error`: what an invalid literal is.
-/
namespace Sable

/-- A literal, with its value if it has one. -/
abbrev Literal := Span × Option Value

namespace Token

/-- The value of a literal token in a text. -/
def value? (source : List Char) (t : Token) : Option Value :=
  Grammar.literalValue? { tokens := [], source } t

/-- The literals among the tokens. -/
def literals (source : List Char) (ts : List Token) : List Literal :=
  (ts.filter (·.kind.isLiteral)).map fun t => (t.span, t.value? source)

theorem literals_append (source : List Char) (ts us : List Token) :
    literals source (ts ++ us) = literals source ts ++ literals source us := by
  simp [literals]

theorem literals_singleton {source : List Char} {t : Token} (h : t.kind.isLiteral = true) :
    literals source [t] = [(t.span, t.value? source)] := by
  simp [literals, h]

theorem literals_eq_nil {source : List Char} {t : Token} (h : t.kind.isLiteral = false) :
    literals source [t] = [] := by
  simp [literals, h]

end Token

/-- Words and names have values, too, but are no literals. -/
def Value.isLiteral : Value → Bool
  | .integer _ | .float _ | .character _ | .string _ => true
  | .boolean _ | .null | .identifier _ => false

def Node.literal? (n : Node) : Option Literal :=
  match n.head with
  | .value v => if v.isLiteral then some (n.span, some v) else none
  | _ => none

namespace Tree

def literals (t : Tree) : List Literal := t.preorder.filterMap Node.literal?

/-- The literals of trees side by side. -/
def allLiterals (ts : List Tree) : List Literal := ts.flatMap literals

theorem filterMap_preorders (ts : List Tree) :
    (preorders ts).filterMap Node.literal? = allLiterals ts := by
  induction ts with
  | nil => rfl
  | cons t ts ih => rw [preorders, List.filterMap_append, ih]; rfl

theorem literals_node (n : Node) (ts : List Tree) :
    (node n ts).literals = n.literal?.toList ++ allLiterals ts := by
  rw [literals, preorder, ← filterMap_preorders, List.filterMap_cons]
  cases n.literal? <;> rfl

@[simp] theorem allLiterals_nil : allLiterals [] = [] := rfl

@[simp] theorem allLiterals_cons (t : Tree) (ts : List Tree) :
    allLiterals (t :: ts) = t.literals ++ allLiterals ts := rfl

@[simp] theorem allLiterals_append (ts us : List Tree) :
    allLiterals (ts ++ us) = allLiterals ts ++ allLiterals us := List.flatMap_append

end Tree

/-- The position is at a literal without a value, behind tokens of the stream. -/
def TokenStream.Stuck (s p : TokenStream) : Prop :=
  ∃ ts t, s.tokens = ts ++ p.tokens ∧ p.source = s.source ∧ p.first? = some t ∧
    t.kind.isLiteral = true ∧ t.value? s.source = none

/-- Behind the literals `front`, what is accepted at `s` has these and those that have been read, in
order. Nothing is declined for a literal, and one that is rejected has no value. -/
def Reply.Accounts {α : Type} (s : TokenStream) (front : List Literal) (m : α → List Literal) :
    Reply α → Prop
  | .accept x rest => ∃ ts, s.tokens = ts ++ rest.tokens ∧ rest.source = s.source ∧
      m x = front ++ Token.literals s.source ts
  | .decline _ e => e ≠ .literal
  | .reject p e => e = .literal → s.Stuck p

namespace Rule

variable {α β : Type} {front : List Literal} {s p : TokenStream} {e : Expected} {r : Rule α}
  {m : α → List Literal} {l : β → List Literal}

/-- Whatever the rule answers, it loses no literal and invents none. -/
def Accounts (front : List Literal) (r : Rule α) (m : α → List Literal) : Prop :=
  ∀ s, (r s).Accounts s front m

/-- What goes on behind some tokens reads the literals behind them. -/
theorem accounts_of_behind {reply : Reply α} {rest : TokenStream} {ts : List Token}
    {between : List Literal} (htokens : s.tokens = ts ++ rest.tokens)
    (hsource : rest.source = s.source) (hfront : between = front ++ Token.literals s.source ts)
    (h : reply.Accounts rest between m) : reply.Accounts s front m := by
  cases reply with
  | accept x rest' =>
    obtain ⟨us, hus, hsource', hm⟩ := h
    refine ⟨ts ++ us, by rw [htokens, hus, List.append_assoc], hsource'.trans hsource, ?_⟩
    rw [hm, hfront, hsource, Token.literals_append, List.append_assoc]
  | decline => exact h
  | reject p e =>
    intro he
    obtain ⟨us, t, hus, hp, hfirst, hkind, hvalue⟩ := h he
    exact ⟨ts ++ us, t, by rw [htokens, hus, List.append_assoc], hp.trans hsource, hfirst, hkind,
      hsource ▸ hvalue⟩

/-! ## Sequence and choice -/

theorem accounts_accept {x : α} (h : m x = front) : (Reply.accept x s).Accounts s front m :=
  ⟨[], rfl, rfl, by simp [h, Token.literals]⟩

theorem accounts_map {reply : Reply α} {f : α → β} (hf : ∀ x, l (f x) = m x)
    (h : reply.Accounts s front m) : (reply.map f).Accounts s front l := by
  cases reply with
  | accept x rest =>
    obtain ⟨ts, htokens, hsource, hm⟩ := h
    exact ⟨ts, htokens, hsource, (hf x).trans hm⟩
  | decline | reject => exact h

theorem accounts_pure {x : α} (h : m x = front) : (pure x : Rule α).Accounts front m :=
  fun _ => accounts_accept h

theorem Accounts.bind {f : α → Rule β} (hr : r.Accounts front m)
    (hf : ∀ x, (f x).Accounts (m x) l) : (r >>= f).Accounts front l := by
  intro s
  change Reply.Accounts s front l (match r s with
    | .accept x rest => f x rest
    | .decline s e => .decline s e
    | .reject s e => .reject s e)
  have hfirst := hr s
  cases h : r s with
  | accept x rest =>
    rw [h] at hfirst
    obtain ⟨ts, htokens, hsource, hm⟩ := hfirst
    exact accounts_of_behind htokens hsource hm (hf x rest)
  | decline p e | reject p e =>
    rw [h] at hfirst
    exact hfirst

theorem Accounts.map (f : α → β) (hr : r.Accounts front fun x => l (f x)) :
    (f <$> r).Accounts front l :=
  hr.bind fun _ => accounts_pure rfl

theorem accounts_declines (he : e ≠ .literal) : (declines e : Rule α).Accounts front m :=
  fun _ => he

theorem Accounts.orElse {q : Rule α} (hr : r.Accounts front m) (hq : q.Accounts front m) :
    (r <|> q).Accounts front m := by
  intro s
  change (Rule.orElse r (fun _ => q) s).Accounts s front m
  have hfirst := hr s
  unfold Rule.orElse
  split
  · exact hq _
  · exact hfirst

theorem Accounts.optional {m : Option α → List Literal} (hr : r.Accounts front fun x => m (some x))
    (hnone : m none = front) : (Rule.optional r).Accounts front m := by
  intro s
  have h := hr s
  unfold Rule.optional
  split <;> next heq =>
    rw [heq] at h
    first
    | exact h
    | exact accounts_accept hnone

theorem Accounts.required (hr : r.Accounts front m) (he : e ≠ .literal) :
    (Rule.required r e).Accounts front m := by
  intro s
  have h := hr s
  unfold Rule.required
  split
  · exact fun heq => absurd heq he
  · exact h

/-! ## Tokens and nodes -/

/-- One token that is no literal. -/
theorem accounts_tail {x : α} {t : Token} (hfirst : s.first? = some t)
    (hkind : t.kind.isLiteral = false) : (Reply.accept x s.tail).Accounts s front fun _ => front :=
  ⟨[t], TokenStream.tokens_of_first? hfirst, TokenStream.tail_source s, by
    rw [Token.literals_eq_nil hkind, List.append_nil]⟩

theorem accounts_token {kind : TokenKind} (hkind : kind.isLiteral = false) :
    (token kind).Accounts front fun _ => front := by
  intro s
  unfold token
  split
  · next t hfirst =>
    split
    · next ht => exact accounts_tail hfirst (ht ▸ hkind)
    · simp [Reply.Accounts]
  · simp [Reply.Accounts]

theorem accounts_keyword (k : Keyword) : (keyword k).Accounts front fun _ => front :=
  accounts_token rfl

theorem accounts_punctuator (p : Punctuator) : (punctuator p).Accounts front fun _ => front :=
  accounts_token rfl

theorem accounts_expect (p : Punctuator) : (expect p).Accounts front fun _ => front :=
  (accounts_punctuator p).required (by simp)

theorem accounts_identifier : identifier.Accounts front fun _ => front := by
  intro s
  unfold identifier
  split
  · next span text hfirst => exact accounts_tail hfirst rfl
  · simp [Reply.Accounts]

theorem accounts_name : (identifier.required .identifier).Accounts front fun _ => front :=
  accounts_identifier.required (by simp)

theorem accounts_operator {Op : Type} {ofToken? : TokenKind → Option Op}
    (h : ∀ kind op, ofToken? kind = some op → kind.isLiteral = false) :
    (operator ofToken?).Accounts front fun _ => front := by
  intro s
  unfold operator
  split
  · next op hop =>
    obtain ⟨kind, hkind, hop⟩ := Option.bind_eq_some_iff.1 hop
    obtain ⟨t, hfirst, rfl⟩ := Option.map_eq_some_iff.1 hkind
    exact accounts_tail hfirst (h _ _ hop)
  · simp [Reply.Accounts]

theorem accounts_numbered (span : Span) : (numbered span).Accounts front fun _ => front :=
  fun _ => ⟨[], rfl, rfl, by simp [Token.literals]⟩

/-- Wherever the node is placed, it has the same literals. -/
theorem Accounts.located {r : Rule (Place → α)}
    (hr : ∀ place, r.Accounts front fun build => m (build place)) :
    (Rule.located r).Accounts front m := by
  intro s
  unfold Rule.located
  cases heq : r s with
  | accept build rest =>
    have h := hr ⟨rest.nextId, rest.spanSince s⟩ s
    rw [heq] at h
    exact h
  | decline p e | reject p e =>
    have h := hr default s
    rw [heq] at h
    exact h

/-! ## Repetition -/

theorem Accounts.iterate {step : α → Rule α} (hstep : ∀ x, (step x).Accounts (m x) m) (x : α) :
    (Rule.iterate step x).Accounts (m x) m := by
  suffices h : ∀ (bound : List Token) (x : α), (iterateWithin step bound x).Accounts (m x) m from
    fun s => h s.tokens x s
  intro bound
  induction bound with
  | nil => exact fun x => accounts_pure rfl
  | cons _ bound ih =>
    intro x s
    have h := hstep x s
    simp only [iterateWithin]
    split <;> next heq =>
      rw [heq] at h
      first
      | exact h
      | exact accounts_accept rfl
      | obtain ⟨ts, htokens, hsource, hm⟩ := h
        exact accounts_of_behind htokens hsource hm (ih _ _)

theorem Accounts.many (hr : ∀ front, r.Accounts front fun x => front ++ m x)
    (front : List Literal) : (Rule.many r).Accounts front fun xs => front ++ xs.flatMap m := by
  suffices h : ∀ (bound : List Token) (front : List Literal),
      (manyWithin r bound).Accounts front fun xs => front ++ xs.flatMap m from
    fun s => h s.tokens front s
  intro bound
  induction bound with
  | nil =>
    intro front s
    have h := hr front s
    simp only [manyWithin]
    split <;> next heq =>
      rw [heq] at h
      first
      | exact h
      | exact accounts_accept (List.append_nil _)
      | simp [Reply.Accounts]
  | cons _ bound ih =>
    intro front s
    have h := hr front s
    simp only [manyWithin]
    split
    · next x rest heq =>
      rw [heq] at h
      obtain ⟨ts, htokens, hsource, hm⟩ := h
      split
      · simp [Reply.Accounts]
      · exact accounts_map (by simp) (accounts_of_behind htokens hsource hm (ih _ rest))
    · exact accounts_accept (List.append_nil _)
    · next heq =>
      rw [heq] at h
      exact h

theorem Accounts.commaList {element : Rule α} (h : ∀ front, element.Accounts front fun x => front ++ m x)
    (he : e ≠ .literal) (front : List Literal) :
    (Rule.commaList element e).Accounts front fun xs => front ++ xs.flatMap m := by
  intro s
  have hfirst := h front s
  have hmany := Accounts.many (r := do let _ ← punctuator .comma; element.required e)
    fun front => (accounts_punctuator .comma).bind fun _ => (h front).required he
  unfold Rule.commaList
  split
  · next x rest heq =>
    rw [heq] at hfirst
    obtain ⟨ts, htokens, hsource, hm⟩ := hfirst
    exact accounts_map (by simp) (accounts_of_behind htokens hsource hm (hmany _ rest))
  · exact accounts_accept (List.append_nil _)
  · next heq =>
    rw [heq] at hfirst
    exact hfirst

/-- The literals that the rule reads are those of the trees that it accepts. -/
def ReadsLiterals (r : Rule α) (trees : α → List Tree) : Prop :=
  ∀ front, r.Accounts front fun x => front ++ Tree.allLiterals (trees x)

theorem ReadsLiterals.many {trees : α → List Tree} (hr : r.ReadsLiterals trees) :
    (Rule.many r).ReadsLiterals fun xs => xs.flatMap trees := by
  intro front s
  have h := Accounts.many hr front s
  simpa only [Tree.allLiterals, List.flatMap_assoc] using h

theorem ReadsLiterals.commaList {trees : α → List Tree} (hr : r.ReadsLiterals trees)
    (he : e ≠ .literal) : (Rule.commaList r e).ReadsLiterals fun xs => xs.flatMap trees := by
  intro front s
  have h := Accounts.commaList hr he front s
  simpa only [Tree.allLiterals, List.flatMap_assoc] using h

end Rule

namespace Grammar

open Rule

variable {front : List Literal} {s : TokenStream}

/-! ## Types -/

theorem accounts_writtenType : writtenType.Accounts front fun _ => front := by
  have hstar : ∀ front, (punctuator .star).Accounts front fun _ => front ++ [] := fun front => by
    simpa using accounts_punctuator .star
  have hstars := Accounts.many hstar
  refine .located fun _ => accounts_identifier.bind fun _ => (hstars _).bind fun _ => ?_
  exact accounts_pure (by simp)

theorem accounts_annotatedType : typeAnnotation.Accounts front fun _ => front :=
  (accounts_punctuator _).bind fun _ => accounts_writtenType.required (by simp)

/-! ## Values -/

theorem spanSince_tail {t : Token} (h : s.first? = some t) : s.tail.spanSince s = t.span := by
  have htokens := TokenStream.tokens_of_first? h
  rw [TokenStream.spanSince, h, TokenStream.tail_start h, Nat.add_sub_cancel_left, htokens]
  simp [Span.merge]

/-- A value that stands for one token. -/
theorem accounts_constant {t : Token} {v : Value} (hfirst : s.first? = some t)
    (hv : Token.literals s.source [t] = if v.isLiteral then [(t.span, some v)] else []) :
    (constant v s).Accounts s front fun e => front ++ Tree.allLiterals [e.tree] := by
  refine ⟨[t], TokenStream.tokens_of_first? hfirst, TokenStream.tail_source s, ?_⟩
  have hspan := spanSince_tail hfirst
  rw [hv]
  cases hliteral : v.isLiteral <;>
    simp [Expr.tree, Tree.literals_node, Node.literal?, Node.span, hliteral, hspan]

theorem accounts_literal {t : Token} (hfirst : s.first? = some t) (hkind : t.kind.isLiteral = true) :
    (literal t s).Accounts s front fun e => front ++ Tree.allLiterals [e.tree] := by
  have hvalue : t.value? s.source = literalValue? s t := rfl
  unfold literal
  split
  · next v hv =>
    have hliteral : v.isLiteral = true := by
      unfold literalValue? at hv
      split at hv
      all_goals try rename_i hkind
      all_goals try simp only [hkind, numberValue?] at hv
      all_goals first
        | obtain ⟨n, -, rfl⟩ := Option.map_eq_some_iff.1 hv
          rfl
        | simp at hv
    refine accounts_constant hfirst ?_
    rw [Token.literals_singleton hkind, hvalue, hv, if_pos hliteral]
  · next hv => exact fun _ => ⟨[], t, rfl, rfl, hfirst, hkind, hvalue.trans hv⟩

/-! ## Expressions -/

theorem readsLiterals_variableName : variableName.ReadsLiterals fun e => [e.tree] := by
  intro front
  refine .located fun place => accounts_identifier.bind fun name => accounts_pure ?_
  simp [Expr.tree, Tree.literals_node, Node.literal?, Value.isLiteral]

section

variable {nested : Rule Expr} (hnested : nested.ReadsLiterals fun e => [e.tree])

include hnested

theorem readsLiterals_grouped : (grouped nested).ReadsLiterals fun e => [e.tree] := fun front =>
  (accounts_punctuator _).bind fun _ => ((hnested front).required (by simp)).bind fun _ =>
    (accounts_expect _).bind fun _ => accounts_pure rfl

theorem readsLiterals_value : (value nested).ReadsLiterals fun e => [e.tree] := by
  intro front s
  unfold value
  split
  · simp [Reply.Accounts]
  · next t hfirst =>
    have hword : ∀ {v : Value}, t.kind.isLiteral = false → v.isLiteral = false →
        (constant v s).Accounts s front fun e => front ++ Tree.allLiterals [e.tree] :=
      fun hkind hv => accounts_constant hfirst (by rw [Token.literals_eq_nil hkind, hv]; rfl)
    split
    · next hkind => exact accounts_literal hfirst (by rw [hkind]; rfl)
    · next hkind => exact accounts_literal hfirst (by rw [hkind]; rfl)
    · next hkind => exact accounts_literal hfirst (by rw [hkind]; rfl)
    · next hkind => exact accounts_literal hfirst (by rw [hkind]; rfl)
    · next hkind => exact hword (by rw [hkind]; rfl) rfl
    · next hkind => exact hword (by rw [hkind]; rfl) rfl
    · next hkind => exact hword (by rw [hkind]; rfl) rfl
    · exact readsLiterals_variableName front s
    · exact readsLiterals_grouped hnested front s
    · simp [Reply.Accounts]

/-- Behind an operand, the operand's literals are those in front. -/
theorem accounts_suffix (operand : Expr) :
    (suffix nested operand).Accounts (front ++ Tree.allLiterals [operand.tree])
      fun e => front ++ Tree.allLiterals [e.tree] := by
  have haccess : ∀ kind, (access kind operand).Accounts (front ++ Tree.allLiterals [operand.tree])
      fun e => front ++ Tree.allLiterals [e.tree] := fun kind =>
    (accounts_punctuator _).bind fun _ => accounts_name.bind fun _ =>
      (accounts_numbered _).bind fun _ => accounts_pure (by
        simp [Expr.tree, Tree.literals_node, Node.literal?])
  refine (haccess .dot).orElse ((haccess .arrow).orElse (.orElse ?_ (.orElse ?_ ?_)))
  · refine (accounts_punctuator _).bind fun _ => (hnested.commaList (by simp) _).bind fun args => ?_
    refine (accounts_expect _).bind fun _ => (accounts_numbered _).bind fun _ => accounts_pure ?_
    simp [Expr.tree, Expr.trees_eq_map, Tree.literals_node, Node.literal?,
      List.map_eq_flatMap]
  · refine (accounts_keyword _).bind fun _ => (accounts_writtenType.required (by simp)).bind fun _ => ?_
    refine (accounts_numbered _).bind fun _ => accounts_pure ?_
    simp [Expr.tree, WrittenType.tree, Tree.literals_node, Node.literal?]
  · refine (accounts_punctuator _).bind fun _ => ((hnested _).required (by simp)).bind fun _ => ?_
    refine (accounts_expect _).bind fun _ => (accounts_numbered _).bind fun _ => accounts_pure ?_
    simp [Expr.tree, Tree.literals_node, Node.literal?]

theorem readsLiterals_postfixed : (postfixed nested).ReadsLiterals fun e => [e.tree] := fun front =>
  (readsLiterals_value hnested front).bind fun operand =>
    Accounts.iterate (m := fun e : Expr => front ++ Tree.allLiterals [e.tree])
      (accounts_suffix hnested) operand

/-! ## Operators -/

theorem readsLiterals_unaryWithin (bound : List Token) :
    (unaryWithin nested bound).ReadsLiterals fun e => [e.tree] := by
  induction bound with
  | nil => exact readsLiterals_postfixed hnested
  | cons _ bound ih =>
    intro front
    refine Accounts.orElse (.located fun _ => ?_) (readsLiterals_postfixed hnested front)
    refine (accounts_operator fun kind op hop => ?_).bind fun _ =>
      ((ih front).required (by simp)).bind fun _ => accounts_pure ?_
    · rw [UnaryOp.eq_punctuator_of_ofToken? hop]
      rfl
    · simp [Expr.tree, Tree.literals_node, Node.literal?]

theorem readsLiterals_unary : (unary nested).ReadsLiterals fun e => [e.tree] :=
  fun front s => readsLiterals_unaryWithin hnested s.tokens front s

omit hnested in
theorem accounts_binaryRest {p : BinaryOp → Bool} {operand : Rule Expr}
    (hoperand : operand.ReadsLiterals fun e => [e.tree]) (left : Expr) :
    (binaryRest p operand left).Accounts (front ++ Tree.allLiterals [left.tree])
      fun e => front ++ Tree.allLiterals [e.tree] := by
  refine (accounts_operator fun kind op hop => ?_).bind fun _ =>
    ((hoperand _).required (by simp)).bind fun _ => (accounts_numbered _).bind fun _ =>
      accounts_pure ?_
  · obtain ⟨hop, -⟩ := Option.filter_eq_some_iff.1 hop
    rw [BinaryOp.eq_punctuator_of_ofToken? hop]
    rfl
  · simp [Expr.tree, Tree.literals_node, Node.literal?]

theorem readsLiterals_binaryWithin (levels : Nat) :
    (binaryWithin nested levels).ReadsLiterals fun e => [e.tree] := by
  induction levels with
  | zero => exact readsLiterals_unary hnested
  | succ levels ih =>
    exact fun front => (ih front).bind fun left =>
      Accounts.iterate (m := fun e : Expr => front ++ Tree.allLiterals [e.tree])
        (accounts_binaryRest ih) left

theorem readsLiterals_assignment : (assignment nested).ReadsLiterals fun e => [e.tree] :=
  fun front => (readsLiterals_binaryWithin hnested _ front).bind fun left =>
    (accounts_binaryRest hnested left).orElse (accounts_pure rfl)

end

theorem readsLiterals_expressionWithin (bound : List Token) :
    (expressionWithin bound).ReadsLiterals fun e => [e.tree] := by
  induction bound with
  | nil => exact fun front => accounts_declines (by simp)
  | cons _ bound ih => exact readsLiterals_assignment ih

theorem readsLiterals_expression : expression.ReadsLiterals fun e => [e.tree] :=
  fun front s => readsLiterals_expressionWithin s.tokens front s

/-! ## Statements -/

theorem readsLiterals_optionalExpression :
    (optional expression).ReadsLiterals Expr.optionTrees := fun front =>
  Accounts.optional (by simpa [Expr.optionTrees] using readsLiterals_expression front)
    (by simp [Expr.optionTrees])

theorem readsLiterals_variableDecl : variableDecl.ReadsLiterals fun d => [d.tree] := by
  intro front
  refine .located fun _ => (accounts_keyword _).bind fun _ => accounts_name.bind fun _ => ?_
  refine (accounts_annotatedType.required (by simp)).bind fun _ => ?_
  refine Accounts.bind (m := fun e => front ++ Tree.allLiterals (Expr.optionTrees e)) ?_ fun _ =>
    accounts_pure ?_
  · refine .optional ((accounts_punctuator _).bind fun _ => ?_) (by simp [Expr.optionTrees])
    simpa [Expr.optionTrees] using (readsLiterals_expression front).required (by simp)
  · simp [VariableDecl.tree, WrittenType.tree, Tree.literals_node, Node.literal?]

theorem readsLiterals_simpleStmt : simpleStmt.ReadsLiterals fun t => [t.tree] := by
  intro front
  refine .orElse ?_ (.orElse ?_ (.orElse ?_ (.orElse ?_ (.orElse ?_ (.orElse ?_ ?_)))))
  · refine .located fun _ => (accounts_keyword _).bind fun _ => accounts_name.bind fun _ => ?_
    exact accounts_pure (by simp [Stmt.tree, Tree.literals_node, Node.literal?])
  · refine .located fun _ => (accounts_keyword _).bind fun _ => accounts_name.bind fun _ => ?_
    exact accounts_pure (by simp [Stmt.tree, Tree.literals_node, Node.literal?])
  · refine .located fun _ => (accounts_keyword _).bind fun _ =>
      (readsLiterals_optionalExpression front).bind fun _ => accounts_pure ?_
    simp [Stmt.tree, Tree.literals_node, Node.literal?]
  · refine .located fun _ => (accounts_keyword _).bind fun _ => accounts_pure ?_
    simp [Stmt.tree, Tree.literals_node, Node.literal?]
  · refine .located fun _ => (accounts_keyword _).bind fun _ => accounts_pure ?_
    simp [Stmt.tree, Tree.literals_node, Node.literal?]
  · exact .map _ (by simpa [Stmt.tree] using readsLiterals_variableDecl front)
  · exact .map _ (by simpa [Stmt.tree] using readsLiterals_expression front)

theorem readsLiterals_condition : condition.ReadsLiterals fun e => [e.tree] := fun front =>
  (accounts_expect _).bind fun _ => ((readsLiterals_expression front).required (by simp)).bind
    fun _ => (accounts_expect _).bind fun _ => accounts_pure rfl

theorem readsLiterals_forInit : forInit.ReadsLiterals ForInit.trees := by
  intro front
  refine .orElse (.map _ ?_) (.orElse (.map _ ?_) (accounts_pure (by simp [ForInit.trees])))
  · simpa [ForInit.trees] using readsLiterals_variableDecl front
  · simpa [ForInit.trees] using readsLiterals_expression front

section

variable {scope : Rule Scope} {branch : Rule Branch}
  (hscope : scope.ReadsLiterals fun s => [s.tree]) (hbranch : branch.ReadsLiterals fun b => [b.tree])

include hscope

theorem readsLiterals_whileStmt : (whileStmt scope).ReadsLiterals fun t => [t.tree] := by
  intro front
  refine .located fun _ => (accounts_keyword _).bind fun _ => (readsLiterals_condition front).bind
    fun _ => ((hscope _).required (by simp)).bind fun _ => accounts_pure ?_
  simp [Stmt.tree, Tree.literals_node, Node.literal?]

theorem readsLiterals_forStmt : (forStmt scope).ReadsLiterals fun t => [t.tree] := by
  intro front
  refine .located fun _ => (accounts_keyword _).bind fun _ => (accounts_expect _).bind fun _ => ?_
  refine (readsLiterals_forInit front).bind fun _ => (accounts_expect _).bind fun _ => ?_
  refine (readsLiterals_optionalExpression _).bind fun _ => (accounts_expect _).bind fun _ => ?_
  refine (readsLiterals_optionalExpression _).bind fun _ => (accounts_expect _).bind fun _ => ?_
  refine ((hscope _).required (by simp)).bind fun _ => accounts_pure ?_
  simp [Stmt.tree, Tree.literals_node, Node.literal?]

include hbranch

theorem readsLiterals_otherwise : (otherwise scope branch).ReadsLiterals Otherwise.trees := by
  intro front
  refine (accounts_keyword _).bind fun _ => .required (.orElse (.map _ ?_) (.map _ ?_)) (by simp)
  · simpa [Otherwise.trees] using hbranch front
  · simpa [Otherwise.trees] using hscope front

theorem readsLiterals_branchOf : (branchOf scope branch).ReadsLiterals fun b => [b.tree] := by
  intro front
  refine .located fun _ => (accounts_keyword _).bind fun _ => (readsLiterals_condition front).bind
    fun _ => ((hscope _).required (by simp)).bind fun _ => ?_
  refine Accounts.bind (m := fun rest : Option Otherwise =>
    _ ++ Tree.allLiterals (rest.getD .nothing).trees) (.optional
      (readsLiterals_otherwise hscope hbranch _) (by simp [Otherwise.trees])) fun rest =>
    accounts_pure ?_
  simp [Branch.tree, Tree.literals_node, Node.literal?]

theorem readsLiterals_statementOf : (statementOf scope branch).ReadsLiterals fun t => [t.tree] := by
  intro front
  refine .orElse (.map _ ?_) (.orElse (readsLiterals_whileStmt hscope front)
    (.orElse (readsLiterals_forStmt hscope front) ?_))
  · simpa [Stmt.tree] using hbranch front
  · exact (readsLiterals_simpleStmt front).bind fun _ => (accounts_expect _).bind fun _ =>
      accounts_pure rfl

end

theorem readsLiterals_scopeOf {statement : Rule Stmt}
    (hstatement : statement.ReadsLiterals fun t => [t.tree]) :
    (scopeOf statement).ReadsLiterals fun s => [s.tree] := by
  intro front
  refine .located fun _ => (accounts_punctuator _).bind fun _ => (hstatement.many front).bind
    fun _ => (accounts_expect _).bind fun _ => accounts_pure ?_
  simp [Scope.tree, Stmt.trees_eq_map, List.map_eq_flatMap, Tree.literals_node, Node.literal?]

theorem readsLiterals_scopeWithin_branchWithin (bound : List Token) :
    (scopeWithin bound).ReadsLiterals (fun s => [s.tree]) ∧
      (branchWithin bound).ReadsLiterals fun b => [b.tree] := by
  induction bound with
  | nil => exact ⟨fun _ => accounts_declines (by simp), fun _ => accounts_declines (by simp)⟩
  | cons _ bound ih =>
    obtain ⟨hscope, hbranch⟩ := ih
    exact ⟨readsLiterals_scopeOf (readsLiterals_statementOf hscope hbranch),
      readsLiterals_branchOf hscope hbranch⟩

theorem readsLiterals_scope : scope.ReadsLiterals fun s => [s.tree] :=
  fun front s => (readsLiterals_scopeWithin_branchWithin s.tokens).1 front s

/-! ## Declarations -/

theorem readsLiterals_parameter : parameter.ReadsLiterals fun d => [d.tree] := by
  intro front
  refine .located fun _ => accounts_identifier.bind fun _ =>
    (accounts_annotatedType.required (by simp)).bind fun _ => accounts_pure ?_
  simp [Parameter.tree, WrittenType.tree, Tree.literals_node, Node.literal?]

theorem readsLiterals_functionDecl : functionDecl.ReadsLiterals fun d => [d.tree] := by
  intro front
  refine .located fun _ => (accounts_keyword _).bind fun _ => accounts_name.bind fun _ => ?_
  refine (accounts_expect _).bind fun _ =>
    (readsLiterals_parameter.commaList (by simp) front).bind fun params => ?_
  refine (accounts_expect _).bind fun _ => Accounts.bind (m := fun _ => _)
    (.optional accounts_annotatedType rfl) fun returns => ?_
  refine ((readsLiterals_scope _).required (by simp)).bind fun _ => accounts_pure ?_
  have htypes : Tree.allLiterals (returns.toList.flatMap fun t => [t.tree]) = [] := by
    cases returns <;> simp [WrittenType.tree, Tree.literals_node, Node.literal?]
  simp [FunctionDecl.tree, Tree.literals_node, Node.literal?, htypes, List.map_eq_flatMap]

theorem readsLiterals_variableLine : variableLine.ReadsLiterals fun d => [d.tree] := fun front =>
  (readsLiterals_variableDecl front).bind fun _ => (accounts_expect _).bind fun _ =>
    accounts_pure rfl

theorem readsLiterals_member : member.ReadsLiterals fun m => [m.tree] := fun front =>
  .orElse (.map _ (readsLiterals_variableLine front)) (.map _ (readsLiterals_functionDecl front))

theorem readsLiterals_classDecl : classDecl.ReadsLiterals fun d => [d.tree] := by
  intro front
  refine .located fun _ => (accounts_keyword _).bind fun _ => accounts_name.bind fun _ => ?_
  refine (accounts_expect _).bind fun _ => (readsLiterals_member.many front).bind fun _ => ?_
  refine (accounts_expect _).bind fun _ => accounts_pure ?_
  simp [ClassDecl.tree, List.map_eq_flatMap, Tree.literals_node, Node.literal?]

theorem readsLiterals_declaration : declaration.ReadsLiterals fun d => [d.tree] := fun front =>
  .orElse (.map _ (readsLiterals_classDecl front)) (.orElse
    (.map _ (readsLiterals_functionDecl front)) (.map _ (readsLiterals_variableLine front)))

theorem readsLiterals_declarationsWithin (bound : List Token) :
    (declarationsWithin bound).ReadsLiterals fun ds => ds.map Declaration.tree := by
  induction bound with
  | nil => exact fun front => accounts_pure (List.append_nil _)
  | cons _ bound ih =>
    intro front s
    have h := (readsLiterals_declaration front).required (e := .declaration) (by simp) s
    simp only [declarationsWithin]
    split
    · exact accounts_accept (List.append_nil _)
    · split <;> next heq =>
        rw [heq] at h
        first
        | exact h
        | obtain ⟨ts, htokens, hsource, hm⟩ := h
          exact accounts_map (by simp) (accounts_of_behind htokens hsource hm (ih _ _))

theorem readsLiterals_block : block.ReadsLiterals fun b => [b.tree] := by
  intro front
  refine .located fun place s => ?_
  exact accounts_map (by simp [Block.tree, Tree.literals_node, Node.literal?])
    (readsLiterals_declarationsWithin s.tokens front s)

end Grammar

/-! ## Parsing -/

namespace Token

variable {source : List Char} {ts : List Token} {t : Token}

theorem literals_significant (source : List Char) (ts : List Token) :
    literals source (significant ts) = literals source ts := by
  rw [literals, literals, significant, List.filter_filter]
  congr 2
  funext t
  cases hkind : t.kind <;> simp [isTrivia, hkind, TokenKind.isLiteral, TokenKind.isTrivia]

theorem mem_literals (ht : t ∈ ts) (hkind : t.kind.isLiteral = true) :
    (t.span, t.value? source) ∈ literals source ts :=
  List.mem_map.2 ⟨t, List.mem_filter.2 ⟨ht, hkind⟩, rfl⟩

theorem literals_tokenize (lexer : Lexer) (source : String) :
    literals source.toList (lexer.tokenize source) =
      literals source.toList (beforeEof (lexer.tokenize source)) := by
  obtain ⟨tokens, hcuts, htokens⟩ := lexer.exists_tokenize_eq source
  rw [htokens, hcuts.covers.beforeEof_eq, literals_append]
  simp [literals, Token.eof, TokenKind.isLiteral]

end Token

section

variable {lexer : Lexer} {source : String} {tokens : List Token} {span : Span}

/-- What is read up to the end has the literals in front of the end. -/
theorem Rule.literals_of_accept {α : Type} {r : Rule α} {x : α} {rest : TokenStream} {ts : List Token}
    {trees : α → List Tree} (hr : r.ReadsLiterals trees)
    (h : r (.ofTokens (Token.significant tokens) source) = .accept x rest) (hend : rest.atEnd)
    (hadv : (TokenStream.ofTokens (Token.significant tokens) source).Advances ts (trees x) rest) :
    Tree.allLiterals (trees x) = Token.literals source.toList (Token.beforeEof tokens) := by
  have haccounts := hr [] (.ofTokens (Token.significant tokens) source)
  rw [h] at haccounts
  obtain ⟨us, hus, -, hm⟩ := haccounts
  obtain rfl : us = ts := List.append_cancel_right (hus.symm.trans hadv.tokens_eq)
  have hall : Token.beforeEof (Token.significant tokens) = us := hadv.beforeEof_eq hend
  rw [← Token.literals_significant, Token.significant_beforeEof, hall]
  exact hm

theorem ParseError.ofPosition_eq_invalidLiteral {p : TokenStream} {e : Expected}
    (h : ParseError.ofPosition p e = .invalidLiteral span) : e = .literal ∧ p.currentSpan = span := by
  unfold ParseError.ofPosition at h
  split at h
  · next he => exact ⟨he, ParseError.invalidLiteral.inj h⟩
  · split at h <;> simp at h

/-- What is rejected for a literal is one without a value. -/
theorem Rule.literal_of_result {α : Type} {r : Rule α} {trees : α → List Tree}
    (hr : r.ReadsLiterals trees)
    (h : (r (.ofTokens (Token.significant tokens) source)).result = .error (.invalidLiteral span)) :
    ∃ t ∈ tokens, t.kind.isLiteral = true ∧ t.span = span ∧ t.value? source.toList = none := by
  have haccounts := hr [] (.ofTokens (Token.significant tokens) source)
  cases hreply : r (.ofTokens (Token.significant tokens) source) with
  | accept x rest => simp [hreply, Reply.result] at h
  | decline p e =>
    rw [hreply] at h haccounts
    exact absurd (ParseError.ofPosition_eq_invalidLiteral (Except.error.inj h)).1 haccounts
  | reject p e =>
    rw [hreply] at h haccounts
    obtain ⟨he, hspan⟩ := ParseError.ofPosition_eq_invalidLiteral (Except.error.inj h)
    obtain ⟨ts, t, hts, -, hfirst, hkind, hvalue⟩ := haccounts he
    have hmem : t ∈ Token.significant tokens := by
      have hall : Token.significant tokens = ts ++ p.tokens := hts
      rw [hall, TokenStream.tokens_of_first? hfirst]
      simp
    refine ⟨t, List.mem_of_mem_filter hmem, hkind, ?_, hvalue⟩
    rw [← hspan, TokenStream.currentSpan, hfirst]
    rfl

/-- The literals of a parsed unit are the literal tokens of its text. -/
theorem Block.literals_of_parse {b : Block}
    (h : Block.parse (lexer.tokenize source) source = .ok b) :
    b.tree.literals = Token.literals source.toList (lexer.tokenize source) := by
  obtain ⟨rest, hb⟩ := Block.accept_of_parse h
  obtain ⟨⟨ts, -, hadv⟩, hend⟩ := Grammar.block_phrases hb
  have hliterals := Rule.literals_of_accept Grammar.readsLiterals_block hb hend hadv
  rw [Token.literals_tokenize, ← hliterals]
  simp

theorem Expr.literals_of_parse {e : Expr} (h : Expr.parse (lexer.tokenize source) source = .ok e) :
    e.tree.literals = Token.literals source.toList (lexer.tokenize source) := by
  obtain ⟨rest, he, hend⟩ := Expr.accept_of_parse h
  obtain ⟨ts, -, hadv⟩ := Grammar.yields_expression.required.advances he
  have hreads : (Grammar.expression.required .expression).ReadsLiterals fun e => [e.tree] :=
    fun front => (Grammar.readsLiterals_expression front).required (by simp)
  have hliterals := Rule.literals_of_accept hreads he hend hadv
  rw [Token.literals_tokenize, ← hliterals]
  simp

theorem Block.literal_of_parse_error
    (h : Block.parse tokens source = .error (.invalidLiteral span)) :
    ∃ t ∈ tokens, t.kind.isLiteral = true ∧ t.span = span ∧ t.value? source.toList = none := by
  refine Rule.literal_of_result Grammar.readsLiterals_block ?_
  unfold Block.parse at h
  cases hresult : (Grammar.block (.ofTokens (Token.significant tokens) source)).result with
  | ok x => simp [hresult, Except.map] at h
  | error e =>
    rw [hresult] at h
    exact congrArg _ (Except.error.inj h)

theorem Expr.literal_of_parse_error
    (h : Expr.parse tokens source = .error (.invalidLiteral span)) :
    ∃ t ∈ tokens, t.kind.isLiteral = true ∧ t.span = span ∧ t.value? source.toList = none := by
  have hreads : (Grammar.expression.required .expression).ReadsLiterals fun e => [e.tree] :=
    fun front => (Grammar.readsLiterals_expression front).required (by simp)
  refine Rule.literal_of_result hreads ?_
  unfold Expr.parse at h
  cases hresult : ((Grammar.expression.required .expression)
      (.ofTokens (Token.significant tokens) source)).result with
  | ok x =>
    simp only [hresult, bind, Except.bind] at h
    split at h
    · simp [pure, Except.pure] at h
    · -- behind an expression, an end is looked for and no literal
      simp only [throw, throwThe, MonadExceptOf.throw] at h
      exact absurd (ParseError.ofPosition_eq_invalidLiteral (Except.error.inj h)).1 (by simp)
  | error e =>
    simp only [hresult, bind, Except.bind] at h
    exact congrArg _ (Except.error.inj h)

end

end Sable
