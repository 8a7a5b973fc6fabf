import Sable.Proofs.Grammar.Predicting

/-!
# Errors are found at the first wrong token

The grammar looks one token ahead, rule by rule, and whatever it has read can be completed. So the
token of a parse error is the first one that no unit has there: the same tokens up to it are
always rejected there, and those in front of it begin some unit.

## Main definitions

* `Token.EndsOnce`: the end of input stands at the end, and nowhere else.

## Main statements

* `Grammar.predictive_scope_branch`, `Grammar.predictive_declaration`: the rules.
* `Block.parse_error_first`: the place of a parse error.
-/
namespace Sable

open TokenStream Token Rule Phrases

/-- What may stand behind a condition, which goes on only with an `else`. -/
abbrev EndsBranch (k : TokenKind) : Prop := k ≠ .keyword .elseWord

namespace Grammar

variable {n : Nat} {K : TokenKind → Prop}

theorem nil_notMem_variableDecl (source : List Char) (d : VariableDecl) :
    [] ∉ d.phrases source := by
  simp [VariableDecl.phrases, nil_mem_mul, nil_notMem_word]

theorem predictive_variableDecl (n : Nat) :
    variableDecl.Predictive n (fun _ => False) Closes := by
  have hinitializer : (optional (do
      let _ ← punctuator .assign
      expression.required .expression)).Completable n (fun k => False ∨ Closes k) Closes :=
    ((predictive_punctuator _ n).after (progresses_punctuator _) fun _ =>
      completable_expression n).optional ((declinesOn_token (by decide)).bind _)
  exact .located ((predictive_keyword _ n).after (progresses_keyword _) fun _ =>
    (completable_identifier (by simp) n).after (progresses_identifier.required _) fun _ =>
    (completable_annotatedType (by simp) n).bind
      (fun _ => hinitializer.bind (fun _ => completable_pure _) (by simp) (.inr fun _ hk => hk)
        (.inr fun _ => .inr))
      (by simp) (.inr fun _ hk => hk) (.inl (progresses_annotatedType.required _)))
    (.of_located (yields_variableDecl.progresses nil_notMem_variableDecl))

/-! ## Statements that end in a semicolon -/

/-- A word and a name. -/
theorem predictive_named (k : Keyword) (make : Place → Ident → Stmt) (n : Nat) :
    (located do
      let _ ← keyword k
      let name ← identifier.required .identifier
      return fun place => make place name : Rule Stmt).Predictive n (fun _ => False) K :=
  .located ((predictive_keyword _ n).after (progresses_keyword _) fun _ =>
      (completable_identifier (by simp) n).after (progresses_identifier.required _) fun _ =>
      completable_pure _)
    ((progresses_keyword _).bind fun _ => (progresses_identifier.shrinks.required _).bind fun _ =>
      shrinks_pure _)

theorem predictive_bareWord (k : Keyword) (make : Place → Stmt) (n : Nat) :
    (located do
      let _ ← keyword k
      return make : Rule Stmt).Predictive n (fun _ => False) K :=
  .located ((predictive_keyword _ n).after (progresses_keyword _) fun _ => completable_pure _)
    ((progresses_keyword _).bind fun _ => shrinks_pure _)

theorem declinesOn_word {α : Type} (k : Keyword) (f : Token → Rule (Place → α))
    {K : TokenKind → Prop} (hK : ¬ K (.keyword k)) : (located (keyword k >>= f)).DeclinesOn K :=
  .located ((declinesOn_token hK).bind f)

theorem progresses_word {α : Type} (k : Keyword) (f : Token → Rule (Place → α))
    (hf : ∀ t, (f t).Shrinks) : (located (keyword k >>= f)).Progresses :=
  .located ((progresses_keyword k).bind hf)

theorem progresses_expression : expression.Progresses := progresses_nested yields_expression

theorem completable_optional_expression (n : Nat) :
    (optional expression).Completable n (fun k => k = .identifier ∨ Closes k) Closes :=
  (predictive_expression n).optional declinesOn_expression

theorem predictive_returnStmt (n : Nat) : returnStmt.Predictive n (fun _ => False) Closes :=
  .located ((predictive_keyword _ n).after (progresses_keyword _) fun _ =>
      (completable_optional_expression n).bind (fun _ => completable_pure _) (fun _ hk => hk)
        (.inr fun _ hk => hk) (.inr fun _ => .inr))
    ((progresses_keyword _).bind fun _ => yields_expression.optional.shrinks.bind fun _ =>
      shrinks_pure _)

/-- An alternative that a word of its own begins, in front of others. -/
theorem predictive_word_orElse {α : Type} {k : Keyword} {f : Token → Rule (Place → α)} {q : Rule α}
    {first : TokenKind → Prop}
    (hr : (located (keyword k >>= f)).Predictive n (fun _ => False) K ∧
      (located (keyword k >>= f)).Progresses)
    (hq : q.Predictive n first K ∧ q.Progresses) (hfirst : ¬ first (.keyword k)) :
    (located (keyword k >>= f) <|> q).Predictive n first K ∧
      (located (keyword k >>= f) <|> q).Progresses :=
  ⟨hr.1.orElse_of_progresses hq.1 (declinesOn_word k f hfirst) hq.2, hr.2.orElse hq.2⟩

theorem predictive_simpleStmt (n : Nat) :
    simpleStmt.Predictive n (· = .identifier) Closes ∧ simpleStmt.Progresses := by
  have hname : (identifier.required .identifier).Shrinks := progresses_identifier.shrinks.required _
  have hvariable : (Stmt.variable <$> variableDecl).DeclinesOn (· = .identifier) :=
    (declinesOn_word _ _ (by decide)).map _
  have hexpression := progresses_expression.map Stmt.expr
  refine predictive_word_orElse ⟨predictive_named _ _ n,
    progresses_word _ _ fun _ => hname.bind fun _ => shrinks_pure _⟩ ?_ (by decide)
  refine predictive_word_orElse ⟨predictive_named _ _ n,
    progresses_word _ _ fun _ => hname.bind fun _ => shrinks_pure _⟩ ?_ (by decide)
  refine predictive_word_orElse ⟨predictive_returnStmt n,
    progresses_word _ _ fun _ => yields_expression.optional.shrinks.bind fun _ =>
      shrinks_pure _⟩ ?_ (by decide)
  refine predictive_word_orElse ⟨predictive_bareWord _ _ n,
    progresses_word _ _ fun _ => shrinks_pure _⟩ ?_ (by decide)
  refine predictive_word_orElse ⟨predictive_bareWord _ _ n,
    progresses_word _ _ fun _ => shrinks_pure _⟩ ?_ (by decide)
  exact ⟨((predictive_variableDecl n).map _).orElse_of_progresses
      ((predictive_expression n).map Stmt.expr) hvariable hexpression,
    .orElse ((yields_variableDecl.progresses nil_notMem_variableDecl).map _) hexpression⟩

/-! ## Conditions and loops -/

theorem completable_condition (n : Nat) :
    condition.Completable n (· = .punctuator .openParen) fun _ => True :=
  (completable_expect _ n).after (progresses_expect _) fun _ =>
    (completable_expression n).closed rfl (.inl (progresses_expression.required _))
      (fun _ _ => completable_pure _) fun _ _ => shrinks_pure _

theorem progresses_condition : condition.Progresses :=
  yields_condition.progresses fun _ _ => by simp [nil_mem_mul, nil_notMem_sign]

theorem completable_forInit (n : Nat) :
    forInit.Completable n (fun k => k = .identifier ∨ Closes k) Closes := by
  have hvariable : ∀ {K : TokenKind → Prop}, ¬ K (.keyword .varWord) →
      (ForInit.variable <$> variableDecl).DeclinesOn K :=
    fun hK => (declinesOn_word _ _ hK).map _
  have hexpression := declinesOn_expression.map ForInit.expr
  have hrest : ((ForInit.expr <$> expression) <|> pure ForInit.nothing).Predictive n
      (fun k => k = .identifier ∨ Closes k) Closes :=
    ((predictive_expression n).map _).orElse (completable_pure _).predictive hexpression
      (.inr hexpression)
  refine ⟨?_, firm_forInit, ?_⟩
  · exact (((predictive_variableDecl n).map _).orElse hrest (hvariable (by decide))
      (.inr (hvariable (by decide)))).mono (by simp) fun _ hk => hk
  · exact (((completable_pure (n := 0) _).sampled.orElse hexpression).orElse
      (hvariable (by decide))).mono (fun _ => .inr) fun _ hk => hk

/-- Statements up to a closing brace. -/
theorem completable_statements {statement : Rule Stmt}
    (h : statement.Predictive n (· = .identifier) EndsBranch) (hprogress : statement.Progresses)
    (hdeclines : statement.DeclinesOn (· = .punctuator .closeBrace)) :
    (many statement).Completable n (fun k => k = .identifier ∨ k = .punctuator .closeBrace)
      (· = .punctuator .closeBrace) :=
  h.many hprogress (by rintro _ (rfl | rfl) <;> simp) hdeclines

theorem nil_notMem_scope (source : List Char) (b : Scope) : [] ∉ b.phrases source := by
  cases b
  simp [Scope.phrases, nil_mem_mul, nil_notMem_sign]

theorem nil_notMem_branch (source : List Char) (b : Branch) : [] ∉ b.phrases source := by
  cases b
  simp [Branch.phrases, nil_mem_mul, nil_notMem_word]

section

variable {scope : Rule Scope} {branch : Rule Branch}
  (hyields : scope.Yields (fun b => [b.tree]) fun source b => b.phrases source)
  (hyields' : branch.Yields (fun b => [b.tree]) fun source b => b.phrases source)
  (hscope : scope.Predictive n (fun _ => False) fun _ => True)
  (hsampled : scope.Sampled (· = .punctuator .openBrace) fun _ => True)
  (hbranch : branch.Predictive n (fun _ => False) EndsBranch)
  (hdeclines : branch.DeclinesOn (· ≠ .keyword .ifWord))

include hyields hscope hsampled

/-- A statement that ends in a scope. -/
theorem completable_body {α : Type} (f : Scope → α) : (do
    let body ← scope.required .scope
    return f body : Rule α).Completable n (· = .punctuator .openBrace) fun _ => True :=
  (completable_required hscope hsampled (fun _ => False.elim) (by simp)).after
    ((hyields.progresses nil_notMem_scope).required _) fun _ => completable_pure _

theorem predictive_whileStmt :
    (whileStmt scope).Predictive (n + 1) (fun _ => False) fun _ => True :=
  .located (.behind (predictive_keyword _) (progresses_keyword _) fun _ =>
      (completable_condition n).after progresses_condition fun _ =>
      completable_body hyields hscope hsampled _)
    (.of_located ((yields_whileStmt hyields).progresses nil_notMem_statement))

theorem predictive_forStmt :
    (forStmt scope).Predictive (n + 1) (fun _ => False) fun _ => True := by
  have hoption := yields_expression.optional.shrinks
  have hexpect := fun p => (progresses_expect p).shrinks
  have hbody := fun {α : Type} (f : Scope → α) =>
    (hyields.shrinks.required .scope).bind fun body => shrinks_pure (f body)
  exact .located (.behind (predictive_keyword _) (progresses_keyword _) fun _ =>
      (completable_expect _ n).after (progresses_expect _) fun _ =>
      (completable_forInit n).closed rfl (.inr (.inr rfl)) (fun _ _ =>
        (completable_optional_expression n).closed rfl (.inr (.inr rfl)) (fun _ _ =>
          (completable_optional_expression n).closed rfl (.inr (.inr rfl))
            (fun _ _ => completable_body hyields hscope hsampled _) fun _ _ => hbody _)
          fun _ _ => hoption.bind fun _ => (hexpect _).bind fun _ => hbody _)
        fun _ _ => hoption.bind fun _ => (hexpect _).bind fun _ => hoption.bind fun _ =>
          (hexpect _).bind fun _ => hbody _)
    (.of_located ((yields_forStmt hyields).progresses nil_notMem_statement))

include hyields' hbranch hdeclines

omit hyields' in
theorem predictive_otherwise :
    (otherwise scope branch).Predictive (n + 1) (fun _ => False) EndsBranch := by
  have hchoice : ((Otherwise.branch <$> branch) <|> (Otherwise.scope <$> scope)).Predictive n
      (fun _ => False) EndsBranch :=
    (hbranch.map _).orElse_of_progresses ((hscope.mono (fun _ hk => hk) fun _ _ => trivial).map _)
      (declinesOn_false _) ((hyields.progresses nil_notMem_scope).map _)
  have hsample : ((Otherwise.branch <$> branch) <|> (Otherwise.scope <$> scope)).Sampled
      (· = .punctuator .openBrace) EndsBranch :=
    ((hsampled.mono (fun _ hk => hk) fun _ _ => trivial).map _).orElse
      ((hdeclines.mono (by rintro _ rfl; simp)).map _)
  exact .behind (predictive_keyword _) (progresses_keyword _) fun _ =>
    completable_required hchoice hsample (fun _ => False.elim) (by simp)

theorem predictive_branchOf :
    (branchOf scope branch).Predictive (n + 1) (fun _ => False) EndsBranch := by
  have hrest := (predictive_otherwise hyields hscope hsampled hbranch hdeclines).optional
    ((declinesOn_token (by simp)).bind _)
  exact .located (.behind (predictive_keyword _) (progresses_keyword _) fun _ =>
      (completable_condition n).after progresses_condition fun _ =>
      (completable_required hscope hsampled (fun _ => False.elim) (by simp)).after
        ((hyields.progresses nil_notMem_scope).required _) fun _ =>
      (hrest.le (Nat.le_succ n)).bind (fun _ => completable_pure _) (fun _ hk => hk)
        (.inr fun _ hk => hk) (.inr fun _ => .inr))
    (.of_located ((yields_branchOf hyields hyields').progresses nil_notMem_branch))

omit hyields' in
theorem predictive_statementOf :
    (statementOf scope branch).Predictive n (· = .identifier) EndsBranch := by
  obtain ⟨hsimple, hprogress⟩ := predictive_simpleStmt n
  have hline : (do
      let s ← simpleStmt
      let _ ← expect .semicolon
      return s : Rule Stmt).Predictive n (· = .identifier) EndsBranch :=
    hsimple.closed rfl (.inl hprogress) (fun _ _ => completable_pure _) fun _ _ => shrinks_pure _
  have hloop : ∀ {r : Rule Stmt}, r.Predictive (n + 1) (fun _ => False) (fun _ => True) →
      r.Predictive n (fun _ => False) EndsBranch :=
    fun h => (h.le (Nat.le_succ n)).mono (fun _ hk => hk) fun _ _ => trivial
  have hfor := predictive_word_orElse
    ⟨hloop (predictive_forStmt hyields hscope hsampled),
      (yields_forStmt hyields).progresses nil_notMem_statement⟩
    ⟨hline, hprogress.bind fun _ => (progresses_expect _).shrinks.bind fun _ => shrinks_pure _⟩
    (by decide)
  have hwhile := predictive_word_orElse ⟨hloop (predictive_whileStmt hyields hscope hsampled),
    (yields_whileStmt hyields).progresses nil_notMem_statement⟩ hfor (by decide)
  exact (hbranch.map _).orElse_of_progresses hwhile.1
    ((hdeclines.mono (by rintro _ rfl; simp)).map _) hwhile.2

omit hyields hyields' hscope hsampled hbranch in
theorem declinesOn_statementOf :
    (statementOf scope branch).DeclinesOn (· = .punctuator .closeBrace) := by
  refine .orElse ((hdeclines.mono (by rintro _ rfl; simp)).map _) ?_
  refine .orElse (declinesOn_word _ _ (by decide)) (.orElse (declinesOn_word _ _ (by decide)) ?_)
  refine .bind (.orElse (declinesOn_word _ _ (by decide)) ?_) _
  refine .orElse (declinesOn_word _ _ (by decide)) (.orElse (declinesOn_word _ _ (by decide)) ?_)
  refine .orElse (declinesOn_word _ _ (by decide)) (.orElse (declinesOn_word _ _ (by decide)) ?_)
  exact .orElse ((declinesOn_word _ _ (by decide)).map _)
    ((declinesOn_expression.mono (by rintro _ rfl; rfl)).map _)

theorem predictive_scopeOf :
    (scopeOf (statementOf scope branch)).Predictive (n + 1) (fun _ => False) fun _ => True := by
  have hstatement := yields_statementOf hyields hyields'
  have hmany := completable_statements (predictive_statementOf hyields hscope hsampled hbranch
    hdeclines) (hstatement.progresses nil_notMem_statement) (declinesOn_statementOf hdeclines)
  exact .located (.behind (predictive_punctuator _) (progresses_punctuator _) fun _ =>
      hmany.bind
        (fun _ => (completable_expect _ n).after (progresses_expect _) fun _ => completable_pure _)
        (fun _ hk => hk) (.inl fun _ => (progresses_expect _).bind fun _ => shrinks_pure _)
        (.inr fun _ => .inr))
    (.of_located ((yields_scopeOf hstatement).progresses nil_notMem_scope))

end

theorem declinesOn_branch : branch.DeclinesOn (· ≠ .keyword .ifWord) := by
  rw [branch_eq]
  exact declinesOn_word _ _ (by simp)

theorem yields_branch : branch.Yields (fun b => [b.tree]) fun source b => b.phrases source :=
  ⟨fun s _ _ h => (yields_scopeWithin_branchWithin s.tokens).2.advances h,
    fun s _ _ h => (yields_scopeWithin_branchWithin s.tokens).2.frugal h⟩

theorem sampled_scope : scope.Sampled (· = .punctuator .openBrace) fun _ => True := by
  have hprogress : (scopeOf statement).Progresses := by
    rw [← scope_eq]
    exact yields_scope.progresses nil_notMem_scope
  have hmany := completable_statements (.zero statement)
    ((yields_statementOf yields_scope yields_branch).progresses nil_notMem_statement)
    (declinesOn_statementOf declinesOn_branch)
  rw [scope_eq]
  exact .located ((sampled_punctuator _).after fun _ => hmany.sampled.bind
    (fun _ => ((completable_expect _ 0).after (progresses_expect _)
      fun _ => completable_pure _).sampled) fun _ hk => hk) hprogress.of_located

/-- Scopes and conditions are nested in one another, behind a token each. -/
theorem predictive_scope_branch (n : Nat) :
    scope.Predictive n (fun _ => False) (fun _ => True) ∧
      branch.Predictive n (fun _ => False) EndsBranch := by
  induction n with
  | zero => exact ⟨.zero _, .zero _⟩
  | succ n ih =>
    obtain ⟨hscope, hbranch⟩ := ih
    rw [scope_eq, branch_eq]
    exact ⟨predictive_scopeOf yields_scope yields_branch hscope sampled_scope hbranch
        declinesOn_branch,
      predictive_branchOf yields_scope yields_branch hscope sampled_scope hbranch
        declinesOn_branch⟩

/-! ## Declarations -/

theorem progresses_parameter : parameter.Progresses :=
  yields_parameter.progresses fun _ d => by
    simp [Parameter.phrases, nil_mem_mul, Ident.phrase, nil_notMem_one]

theorem predictive_parameter (n : Nat) : parameter.Predictive n (fun _ => False) Closes :=
  .located ((predictive_identifier n).after progresses_identifier fun _ =>
      (completable_annotatedType (by simp) n).bind (fun _ => completable_pure _) (fun _ hk => hk)
        (.inr fun _ hk => hk) (.inl (progresses_annotatedType.required _)))
    (.of_located progresses_parameter)

theorem sampled_parameter : parameter.Sampled (· = .identifier) Closes :=
  .located (sampled_identifier.after fun _ => (completable_annotatedType (by simp) 0).sampled.bind
      (fun _ => (completable_pure (n := 0) _).sampled) fun _ hk => hk)
    (.of_located progresses_parameter)

theorem progresses_functionDecl : functionDecl.Progresses :=
  yields_functionDecl.progresses fun _ d => by
    simp [FunctionDecl.phrases, nil_mem_mul, nil_notMem_word]

/-- The type and the body of a function. -/
theorem completable_resultAndBody {α : Type} (f : Option WrittenType → Scope → α) (n : Nat) : (do
    let returns ← optional typeAnnotation
    let body ← scope.required .scope
    return f returns body : Rule α).Completable n (fun k => False ∨ Closes k) fun _ => True := by
  have hreturns : (optional typeAnnotation).Completable n (fun k => False ∨ Closes k) Closes :=
    (predictive_annotatedType n).optional ((declinesOn_token (by decide)).bind _)
  have hscope := yields_scope.progresses nil_notMem_scope
  exact hreturns.bind
    (fun returns => completable_body yields_scope (predictive_scope_branch n).1 sampled_scope
      (f returns))
    (by rintro _ rfl; rfl) (.inl fun _ => (hscope.required _).bind fun _ => shrinks_pure _)
    (.inr (by rintro _ rfl; exact .inr rfl))

theorem shrinks_resultAndBody {α : Type} (f : Option WrittenType → Scope → α) : (do
    let returns ← optional typeAnnotation
    let body ← scope.required .scope
    return f returns body : Rule α).Shrinks :=
  yields_annotatedType.optional.shrinks.bind fun _ => (yields_scope.shrinks.required _).bind
    fun _ => shrinks_pure _

theorem predictive_functionDecl (n : Nat) :
    functionDecl.Predictive n (fun _ => False) fun _ => True := by
  have hparameters : (commaList parameter .identifier).Completable n
      (fun k => k = .identifier ∨ Closes k) Closes :=
    ((predictive_parameter n).mono (fun _ => False.elim) fun _ hk => hk).commaList
      sampled_parameter progresses_parameter (by simp) (fun _ hk => hk) (by decide)
      ((declinesOn_identifier (by decide)).bind _).located
  exact .located ((predictive_keyword _ n).after (progresses_keyword _) fun _ =>
      (completable_identifier (by simp) n).after (progresses_identifier.required _) fun _ =>
      (completable_expect _ n).after (progresses_expect _) fun _ =>
      hparameters.closed rfl (.inr (.inr rfl)) (fun _ _ => completable_resultAndBody _ n)
        fun _ _ => shrinks_resultAndBody _)
    (.of_located progresses_functionDecl)

theorem progresses_variableLine : variableLine.Progresses :=
  yields_variableLine.progresses fun _ d => by
    simp [VariableDecl.phrases, nil_mem_mul, nil_notMem_word]

theorem predictive_variableLine (n : Nat) :
    variableLine.Predictive n (fun _ => False) fun _ => True :=
  (predictive_variableDecl n).closed rfl
    (.inl (yields_variableDecl.progresses nil_notMem_variableDecl)) (fun _ _ => completable_pure _)
    fun _ _ => shrinks_pure _

theorem predictive_member (n : Nat) : member.Predictive n (fun _ => False) fun _ => True :=
  ((predictive_variableLine n).map _).orElse_of_progresses ((predictive_functionDecl n).map _)
    (declinesOn_false _) (progresses_functionDecl.map _)

theorem declinesOn_member : member.DeclinesOn (· = .punctuator .closeBrace) :=
  .orElse (.map (.bind (declinesOn_word _ _ (by decide)) _) _)
    (.map (declinesOn_word _ _ (by decide)) _)

theorem completable_members (n : Nat) :
    (many member).Completable n (fun k => False ∨ k = .punctuator .closeBrace)
      (· = .punctuator .closeBrace) :=
  (predictive_member n).many (yields_member.progresses nil_notMem_member) (fun _ _ => trivial)
    declinesOn_member

theorem progresses_classDecl : classDecl.Progresses :=
  yields_classDecl.progresses fun _ d => by
    simp [ClassDecl.phrases, nil_mem_mul, nil_notMem_word]

theorem completable_classBody (name : Ident) (n : Nat) : (do
    let _ ← expect .openBrace
    let members ← many member
    let _ ← expect .closeBrace
    return fun place => ⟨place, name, members⟩ : Rule (Place → ClassDecl)).Completable n
      (· = .punctuator .openBrace) fun _ => True :=
  (completable_expect _ n).after (progresses_expect _) fun _ =>
    (completable_members n).bind
      (fun _ => (completable_expect _ n).after (progresses_expect _) fun _ => completable_pure _)
      (fun _ hk => hk) (.inl fun _ => (progresses_expect _).bind fun _ => shrinks_pure _)
      (.inr fun _ => .inr)

theorem predictive_classDecl (n : Nat) :
    classDecl.Predictive n (fun _ => False) fun _ => True :=
  .located ((predictive_keyword _ n).after (progresses_keyword _) fun _ =>
      (completable_identifier (by simp) n).after (progresses_identifier.required _) fun name =>
      completable_classBody name n)
    (.of_located progresses_classDecl)

theorem sampled_classDecl : classDecl.Sampled (· = .keyword .classWord) fun _ => True :=
  .located ((sampled_keyword _).after fun _ => (completable_identifier (by simp) 0).sampled.after
      fun name => (completable_classBody name 0).sampled)
    (.of_located progresses_classDecl)

/-- Behind what was read already, a class completes a unit. -/
theorem completable_declaration (n : Nat) :
    (declaration.required .declaration).Completable n (· = .keyword .classWord) fun _ => True := by
  have hfunction := ((predictive_functionDecl n).map Declaration.function).orElse_of_progresses
    ((predictive_variableLine n).map Declaration.variable) (declinesOn_false _)
    (progresses_variableLine.map _)
  have hdeclaration : declaration.Predictive n (fun _ => False) fun _ => True :=
    ((predictive_classDecl n).map _).orElse_of_progresses hfunction (declinesOn_false _)
      ((progresses_functionDecl.map _).orElse (progresses_variableLine.map _))
  obtain hsample : declaration.Sampled (· = .keyword .classWord) fun _ => True := fun s => by
    obtain ⟨c, d, q, hplain, hc, htakes⟩ := sampled_classDecl s
    exact ⟨c, .classDecl d, q, hplain, hc, (htakes.map _).orElse_left _⟩
  exact completable_required hdeclaration hsample (fun _ => False.elim) (by simp)

/-! ## Units -/

theorem atEnd_facing {s : TokenStream} {us : List Token} (h : us.head? = s.tokens.head?) :
    (s.facing us).atEnd = s.atEnd := by
  simp only [atEnd, firstKind?, first?, facing_tokens, h]

theorem atEnd_facing_of_heads {us : List Token} (h : Heads (· = .eof) us) (s : TokenStream) :
    (s.facing us).atEnd := by
  obtain ⟨t, ht, heof⟩ := h
  obtain ⟨us, rfl⟩ : ∃ vs, us = t :: vs := ⟨_, List.eq_cons_of_mem_head? ht⟩
  simp only [atEnd, firstKind?, first?, facing_tokens, List.head?_cons, Option.map_some, heof]

theorem predictive_noDeclarations (n : Nat) :
    noDeclarations.Predictive n (fun _ => False) (· = .eof) := by
  refine ⟨fun s ds rest _ h => ?_, fun s p e _ h => ?_, fun s p e _ h => ?_⟩
  all_goals by_cases hs : s.atEnd <;> simp only [noDeclarations, hs, if_true] at h
  · obtain ⟨rfl, rfl⟩ := Reply.accept.inj h
    exact ⟨[], rfl, .nil fun us hus => if_pos (hus.elim (fun hus => (atEnd_facing hus).trans hs)
      fun hus => atEnd_facing_of_heads hus s)⟩
  · simp at h
  · simp at h
  · obtain ⟨rfl, rfl⟩ := Reply.decline.inj h
    exact ⟨rfl, by simp, fun us hus => if_neg (by rwa [atEnd_facing hus])⟩
  · simp at h
  · simp at h

theorem declinesOn_noDeclarations : noDeclarations.DeclinesOn (· = .keyword .classWord) := by
  rintro s ⟨t, ht, hkind⟩
  refine ⟨.declaration, if_neg ?_⟩
  have hfirst : s.first? = some t := ht
  simp [atEnd, firstKind?, hfirst, hkind]

/-- Declarations up to the end of input. Whatever is missing, a class and the end complete it. -/
theorem completable_declarations (n : Nat) :
    declarations.Completable n (fun k => k = .keyword .classWord ∨ k = .eof) (· = .eof) := by
  have hsampled : declarations.Sampled (fun k => k = .keyword .classWord ∨ k = .eof) (· = .eof) :=
    fun s => ⟨[], [], s, plain_nil, fun us hus => hus.mono fun _ => .inr, .nil fun us hus => by
      rw [declarations_eq, orElse_accept_left (if_pos (atEnd_facing_of_heads hus s))]⟩
  refine ⟨?_, firm_declarations, hsampled⟩
  induction n with
  | zero => exact .zero _
  | succ n ih =>
    have hmore : (do
        let d ← declaration.required .declaration
        (d :: ·) <$> declarations : Rule (List Declaration)).Predictive (n + 1)
        (· = .keyword .classWord) (· = .eof) :=
      .behind (fun n => (completable_declaration n).predictive) (progresses_declaration.required _)
        fun d => Completable.map ⟨ih, firm_declarations, hsampled⟩ (d :: ·)
    have hprogress : (do
        let d ← declaration.required .declaration
        (d :: ·) <$> declarations : Rule (List Declaration)).Progresses :=
      (progresses_declaration.required _).bind fun _ => shrinks_declarations.bind fun _ =>
        shrinks_pure _
    rw [declarations_eq]
    exact ((predictive_noDeclarations _).orElse hmore declinesOn_noDeclarations
      (.inl hprogress)).mono (by simp) fun _ hk => hk

theorem block_eq :
    block = located ((fun declarations place => ⟨place, declarations⟩) <$> declarations) := by
  funext s
  unfold block located
  rw [map_apply]
  rfl

/-- What is in front of a rejection is rejected for its next token alone, and begins a unit. -/
theorem block_of_reject {s p : TokenStream} {e : Expected} (h : block s = .reject p e) : ∃ ts,
    s.tokens = ts ++ p.tokens ∧ (e = .literal → ∃ t ∈ p.first?, t.kind ≠ .eof) ∧
      (∀ us, us.head? = p.tokens.head? → block (s.facing (ts ++ us)) = .reject (p.facing us) e) ∧
      ∃ c, Plain c ∧ (∀ t ∈ ts ++ c, t.kind ≠ .eof) ∧ ∀ us, Heads (· = .eof) us →
        ∃ b rest, block (s.facing (ts ++ c ++ us)) = .accept b rest := by
  have hread := (completable_declarations (s.tokens.length + 1)).predictive.map
    fun ds place => (⟨place, ds⟩ : Block)
  rw [block_eq] at h ⊢
  obtain ⟨ts, htokens, hliteral, hsame, c, build, q, hplain, -, htakes⟩ :=
    hread.reject (Nat.lt_succ_self _) (located_eq_reject.1 h)
  refine ⟨ts, htokens, hliteral, fun us hus => located_eq_reject.2 (hsame us hus), c, hplain, ?_,
    fun us hus => ⟨_, _, located_eq_accept.2 ⟨build, _, htakes.accept us hus, rfl, rfl⟩⟩⟩
  obtain ⟨ds, hds, -⟩ := map_eq_accept.1 (htakes.accept [.eof 0 0] (⟨_, rfl, rfl⟩))
  obtain ⟨⟨us, -, hadv⟩, -⟩ := declarationsWithin_phrases hds le_rfl
  have hus : ts ++ c = us := List.append_cancel_right hadv.tokens_eq
  exact fun t ht => (hadv.isMeaningful t (hus ▸ ht)).1

end Grammar

/-- The end of input stands at the end, and nowhere else. -/
def Token.EndsOnce (tokens : List Token) : Prop :=
  ∃ front t, tokens = front ++ [t] ∧ t.kind = .eof ∧ ∀ u ∈ front, u.kind ≠ .eof

theorem Token.EndsOnce.significant {tokens : List Token} (h : EndsOnce tokens) :
    EndsOnce (significant tokens) := by
  obtain ⟨front, t, rfl, heof, hfront⟩ := h
  have ht : t.isTrivia = false := by rw [isTrivia, heof]; rfl
  refine ⟨Token.significant front, t, ?_, heof, fun u hu => hfront u (List.mem_of_mem_filter hu)⟩
  simp [Token.significant, ht]

theorem Token.EndsOnce.ne_nil_of_append {ts us : List Token} (h : EndsOnce (ts ++ us))
    (hts : ∀ t ∈ ts, t.kind ≠ .eof) : us ≠ [] := by
  rintro rfl
  obtain ⟨front, t, heq, heof, -⟩ := h
  rw [List.append_nil] at heq
  exact hts t (by simp [heq]) heof

theorem Token.plain_significant (tokens : List Token) : Plain (significant tokens) := by
  intro t ht
  simpa using (List.mem_filter.1 ht).2

/-- An error is named after the token at its position. -/
theorem ParseError.ofPosition_of_first? {p : TokenStream} {t : Token} {e : Expected}
    (hfirst : p.first? = some t) (hliteral : e = .literal → t.kind ≠ .eof) :
    (ofPosition p e).span = t.span ∧
      ((∃ expected, ofPosition p e = .prematureEnd expected t.span) ↔ t.kind = .eof) := by
  have hspan : p.currentSpan = t.span := by simp [currentSpan, hfirst]
  have hkind : p.firstKind? = some t.kind := by simp [firstKind?, hfirst]
  unfold ofPosition
  split
  · next he => exact ⟨hspan, by simp [hliteral he]⟩
  · split
    · next hnone => simp [hnone] at hkind
    · next heof =>
      have heof' : t.kind = .eof := Option.some.inj (hkind.symm.trans heof)
      exact ⟨hspan, by simp [hspan, heof']⟩
    · next found hne hfound =>
      have hfound' : t.kind = found := Option.some.inj (hkind.symm.trans hfound)
      exact ⟨hspan, by simpa [hfound'] using hne⟩

theorem ParseError.ofPosition_facing {p : TokenStream} {us : List Token}
    (h : us.head? = p.tokens.head?) (e : Expected) :
    ofPosition (p.facing us) e = ofPosition p e := by
  simp only [ofPosition, currentSpan, firstKind?, first?, facing_tokens, h]

namespace Block

variable {tokens : List Token} {source : String} {err : ParseError}

theorem reject_of_parse (h : Block.parse tokens source = .error err) : ∃ p e,
    Grammar.block (.ofTokens (significant tokens) source) = .reject p e ∧
      err = .ofPosition p e := by
  unfold Block.parse at h
  cases hb : Grammar.block (.ofTokens (significant tokens) source) with
  | accept b rest => simp [hb, Reply.result, Except.map] at h
  | decline p e =>
    rw [Grammar.block_eq] at hb
    exact absurd hb ((Grammar.firm_declarations.map _).located _ p e)
  | reject p e => exact ⟨p, e, rfl, by simpa [hb, Reply.result, Except.map] using h.symm⟩

theorem parse_of_reject {p : TokenStream} {e : Expected}
    (h : Grammar.block (.ofTokens (significant tokens) source) = .reject p e) :
    Block.parse tokens source = .error (.ofPosition p e) := by
  simp [Block.parse, h, Reply.result, Except.map]

theorem parse_of_accept {b : Block} {rest : TokenStream} (hplain : Plain tokens)
    (h : Grammar.block (.ofTokens tokens source) = .accept b rest) :
    Block.parse tokens source = .ok b := by
  simp [Block.parse, hplain.significant_eq, h, Reply.result, Except.map]

/-- The token of a parse error is the first one that is wrong: with the same tokens up to it, the
error is the same, and those in front of it begin some unit. -/
theorem parse_error_first (hend : EndsOnce tokens) (h : Block.parse tokens source = .error err) :
    ∃ i t, (significant tokens)[i]? = some t ∧ err.span = t.span ∧
      ((∃ expected, err = .prematureEnd expected t.span) ↔ t.kind = .eof) ∧
      (∀ tokens', (significant tokens').take (i + 1) = (significant tokens).take (i + 1) →
        Block.parse tokens' source = .error err) ∧
      ∃ tokens' b, EndsOnce tokens' ∧
        (significant tokens').take i = (significant tokens).take i ∧
        Block.parse tokens' source = .ok b := by
  obtain ⟨p, e, hreject, rfl⟩ := reject_of_parse h
  obtain ⟨ts, htokens, hliteral, hsame, c, hplain, hne, hcomplete⟩ :=
    Grammar.block_of_reject hreject
  change significant tokens = _ at htokens
  have hts : ∀ t ∈ ts, t.kind ≠ .eof := fun t ht => hne t (List.mem_append_left c ht)
  obtain ⟨t, us, hus⟩ := List.exists_cons_of_ne_nil
    ((htokens ▸ hend.significant).ne_nil_of_append hts)
  have hfirst : p.first? = some t := by rw [first?, hus, List.head?_cons]
  obtain ⟨hspan, hpremature⟩ := ParseError.ofPosition_of_first? hfirst fun he => by
    obtain ⟨u, hu, hkind⟩ := hliteral he
    obtain rfl : t = u := Option.some.inj (hfirst.symm.trans hu)
    exact hkind
  refine ⟨ts.length, t, by simp [htokens, hus], hspan, hpremature, fun tokens' htake => ?_,
    ts ++ c ++ [.eof 0 0], ?_⟩
  · -- the tokens up to the wrong one are the same, and what follows makes no difference
    obtain ⟨more, hmore⟩ : ∃ more, significant tokens' = ts ++ t :: more := by
      refine ⟨(significant tokens').drop (ts.length + 1), ?_⟩
      conv_lhs => rw [← List.take_append_drop (ts.length + 1) (significant tokens'), htake]
      simp [htokens, hus, List.take_append]
    have hhead : (t :: more).head? = p.tokens.head? := by rw [hus, List.head?_cons, List.head?_cons]
    rw [← ParseError.ofPosition_facing hhead]
    refine parse_of_reject ?_
    rw [hmore]
    exact hsame _ hhead
  · have hplain' : Plain (ts ++ c ++ [.eof 0 0]) := by
      have hread : Plain ts := fun u hu =>
        plain_significant tokens u (htokens ▸ List.mem_append_left _ hu)
      exact (hread.append hplain).append (List.forall_mem_singleton.2 rfl)
    obtain ⟨b, rest, hb⟩ := hcomplete [.eof 0 0] ⟨_, rfl, rfl⟩
    refine ⟨b, ⟨ts ++ c, _, rfl, rfl, hne⟩, ?_, parse_of_accept hplain' hb⟩
    rw [hplain'.significant_eq, htokens, List.append_assoc, List.take_left, List.take_left]

/-- In `class C x`, the `x` is wrong, where an opening brace might have stood. -/
theorem parse_error_first_class :
    let tokens : List Token := [⟨.keyword .classWord, ⟨0, 5, 0⟩, none⟩,
      ⟨.whitespace, ⟨5, 6, 0⟩, none⟩, ⟨.identifier, ⟨6, 7, 0⟩, some "C"⟩,
      ⟨.whitespace, ⟨7, 8, 0⟩, none⟩, ⟨.identifier, ⟨8, 9, 0⟩, some "x"⟩, .eof 9 0]
    let err : ParseError := .unexpectedToken (.token (.punctuator .openBrace)) .identifier ⟨8, 9, 0⟩
    EndsOnce tokens ∧ Block.parse tokens "class C x" = .error err ∧
      ∃ i t, (significant tokens)[i]? = some t ∧ err.span = t.span ∧
        ((∃ expected, err = .prematureEnd expected t.span) ↔ t.kind = .eof) ∧
        (∀ tokens', (significant tokens').take (i + 1) = (significant tokens).take (i + 1) →
          Block.parse tokens' "class C x" = .error err) ∧
        ∃ tokens' b, EndsOnce tokens' ∧
          (significant tokens').take i = (significant tokens).take i ∧
          Block.parse tokens' "class C x" = .ok b := by
  intro tokens err
  have hend : EndsOnce tokens := ⟨tokens.take 5, .eof 9 0, rfl, rfl, by decide⟩
  have h : Block.parse tokens "class C x" = .error err := by rfl
  exact ⟨hend, h, parse_error_first hend h⟩

end Block

end Sable
