import Sable.Proofs.Grammar.Advancing

/-!
# Alternatives lose nothing

Each rule of the grammar decides where it stands. So whatever is tried in its place begins at the
same token and with the same number, every repetition of the grammar ends, and no error of parsing
is for lack of progress.

## Main definitions

* `Grammar.nextDeclaration`: the element of a unit, which is a repetition.
* `Grammar.IsPart`: the rules of the grammar and the alternatives and elements that they are
  made of.
* `ParseError.expected?`: what an error says was expected.

## Main statements

* `Grammar.decides_expression`, `Grammar.decides_scopeWithin_branchWithin`: nested rules.
* `Grammar.declarations_eq_many`: the declarations of a unit are a repetition.
* `Grammar.parts_decide`: every rule, every loop and every error.
-/
namespace Sable

open TokenStream

namespace Grammar

open Rule

/-! ## Types and values -/

theorem decides_writtenType : writtenType.Decides :=
  .located (decides_identifier.bind fun _ => (decides_punctuator .star).many.bind fun _ =>
    continues_pure _)

theorem decides_typeAnnotation : typeAnnotation.Decides :=
  (decides_punctuator _).bind fun _ => decides_writtenType.required (by simp)

theorem decides_variableName : variableName.Decides :=
  .located (decides_identifier.bind fun _ => continues_pure _)

/-- Where a token is ahead, a constant is what stands for any token. -/
theorem constant_eq {s : TokenStream} {t : Token} (hfirst : s.first? = some t) (v : Value) :
    constant v s = (located do
      let _ ← operator some
      return fun place => Expr.value place v : Rule Expr) s := by
  simp [constant, located, operator, firstKind?, hfirst, Bind.bind, pure]

theorem decides_anyToken (v : Value) : (located do
    let _ ← operator some
    return fun place => Expr.value place v : Rule Expr).Decides :=
  .located ((decides_operator _).bind fun _ => continues_pure _)

section

variable {nested : Rule Expr} (hnested : nested.Decides)

include hnested

theorem decides_grouped : (grouped nested).Decides :=
  (decides_punctuator _).bind fun _ => (hnested.required (by simp)).bind fun _ =>
    (continues_expect _).bind fun _ => continues_pure _

theorem decides_value : (value nested).Decides := by
  refine .of_eq fun s => ?_
  cases ht : s.first? with
  | none => exact ⟨declines .expression, decides_declines (by simp), value_of_first?_eq_none ht _⟩
  | some t =>
    rw [value_eq ht]
    rcases valueAt_cases nested t with ⟨v, hat⟩ | ⟨-, hat⟩ | hat | hat | hat <;> rw [hat]
    · exact ⟨_, decides_anyToken v, constant_eq ht v⟩
    · unfold literal
      split
      · next v _ => exact ⟨_, decides_anyToken v, constant_eq ht v⟩
      · exact ⟨rejects .literal, decides_rejects (by simp), rfl⟩
    · exact ⟨_, decides_declines (by simp), rfl⟩
    · exact ⟨_, decides_variableName, rfl⟩
    · exact ⟨_, decides_grouped hnested, rfl⟩

/-! ## What follows an operand -/

omit hnested in
theorem decides_access (kind : AccessKind) (object : Expr) : (access kind object).Decides :=
  (decides_punctuator _).bind fun _ => continues_identifier.bind fun _ => continues_placed _ _

omit hnested in
theorem decides_cast (operand : Expr) : (cast operand).Decides :=
  (decides_keyword _).bind fun _ => (decides_writtenType.required (by simp)).bind fun _ =>
    continues_placed _ _

theorem decides_call (callee : Expr) : (call nested callee).Decides :=
  (decides_punctuator _).bind fun _ => (hnested.commaList (by simp)).bind fun _ =>
    (continues_expect _).bind fun _ => continues_placed _ _

theorem decides_index (target : Expr) : (index nested target).Decides :=
  (decides_punctuator _).bind fun _ => (hnested.required (by simp)).bind fun _ =>
    (continues_expect _).bind fun _ => continues_placed _ _

theorem decides_suffix (operand : Expr) : (suffix nested operand).Decides :=
  (decides_access _ _).orElse <| (decides_access _ _).orElse <| (decides_call hnested _).orElse <|
    (decides_cast _).orElse <| decides_index hnested _

theorem decides_postfixed : (postfixed nested).Decides :=
  (decides_value hnested).bind fun operand =>
    Decides.iterate (decides_suffix hnested) (declinesEmpty_suffix nested) operand

/-! ## Operators -/

omit hnested in
theorem decides_prefixed {operand : Rule Expr} (h : operand.Decides) : (prefixed operand).Decides :=
  .located ((decides_operator _).bind fun _ => (h.required (by simp)).bind fun _ =>
    continues_pure _)

omit hnested in
theorem decides_binaryRest {operand : Rule Expr} (h : operand.Decides) (p : BinaryOp → Bool)
    (left : Expr) : (binaryRest p operand left).Decides :=
  (decides_operator _).bind fun _ => (h.required (by simp)).bind fun _ => continues_placed _ _

theorem decides_unary : (unary nested).Decides := by
  refine .bounded fun bound => ?_
  induction bound with
  | nil => exact decides_postfixed hnested
  | cons t bound ih => exact (decides_prefixed ih).orElse (decides_postfixed hnested)

theorem decides_binaryWithin (levels : Nat) : (binaryWithin nested levels).Decides := by
  induction levels with
  | zero => exact decides_unary hnested
  | succ levels ih =>
    exact ih.bind fun left =>
      Decides.iterate (decides_binaryRest ih _) (declinesEmpty_binaryRest _ _) left

theorem decides_assignment : (assignment nested).Decides :=
  (decides_binaryWithin hnested _).bind fun left =>
    (decides_binaryRest hnested _ left).orElse_continues (continues_pure left)

end

theorem decides_expression : expression.Decides := by
  refine .bounded fun bound => ?_
  induction bound with
  | nil => exact decides_declines (by simp)
  | cons t bound ih => exact decides_assignment ih

theorem continues_expression : (expression.required .expression).Continues :=
  decides_expression.required (by simp)

/-! ## Statements -/

/-- What may stand behind the type of a variable. -/
def initializer : Rule Expr := do
  let _ ← punctuator .assign
  expression.required .expression

theorem decides_initializer : initializer.Decides :=
  (decides_punctuator _).bind fun _ => continues_expression

theorem continues_annotation :
    ( typeAnnotation.required (.token (.punctuator .colon))).Continues :=
  decides_typeAnnotation.required (by simp)

theorem decides_variableDecl : variableDecl.Decides :=
  .located ((decides_keyword _).bind fun _ => continues_identifier.bind fun _ =>
    continues_annotation.bind fun _ => decides_initializer.optional.bind fun _ => continues_pure _)

theorem decides_labelStmt : labelStmt.Decides :=
  .located ((decides_keyword _).bind fun _ => continues_identifier.bind fun _ => continues_pure _)

theorem decides_gotoStmt : gotoStmt.Decides :=
  .located ((decides_keyword _).bind fun _ => continues_identifier.bind fun _ => continues_pure _)

theorem decides_returnStmt : returnStmt.Decides :=
  .located ((decides_keyword _).bind fun _ => decides_expression.optional.bind fun _ =>
    continues_pure _)

theorem decides_breakStmt : breakStmt.Decides :=
  .located ((decides_keyword _).bind fun _ => continues_pure _)

theorem decides_continueStmt : continueStmt.Decides :=
  .located ((decides_keyword _).bind fun _ => continues_pure _)

theorem decides_simpleStmt : simpleStmt.Decides :=
  decides_labelStmt.orElse <| decides_gotoStmt.orElse <| decides_returnStmt.orElse <|
    decides_breakStmt.orElse <| decides_continueStmt.orElse <|
    (decides_variableDecl.map _).orElse (decides_expression.map _)

/-- A condition is required, but it reads a token as well. -/
theorem decides_condition : condition.Decides :=
  ((decides_punctuator _).required_decides (by simp)).bind fun _ => continues_expression.bind
    fun _ => (continues_expect _).bind fun _ => continues_pure _

theorem continues_condition : condition.Continues :=
  (continues_expect _).bind fun _ => continues_expression.bind fun _ =>
    (continues_expect _).bind fun _ => continues_pure _

theorem continues_forInit : forInit.Continues :=
  (decides_variableDecl.map _).orElse_continues <|
    (decides_expression.map _).orElse_continues (continues_pure _)

section

variable {scope : Rule Scope} {branch : Rule Branch} (hscope : scope.Decides)
  (hbranch : branch.Decides)

include hscope

theorem decides_whileStmt : (whileStmt scope).Decides :=
  .located ((decides_keyword _).bind fun _ => continues_condition.bind fun _ =>
    (hscope.required (by simp)).bind fun _ => continues_pure _)

theorem decides_forStmt : (forStmt scope).Decides :=
  .located ((decides_keyword _).bind fun _ => (continues_expect _).bind fun _ =>
    continues_forInit.bind fun _ => (continues_expect _).bind fun _ =>
    decides_expression.optional.bind fun _ => (continues_expect _).bind fun _ =>
    decides_expression.optional.bind fun _ => (continues_expect _).bind fun _ =>
    (hscope.required (by simp)).bind fun _ => continues_pure _)

include hbranch

theorem decides_otherwise : (otherwise scope branch).Decides :=
  (decides_keyword _).bind fun _ => ((hbranch.map _).orElse (hscope.map _)).required (by simp)

theorem decides_branchOf : (branchOf scope branch).Decides :=
  .located ((decides_keyword _).bind fun _ => continues_condition.bind fun _ =>
    (hscope.required (by simp)).bind fun _ => (decides_otherwise hscope hbranch).optional.bind
    fun _ => continues_pure _)

theorem decides_statementOf : (statementOf scope branch).Decides :=
  (hbranch.map _).orElse <| (decides_whileStmt hscope).orElse <| (decides_forStmt hscope).orElse <|
    decides_simpleStmt.closed .semicolon

theorem decides_scopeOf : (scopeOf (statementOf scope branch)).Decides :=
  .located ((decides_punctuator _).bind fun _ => (decides_statementOf hscope hbranch).many.bind
    fun _ => (continues_expect _).bind fun _ => continues_pure _)

end

/-- Scopes and conditions are nested in one another. -/
theorem decides_scopeWithin_branchWithin (bound : List Token) :
    (scopeWithin bound).Decides ∧ (branchWithin bound).Decides := by
  induction bound with
  | nil =>
    simp only [scopeWithin, branchWithin]
    exact ⟨decides_declines (by simp), decides_declines (by simp)⟩
  | cons t bound ih =>
    simp only [scopeWithin, branchWithin]
    exact ⟨decides_scopeOf ih.1 ih.2, decides_branchOf ih.1 ih.2⟩

theorem decides_scope : scope.Decides :=
  .bounded fun bound => (decides_scopeWithin_branchWithin bound).1

theorem decides_branch : branch.Decides :=
  .bounded fun bound => (decides_scopeWithin_branchWithin bound).2

theorem decides_statement : statement.Decides := decides_statementOf decides_scope decides_branch

/-! ## Declarations -/

theorem decides_parameter : parameter.Decides :=
  .located (decides_identifier.bind fun _ => continues_annotation.bind fun _ => continues_pure _)

theorem decides_functionDecl : functionDecl.Decides :=
  .located ((decides_keyword _).bind fun _ => continues_identifier.bind fun _ =>
    (continues_expect _).bind fun _ => (decides_parameter.commaList (by simp)).bind fun _ =>
    (continues_expect _).bind fun _ => decides_typeAnnotation.optional.bind fun _ =>
    (decides_scope.required (by simp)).bind fun _ => continues_pure _)

theorem decides_variableLine : variableLine.Decides := decides_variableDecl.closed .semicolon

theorem decides_member : member.Decides :=
  (decides_variableLine.map _).orElse (decides_functionDecl.map _)

theorem decides_classDecl : classDecl.Decides :=
  .located ((decides_keyword _).bind fun _ => continues_identifier.bind fun _ =>
    (continues_expect _).bind fun _ => decides_member.many.bind fun _ =>
    (continues_expect _).bind fun _ => continues_pure _)

theorem decides_declaration : declaration.Decides :=
  (decides_classDecl.map _).orElse <| (decides_functionDecl.map _).orElse <|
    decides_variableLine.map _

/-- Where the input ends, there is no further declaration; anywhere else, there must be one. -/
def nextDeclaration : Rule Declaration := fun s =>
  if s.atEnd then .decline s .declaration else declaration.required .declaration s

theorem decides_nextDeclaration : nextDeclaration.Decides := by
  refine .of_eq fun s => ?_
  unfold nextDeclaration
  split
  · exact ⟨declines .declaration, decides_declines (by simp), rfl⟩
  · exact ⟨_, decides_declaration.required_decides (by simp), rfl⟩

/-- The declarations of a unit are a repetition. -/
theorem declarations_eq_many (s : TokenStream) : declarations s = many nextDeclaration s := by
  induction hlen : s.tokens.length using Nat.strong_induction_on generalizing s with
  | _ n ih =>
    rw [decides_nextDeclaration.many_eq]
    by_cases hend : s.atEnd
    · rw [declarations_of_atEnd hend, nextDeclaration, if_pos hend]
    · rw [declarations_of_not_atEnd (by simpa using hend), nextDeclaration, if_neg hend]
      cases hd : declaration.required .declaration s with
      | accept d rest =>
        have hlt := (decides_declaration.progresses.required _ hd).2
        rw [bind_of_accept hd, map_apply, ih _ (hlen ▸ hlt) rest rfl]
      | decline p e => exact absurd hd (firm_required _ _ s p e)
      | reject p e => exact bind_of_reject hd _

theorem continues_declarations : declarations.Continues := by
  rw [show declarations = many nextDeclaration from funext declarations_eq_many]
  exact decides_nextDeclaration.many

/-! ## All rules -/

/-- The rules of the grammar, and what stands in their choices, options and lists. -/
inductive IsPart : {α : Type} → Rule α → Prop
  | token (kind : TokenKind) : IsPart (token kind)
  | identifier : IsPart identifier
  | operator {Op : Type} (ofToken? : TokenKind → Option Op) : IsPart (operator ofToken?)
  | writtenType : IsPart writtenType
  | typeAnnotation : IsPart typeAnnotation
  | variableName : IsPart variableName
  | grouped : IsPart (grouped expression)
  | value : IsPart (value expression)
  | access (kind : AccessKind) (object : Expr) : IsPart (access kind object)
  | call (callee : Expr) : IsPart (call expression callee)
  | cast (operand : Expr) : IsPart (cast operand)
  | index (target : Expr) : IsPart (index expression target)
  | suffix (operand : Expr) : IsPart (suffix expression operand)
  | postfixed : IsPart (postfixed expression)
  | prefixed : IsPart (prefixed (unary expression))
  | unary : IsPart (unary expression)
  | binaryRest (p : BinaryOp → Bool) (levels : Nat) (left : Expr) :
      IsPart (binaryRest p (binaryWithin expression levels) left)
  | binaryWithin (levels : Nat) : IsPart (binaryWithin expression levels)
  | assignmentRest (left : Expr) : IsPart (binaryRest BinaryOp.isAssignment expression left)
  | expression : IsPart expression
  | initializer : IsPart initializer
  | variableDecl : IsPart variableDecl
  | labelStmt : IsPart labelStmt
  | gotoStmt : IsPart gotoStmt
  | returnStmt : IsPart returnStmt
  | breakStmt : IsPart breakStmt
  | continueStmt : IsPart continueStmt
  | simpleStmt : IsPart simpleStmt
  | condition : IsPart condition
  | otherwise : IsPart (otherwise scope branch)
  | branch : IsPart branch
  | whileStmt : IsPart (whileStmt scope)
  | forStmt : IsPart (forStmt scope)
  | statement : IsPart statement
  | scope : IsPart scope
  | parameter : IsPart parameter
  | functionDecl : IsPart functionDecl
  | variableLine : IsPart variableLine
  | member : IsPart member
  | classDecl : IsPart classDecl
  | declaration : IsPart declaration
  | nextDeclaration : IsPart nextDeclaration
  | map {α β : Type} {r : Rule α} (f : α → β) (h : IsPart r) : IsPart (f <$> r)
  | closed {α : Type} {r : Rule α} (p : Punctuator) (h : IsPart r) :
      IsPart (do let x ← r; let _ ← expect p; return x)
  | orElse {α : Type} {r q : Rule α} (hr : IsPart r) (hq : IsPart q) : IsPart (r <|> q)
  | behindComma {α : Type} {r : Rule α} {e : Expected} (h : IsPart r) (he : e ≠ .progress) :
      IsPart (r.behindComma e)

theorem IsPart.decides {α : Type} {r : Rule α} (h : IsPart r) : r.Decides := by
  have he := decides_expression
  induction h with
  | token kind => exact decides_token kind
  | identifier => exact decides_identifier
  | operator ofToken? => exact decides_operator ofToken?
  | writtenType => exact decides_writtenType
  | typeAnnotation => exact decides_typeAnnotation
  | variableName => exact decides_variableName
  | grouped => exact decides_grouped he
  | value => exact decides_value he
  | access kind object => exact decides_access kind object
  | call callee => exact decides_call he callee
  | cast operand => exact decides_cast operand
  | index target => exact decides_index he target
  | suffix operand => exact decides_suffix he operand
  | postfixed => exact decides_postfixed he
  | prefixed => exact decides_prefixed (decides_unary he)
  | unary => exact decides_unary he
  | binaryRest p levels left => exact decides_binaryRest (decides_binaryWithin he levels) p left
  | binaryWithin levels => exact decides_binaryWithin he levels
  | assignmentRest left => exact decides_binaryRest he _ left
  | expression => exact he
  | initializer => exact decides_initializer
  | variableDecl => exact decides_variableDecl
  | labelStmt => exact decides_labelStmt
  | gotoStmt => exact decides_gotoStmt
  | returnStmt => exact decides_returnStmt
  | breakStmt => exact decides_breakStmt
  | continueStmt => exact decides_continueStmt
  | simpleStmt => exact decides_simpleStmt
  | condition => exact decides_condition
  | otherwise => exact decides_otherwise decides_scope decides_branch
  | branch => exact decides_branch
  | whileStmt => exact decides_whileStmt decides_scope
  | forStmt => exact decides_forStmt decides_scope
  | statement => exact decides_statement
  | scope => exact decides_scope
  | parameter => exact decides_parameter
  | functionDecl => exact decides_functionDecl
  | variableLine => exact decides_variableLine
  | member => exact decides_member
  | classDecl => exact decides_classDecl
  | declaration => exact decides_declaration
  | nextDeclaration => exact decides_nextDeclaration
  | map f h ih => exact ih.map f
  | closed p h ih => exact ih.closed p
  | orElse hr hq ihr ihq => exact ihr.orElse ihq
  | behindComma h hne ih => exact ih.behindComma hne

end Grammar

namespace ParseError

/-- What the error says was expected. -/
def expected? : ParseError → Option Expected
  | .unexpectedToken expected _ _ | .prematureEnd expected _ => some expected
  | .invalidLiteral _ => none

theorem expected?_ofPosition {s : TokenStream} {e e' : Expected}
    (h : (ofPosition s e).expected? = some e') : e = e' := by
  unfold ofPosition at h
  split at h
  · simp [expected?] at h
  · split at h <;> simpa [expected?] using h

end ParseError

theorem Block.expected?_of_parse {tokens : List Token} {source : String} {err : ParseError}
    (h : Block.parse tokens source = .error err) : err.expected? ≠ some .progress := by
  obtain ⟨p, e, hreject, rfl⟩ := Block.reject_of_parse h
  intro hprogress
  obtain rfl := ParseError.expected?_ofPosition hprogress
  rw [Grammar.block_eq] at hreject
  exact (Grammar.continues_declarations.map _).reject (Rule.located_eq_reject.1 hreject) rfl

theorem Expr.expected?_of_parse {tokens : List Token} {source : String} {err : ParseError}
    (h : Expr.parse tokens source = .error err) : err.expected? ≠ some .progress := by
  intro hprogress
  simp only [Expr.parse] at h
  cases he : Grammar.expression.required .expression
    (.ofTokens (Token.significant tokens) source) with
  | accept e rest =>
    rw [he] at h
    by_cases hend : rest.atEnd
    · simp [Reply.result, hend, Bind.bind, Except.bind, pure, Except.pure] at h
    · obtain rfl : ParseError.ofPosition rest (.token .eof) = err := by
        simpa [Reply.result, hend, Bind.bind, Except.bind, throw, throwThe, MonadExceptOf.throw]
          using h
      simpa using ParseError.expected?_ofPosition hprogress
  | decline p e => exact Rule.firm_required _ _ _ p e he
  | reject p e =>
    obtain rfl : ParseError.ofPosition p e = err := by
      simpa [he, Reply.result, Bind.bind, Except.bind] using h
    exact Grammar.continues_expression.reject he (ParseError.expected?_ofPosition hprogress)

/-- Every rule of the grammar reads tokens or leaves the stream as it is, so that an alternative
begins where the one before it was tried; every loop ends by the answer of its last turn; and no
error of parsing is for lack of progress. -/
theorem Grammar.parts_decide :
    (∀ (α : Type) (r : Rule α), IsPart r → r.Decides ∧ (Rule.many r).Continues ∧ ∀ s,
      Rule.Repeats r s (Rule.many r s) ∧ ∀ p e, r s = .decline p e →
        Rule.optional r s = .accept none s ∧ ∀ q : Rule α, (r <|> q) s = q s) ∧
    (∀ operand s, Rule.Iterates (suffix expression) operand s
      (Rule.iterate (suffix expression) operand s)) ∧
    (∀ p levels left s, Rule.Iterates (binaryRest p (binaryWithin expression levels)) left s
      (Rule.iterate (binaryRest p (binaryWithin expression levels)) left s)) ∧
    (∀ s, Rule.Repeats nextDeclaration s (declarations s)) ∧
    ∀ tokens source err,
      Block.parse tokens source = .error err ∨ Expr.parse tokens source = .error err →
        err.expected? ≠ some .progress := by
  have hexpression := decides_expression
  refine ⟨fun α r h => ⟨h.decides, h.decides.many, fun s => ⟨h.decides.repeats s,
    fun p e hp => ⟨?_, fun q => ?_⟩⟩⟩, fun operand s => ?_, fun p levels left s => ?_,
    fun s => ?_, fun tokens source err h => ?_⟩
  · rw [h.decides.optional_eq, hp]
  · rw [h.decides.orElse_eq, hp]
  · exact Rule.Decides.iterates (decides_suffix hexpression) (declinesEmpty_suffix _) operand s
  · exact Rule.Decides.iterates (decides_binaryRest (decides_binaryWithin hexpression levels) p)
      (declinesEmpty_binaryRest p _) left s
  · rw [declarations_eq_many]
    exact decides_nextDeclaration.repeats s
  · exact h.elim Block.expected?_of_parse Expr.expected?_of_parse

/-- In front of `class C { }`, the rule of functions leaves all to the rule of classes, which reads
it; `class C` by itself ends in an error that names what is missing. -/
theorem Grammar.parts_decide_class :
    let s : TokenStream := .ofTokens [⟨.keyword .classWord, ⟨0, 5, 0⟩, none⟩,
      ⟨.identifier, ⟨6, 7, 0⟩, some "C"⟩, ⟨.punctuator .openBrace, ⟨8, 9, 0⟩, none⟩,
      ⟨.punctuator .closeBrace, ⟨10, 11, 0⟩, none⟩, .eof 11 0] "class C { }"
    let err : ParseError := .prematureEnd (.token (.punctuator .openBrace)) ⟨11, 11, 0⟩
    (∃ d rest, classDecl s = .accept d rest ∧ rest.start = 4 ∧ ∃ n, 0 < n ∧ s.Past n rest) ∧
      functionDecl s = .decline s (.token (.keyword .fnWord)) ∧
      (∀ q, (functionDecl <|> q) s = q s) ∧
      Block.parse (s.tokens.take 2 ++ [.eof 11 0]) "class C { }" = .error err ∧
      err.expected? ≠ some .progress := by
  intro s err
  obtain ⟨hparts, -, -, -, herrors⟩ := Grammar.parts_decide
  have hclass : ∃ d rest, classDecl s = .accept d rest ∧ rest.start = 4 := ⟨_, _, rfl, rfl⟩
  have hfunction : functionDecl s = .decline s (.token (.keyword .fnWord)) := by rfl
  have hparse : Block.parse (s.tokens.take 2 ++ [.eof 11 0]) "class C { }" = .error err := by rfl
  obtain ⟨d, rest, hd, hstart⟩ := hclass
  exact ⟨⟨d, rest, hd, hstart, (hparts _ _ .classDecl).1.accept hd⟩, hfunction,
    (((hparts _ _ .functionDecl).2.2 s).2 _ _ hfunction).2, hparse, herrors _ _ _ (.inl hparse)⟩

end Sable
