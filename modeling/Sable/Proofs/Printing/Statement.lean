import Sable.Proofs.Printing.Expression

/-!
# Printed statements are read back

A statement begins with a word of its own, or with something that begins an expression, so that one
rule is left to read it. A condition without `else` must not be followed by one.

## Main definitions

* `Stmt.Readable`, `Branch.Readable`, `Scope.Readable`: what is printed is read back, with any
  large enough bound.

## Main statements

* `Grammar.reads_expression`, `Grammar.reads_variableDecl`, `Grammar.reads_scope`: the rules.
-/
namespace Sable

open Lexeme TokenStream Rule

/-- The kind of a token that ends an expression. -/
def TokenKind.Ends (next : Option TokenKind) : Prop := ∃ kind, next = some kind ∧
  kind.joinLevel? = none

theorem Expr.stops_of_ends {c : Bool} {next : Option TokenKind} (h : TokenKind.Ends next) :
    Expr.Stops 0 c next := by
  obtain ⟨kind, rfl, hkind⟩ := h
  exact stops_of_joinLevel? hkind

theorem TokenKind.Ends.ne_punctuator {next : Option TokenKind} (h : TokenKind.Ends next)
    (op : BinaryOp) : next ≠ some (.punctuator op.punctuator) := by
  rintro rfl
  obtain ⟨kind, ⟨⟩, hkind⟩ := h
  simp [op.joinLevel?_punctuator] at hkind

/-- The first word of an expression is one that begins expressions. -/
theorem Expr.exists_lexemes_eq_cons (numeral : Value → String) (e : Expr) :
    ∃ l ls, e.lexemes numeral = l :: ls ∧ l.kind.startsExpression = true := by
  have hparens : ∀ (parens : Bool) (ls : List Lexeme),
      (∃ l ls', ls = l :: ls' ∧ l.kind.startsExpression = true) →
      ∃ l ls', parenthesized parens ls = l :: ls' ∧ l.kind.startsExpression = true := by
    intro parens ls h
    cases parens with
    | false => exact h
    | true => exact ⟨_, _, rfl, rfl⟩
  have happend : ∀ ls ms : List Lexeme,
      (∃ l ls', ls = l :: ls' ∧ l.kind.startsExpression = true) →
      ∃ l ls', ls ++ ms = l :: ls' ∧ l.kind.startsExpression = true := by
    rintro _ ms ⟨l, ls', rfl, hl⟩
    exact ⟨l, ls' ++ ms, rfl, hl⟩
  cases e with
  | value _ v =>
    refine ⟨_, [], rfl, ?_⟩
    cases v with
    | boolean b => cases b <;> rfl
    | _ => rfl
  | unary _ op _ => exact ⟨_, _, rfl, by cases op <;> rfl⟩
  | binary _ _ left _ => exact happend _ _ (hparens _ _ (left.exists_lexemes_eq_cons numeral))
  | access _ _ object _ => exact happend _ _ (hparens _ _ (object.exists_lexemes_eq_cons numeral))
  | call _ callee _ =>
    exact happend _ _ (happend _ _ (hparens _ _ (callee.exists_lexemes_eq_cons numeral)))
  | cast _ operand _ => exact happend _ _ (hparens _ _ (operand.exists_lexemes_eq_cons numeral))
  | index _ target _ =>
    exact happend _ _ (happend _ _ (hparens _ _ (target.exists_lexemes_eq_cons numeral)))

namespace Rule

variable {α β γ : Type}

/-- What is there or not is read, if what follows shows that it is not there. -/
theorem reads_optional {r : Rule α} {bare : α → β} {lexemes : γ → List Lexeme} {target : γ → β}
    {x : Option γ} {next : Option TokenKind → Prop}
    (hr : ∀ y ∈ x, r.Reads bare (lexemes y) (target y) next) :
    (optional r).Reads (Option.map bare) (Option.lexemes lexemes x) (x.map target)
      fun k => next k ∧ ∀ s : TokenStream, s.firstKind? = k → r.Declines s := by
  rintro s ms rest hs ⟨hms, hdeclines⟩
  cases x with
  | none => exact ⟨none, s, optional_accept_none (hdeclines s hs.firstKind?), rfl, hs⟩
  | some y =>
    obtain ⟨z, s', hz, hzy, hs'⟩ := hr y rfl hs hms
    exact ⟨some z, s', optional_accept_some hz, by simp [hzy], hs'⟩

end Rule

namespace Grammar

variable {numeral : Value → String}

theorem reads_expression {e : Expr} (h : e.tree.Writable numeral) :
    expression.Reads Expr.bare (e.lexemes numeral) e.bare TokenKind.Ends := by
  intro s ms rest hs hms
  have hlen : (e.lexemes numeral).length ≤ s.tokens.length := by
    rw [hs.length_tokens, List.length_append]
    omega
  exact (Expr.readable e h).readBy_expressionWithin hlen hs (Expr.stops_of_ends hms)

theorem declines_expression {s : TokenStream} {kind : TokenKind} (h : s.firstKind? = some kind)
    (hkind : kind.startsExpression = false) : expression.Declines s := by
  refine Expr.declines_expressionWithin ?_
  rw [h]
  rintro _ ⟨⟩
  exact hkind

/-- What ends an expression and does not begin one. -/
theorem reads_optional_expression {e : Option Expr} (h : ∀ e' ∈ e, e'.tree.Writable numeral) :
    (optional expression).Reads (Option.map Expr.bare) (Option.lexemes (Expr.lexemes numeral) e)
      (e.map Expr.bare) fun next => ∃ kind, next = some kind ∧ kind.joinLevel? = none ∧
        kind.startsExpression = false := by
  rintro s ms rest hs ⟨kind, hkind, hjoin, hstarts⟩
  refine reads_optional (fun e' he' => reads_expression (h e' he')) hs ⟨⟨kind, hkind, hjoin⟩, ?_⟩
  intro s hfirst
  exact declines_expression (hfirst.trans hkind) hstarts

theorem reads_annotatedType (t : WrittenType) :
    typeAnnotation.Reads WrittenType.bare (sign .colon :: t.lexemes) t.bare
      fun next => next ≠ some (.punctuator .star) := by
  intro s ms rest hs hms
  obtain ⟨u, s₁, hu, hs⟩ := exists_punctuator_accept hs
  obtain ⟨t', s₂, ht', hbare, hs⟩ := Expr.reads_writtenType t hs hms
  exact ⟨t', s₂, bind_accept hu (required_accept ht'), hbare, hs⟩

theorem reads_variableDecl {d : VariableDecl} (h : d.tree.Writable numeral) :
    variableDecl.Reads VariableDecl.bare (d.lexemes numeral) d.bare TokenKind.Ends := by
  have hinit : ∀ e ∈ d.initializer,
      (do let _ ← punctuator .assign; expression.required .expression : Rule Expr).Reads Expr.bare
        (sign .assign :: e.lexemes numeral) e.bare TokenKind.Ends := by
    intro e he s ms rest hs hms
    have hwritable : e.tree.Writable numeral :=
      (Tree.writable_node.1 h).2 _ (by simp [Expr.optionTrees, Option.mem_def.1 he])
    obtain ⟨t, s₁, ht, hs⟩ := exists_punctuator_accept hs
    obtain ⟨y, s₂, hy, hye, hs⟩ := reads_expression hwritable hs hms
    exact ⟨y, s₂, bind_accept ht (required_accept hy), hye, hs⟩
  intro s ms rest hs hms
  simp only [VariableDecl.lexemes, List.cons_append, List.append_assoc] at hs
  obtain ⟨t, s₁, ht, hs⟩ := exists_keyword_accept hs
  obtain ⟨name, s₂, hname, hnamebare, hs⟩ := exists_identifier_accept hs
  rw [← List.cons_append] at hs
  obtain ⟨type, s₃, htype, htypebare, hs⟩ := reads_annotatedType d.type hs (by
    cases hd : d.initializer with
    | none => exact hms.ne_punctuator .mul
    | some e => simp [Option.lexemes, nextKind?, sign])
  obtain ⟨init, s₄, hi, hinitbare, hs⟩ := reads_optional hinit hs
    ⟨hms, fun s hfirst => .bind (declines_token (hfirst ▸ hms.ne_punctuator .assign)) _⟩
  have hdecl : variableDecl s = _ := located_eq_accept.2 ⟨_, s₄,
    bind_accept ht <| bind_accept (required_accept hname) <| bind_accept (required_accept htype) <|
      bind_accept hi rfl, rfl, rfl⟩
  exact ⟨_, _, hdecl, by simp [VariableDecl.bare, hnamebare, htypebare, hinitbare], hs⟩

theorem reads_condition {e : Expr} (h : e.tree.Writable numeral) :
    condition.Reads Expr.bare (sign .openParen :: e.lexemes numeral ++ [sign .closeParen]) e.bare
      fun _ => True := by
  intro s ms rest hs _
  simp only [List.cons_append, List.append_assoc] at hs
  obtain ⟨t, s₁, ht, hs⟩ := exists_expect_accept hs
  obtain ⟨y, s₂, hy, hye, hs⟩ := reads_expression h hs ⟨_, rfl, rfl⟩
  obtain ⟨u, s₃, hu, hs⟩ := exists_expect_accept hs
  exact ⟨y, s₃, bind_accept ht (bind_accept (required_accept hy) (bind_accept hu rfl)), hye, hs⟩

theorem reads_forInit {init : ForInit} (h : ∀ t ∈ init.trees, t.Writable numeral) :
    forInit.Reads ForInit.bare (init.lexemes numeral) init.bare
      fun next => next = some (.punctuator .semicolon) := by
  rintro s ms rest hs hms
  have hfirst := hs.firstKind?
  have hends : TokenKind.Ends (nextKind? ms rest) := ⟨_, hms, rfl⟩
  match init with
  | .nothing =>
    have hfirst : s.firstKind? = some (.punctuator .semicolon) := hfirst.trans hms
    refine ⟨.nothing, s, orElse_accept (.map (.located (.bind (declines_token ?_) _)) _) <|
      orElse_accept (.map (declines_expression hfirst rfl) _) rfl, rfl, hs⟩
    simp [hfirst]
  | .variable d =>
    obtain ⟨d', s', hd, hbare, hs⟩ := reads_variableDecl (h _ (by simp [ForInit.trees])) hs hends
    exact ⟨.variable d', s', orElse_accept_left (map_eq_accept.2 ⟨d', hd, rfl⟩),
      by simp [ForInit.bare, hbare], hs⟩
  | .expr e =>
    obtain ⟨l, ls, hl, hstarts⟩ := e.exists_lexemes_eq_cons numeral
    obtain ⟨y, s', hy, hye, hs⟩ := reads_expression (h _ (by simp [ForInit.trees])) hs hends
    refine ⟨.expr y, s', orElse_accept (.map (.located (.bind (declines_token ?_) _)) _) <|
      orElse_accept_left (map_eq_accept.2 ⟨y, hy, rfl⟩), by simp [ForInit.bare, hye], hs⟩
    rw [hfirst, ForInit.lexemes, hl, List.cons_append, nextKind?]
    intro heq
    rw [Option.some.inj heq] at hstarts
    exact absurd hstarts (by decide)

/-! ## Statements that end in a semicolon -/

section

variable {s : TokenStream} {k : Keyword}

theorem declines_worded {α : Type} {f : Token → Rule (Place → α)}
    (h : s.firstKind? ≠ some (.keyword k)) : (located (keyword k >>= f)).Declines s :=
  .located (.bind (declines_token h) _)

end

/-- The words of a simple statement are read, up to the semicolon. -/
def ReadsSimple (ls : List Lexeme) (x : Stmt) : Prop :=
  simpleStmt.Reads Stmt.bare ls x.bare fun next => next = some (.punctuator .semicolon)

theorem readsSimple_label (place : Place) (name : Ident) :
    ReadsSimple [word .labelWord, .name name] (.label place name) := by
  intro s ms rest hs _
  obtain ⟨t, s₁, ht, hs⟩ := exists_keyword_accept hs
  obtain ⟨name', s₂, hname, hbare, hs⟩ := exists_identifier_accept hs
  have hstmt : labelStmt s = _ := located_eq_accept.2
    ⟨_, s₂, bind_accept ht (bind_accept (required_accept hname) rfl), rfl, rfl⟩
  exact ⟨_, _, orElse_accept_left hstmt, by simp [hbare], hs⟩

theorem readsSimple_goto (place : Place) (label : Ident) :
    ReadsSimple [word .gotoWord, .name label] (.goto place label) := by
  intro s ms rest hs _
  have hfirst : s.firstKind? = some (.keyword .gotoWord) := hs.firstKind?
  obtain ⟨t, s₁, ht, hs⟩ := exists_keyword_accept hs
  obtain ⟨label', s₂, hlabel, hbare, hs⟩ := exists_identifier_accept hs
  have hstmt : gotoStmt s = _ := located_eq_accept.2
    ⟨_, s₂, bind_accept ht (bind_accept (required_accept hlabel) rfl), rfl, rfl⟩
  refine ⟨_, _, orElse_accept (declines_worded ?_) (orElse_accept_left hstmt),
    by simp [hbare], hs⟩
  simp [hfirst]

theorem readsSimple_returns (place : Place) {value : Option Expr}
    (h : ∀ e ∈ value, e.tree.Writable numeral) :
    ReadsSimple (word .returnWord :: Option.lexemes (Expr.lexemes numeral) value)
      (.returns place value) := by
  intro s ms rest hs hms
  have hfirst : s.firstKind? = some (.keyword .returnWord) := hs.firstKind?
  obtain ⟨t, s₁, ht, hs⟩ := exists_keyword_accept hs
  obtain ⟨value', s₂, hvalue, hbare, hs⟩ :=
    reads_optional_expression h hs ⟨_, hms, rfl, rfl⟩
  have hstmt : returnStmt s = _ := located_eq_accept.2
    ⟨_, s₂, bind_accept ht (bind_accept hvalue rfl), rfl, rfl⟩
  refine ⟨_, _, orElse_accept (declines_worded ?_) <| orElse_accept (declines_worded ?_) <|
    orElse_accept_left hstmt, by simp [hbare], hs⟩ <;> simp [hfirst]

theorem readsSimple_breakLoop (place : Place) :
    ReadsSimple [word .breakWord] (.breakLoop place) := by
  intro s ms rest hs _
  have hfirst : s.firstKind? = some (.keyword .breakWord) := hs.firstKind?
  obtain ⟨t, s₁, ht, hs⟩ := exists_keyword_accept hs
  have hstmt : breakStmt s = _ := located_eq_accept.2 ⟨_, s₁, bind_accept ht rfl, rfl, rfl⟩
  refine ⟨_, _, orElse_accept (declines_worded ?_) <| orElse_accept (declines_worded ?_) <|
    orElse_accept (declines_worded ?_) <| orElse_accept_left hstmt, rfl, hs⟩ <;>
    simp [hfirst]

theorem readsSimple_continueLoop (place : Place) :
    ReadsSimple [word .continueWord] (.continueLoop place) := by
  intro s ms rest hs _
  have hfirst : s.firstKind? = some (.keyword .continueWord) := hs.firstKind?
  obtain ⟨t, s₁, ht, hs⟩ := exists_keyword_accept hs
  have hstmt : continueStmt s = _ := located_eq_accept.2 ⟨_, s₁, bind_accept ht rfl, rfl, rfl⟩
  refine ⟨_, _, orElse_accept (declines_worded ?_) <| orElse_accept (declines_worded ?_) <|
    orElse_accept (declines_worded ?_) <| orElse_accept (declines_worded ?_) <|
    orElse_accept_left hstmt, rfl, hs⟩ <;> simp [hfirst]

theorem readsSimple_variable {d : VariableDecl} (h : d.tree.Writable numeral) :
    ReadsSimple (d.lexemes numeral) (.variable d) := by
  intro s ms rest hs hms
  have hfirst : s.firstKind? = some (.keyword .varWord) := hs.firstKind?
  obtain ⟨d', s', hd, hbare, hs⟩ := reads_variableDecl h hs ⟨_, hms, rfl⟩
  refine ⟨_, _, orElse_accept (declines_worded ?_) <| orElse_accept (declines_worded ?_) <|
    orElse_accept (declines_worded ?_) <| orElse_accept (declines_worded ?_) <|
    orElse_accept (declines_worded ?_) <|
    orElse_accept_left (map_eq_accept.2 ⟨d', hd, rfl⟩),
    by simp [hbare], hs⟩ <;> simp [hfirst]

theorem readsSimple_expr {e : Expr} (h : e.tree.Writable numeral) :
    ReadsSimple (e.lexemes numeral) (.expr e) := by
  intro s ms rest hs hms
  have hne : ∀ k : Keyword, (TokenKind.keyword k).startsExpression = false →
      s.firstKind? ≠ some (.keyword k) := by
    intro k hk heq
    obtain ⟨l, ls, hl, hstarts⟩ := e.exists_lexemes_eq_cons numeral
    rw [hs.firstKind?, hl, List.cons_append, nextKind?] at heq
    rw [Option.some.inj heq, hk] at hstarts
    simp at hstarts
  obtain ⟨y, s', hy, hye, hs⟩ := reads_expression h hs ⟨_, hms, rfl⟩
  exact ⟨_, _, orElse_accept (declines_worded (hne _ rfl)) <|
    orElse_accept (declines_worded (hne _ rfl)) <| orElse_accept (declines_worded (hne _ rfl)) <|
    orElse_accept (declines_worded (hne _ rfl)) <| orElse_accept (declines_worded (hne _ rfl)) <|
    orElse_accept (.map (declines_worded (hne _ rfl)) _) (map_eq_accept.2 ⟨y, hy, rfl⟩),
    by simp [hye], hs⟩

/-! ## Nesting -/

theorem declines_branchWithin {s : TokenStream} {bound : List Token}
    (h : s.firstKind? ≠ some (.keyword .ifWord)) : (branchWithin bound).Declines s := by
  cases bound with
  | nil => exact ⟨s, _, rfl, rfl⟩
  | cons t bound => exact declines_worded h

/-- Statements in which nothing is nested deeper than the bound is long. -/
def statementWithin (bound : List Token) : Rule Stmt :=
  statementOf (scopeWithin bound) (branchWithin bound)

theorem yields_statementWithin (bound : List Token) : (statementWithin bound).Yields
    (fun x => [x.tree]) fun source x => x.phrases source :=
  yields_statementOf (yields_scopeWithin_branchWithin bound).1
    (yields_scopeWithin_branchWithin bound).2

/-- A statement does not begin with a closing brace. -/
theorem declines_statementWithin {s : TokenStream} {bound : List Token}
    (h : s.firstKind? = some (.punctuator .closeBrace)) : (statementWithin bound).Declines s := by
  have hne : ∀ k, s.firstKind? ≠ some (.keyword k) := by simp [h]
  have hsimple : simpleStmt.Declines s :=
    .orElse (declines_worded (hne _)) <| .orElse (declines_worded (hne _)) <|
    .orElse (declines_worded (hne _)) <| .orElse (declines_worded (hne _)) <|
    .orElse (declines_worded (hne _)) <| .orElse (.map (declines_worded (hne _)) _) <|
    .map (declines_expression h rfl) _
  exact .orElse (.map (declines_branchWithin (hne _)) _) <| .orElse (declines_worded (hne _)) <|
    .orElse (declines_worded (hne _)) (hsimple.bind _)

/-- The words that begin conditions and loops. -/
def nestingWords : List Keyword := [.ifWord, .whileWord, .forWord]

theorem reads_statementWithin_simple {x : Stmt} {l : Lexeme} {ls : List Lexeme}
    (hx : ReadsSimple (l :: ls) x) (hl : ∀ k ∈ nestingWords, l.kind ≠ .keyword k)
    (bound : List Token) :
    (statementWithin bound).Reads Stmt.bare (l :: ls ++ [sign .semicolon]) x.bare
      fun _ => True := by
  intro s ms rest hs _
  rw [List.append_assoc] at hs
  have hne : ∀ k ∈ nestingWords, s.firstKind? ≠ some (.keyword k) := by
    intro k hk heq
    rw [hs.firstKind?, List.cons_append, nextKind?] at heq
    exact hl k hk (Option.some.inj heq)
  obtain ⟨y, s₁, hy, hyx, hs⟩ := hx hs rfl
  obtain ⟨t, s₂, ht, hs⟩ := exists_expect_accept hs
  exact ⟨y, s₂, orElse_accept (.map (declines_branchWithin (hne _ (by decide))) _) <|
    orElse_accept (declines_worded (hne _ (by decide))) <|
    orElse_accept (declines_worded (hne _ (by decide))) <|
    bind_accept hy (bind_accept ht rfl), hyx, hs⟩

end Grammar

open Grammar

variable (numeral : Value → String)

/-- The printed statement is read back, if no `else` follows. -/
def Stmt.Readable (x : Stmt) : Prop :=
  ∀ bound : List Token, (x.lexemes numeral).length ≤ bound.length →
    (statementWithin bound).Reads Stmt.bare (x.lexemes numeral) x.bare
      fun next => next ≠ some (.keyword .elseWord)

def Branch.Readable (x : Branch) : Prop :=
  ∀ bound : List Token, (x.lexemes numeral).length ≤ bound.length →
    (branchWithin bound).Reads Branch.bare (x.lexemes numeral) x.bare
      fun next => next ≠ some (.keyword .elseWord)

def Otherwise.Readable (x : Otherwise) : Prop :=
  ∀ bound : List Token, (x.lexemes numeral).length ≤ bound.length →
    (optional (otherwise (scopeWithin bound) (branchWithin bound))).Reads
      (fun rest => (rest.getD .nothing).bare) (x.lexemes numeral) x.bare
      fun next => next ≠ some (.keyword .elseWord)

def Scope.Readable (x : Scope) : Prop :=
  ∀ bound : List Token, (x.lexemes numeral).length ≤ bound.length →
    (scopeWithin bound).Reads Scope.bare (x.lexemes numeral) x.bare fun _ => True

variable {numeral : Value → String}

/-- No statement begins with `else`. -/
theorem Stmt.exists_lexemes_eq_cons (numeral : Value → String) (x : Stmt) :
    ∃ l ls, x.lexemes numeral = l :: ls ∧ l.kind ≠ .keyword .elseWord := by
  match x with
  | .expr e =>
    obtain ⟨l, ls, hl, hstarts⟩ := e.exists_lexemes_eq_cons numeral
    refine ⟨l, ls ++ [sign .semicolon], by rw [Stmt.lexemes, hl]; rfl, ?_⟩
    intro heq
    rw [heq] at hstarts
    exact absurd hstarts (by decide)
  | .branch (.mk p condition body otherwise) =>
    exact ⟨_, _, rfl, by simp [word]⟩
  | .variable d => exact ⟨_, _, rfl, by simp [word]⟩
  | .label .. | .goto .. | .returns .. | .breakLoop _ | .continueLoop _ | .whileLoop ..
  | .forLoop .. => exact ⟨_, _, rfl, by simp [word]⟩

theorem Stmt.readable_simple {x : Stmt} {l : Lexeme} {ls : List Lexeme}
    (hlexemes : x.lexemes numeral = l :: ls ++ [sign .semicolon]) (hx : ReadsSimple (l :: ls) x)
    (hl : ∀ k ∈ nestingWords, l.kind ≠ .keyword k) : x.Readable numeral := by
  intro bound _ s ms rest hs _
  rw [hlexemes] at hs
  exact reads_statementWithin_simple hx hl bound hs trivial

theorem Stmt.readable_branch {b : Branch} (h : b.Readable numeral) :
    (Stmt.branch b).Readable numeral := by
  intro bound hbound s ms rest hs hms
  rw [Stmt.lexemes] at hbound hs
  obtain ⟨y, s', hy, hyb, hs⟩ := h bound hbound hs hms
  exact ⟨.branch y, s', orElse_accept_left (map_eq_accept.2 ⟨y, hy, rfl⟩),
    by simp [hyb], hs⟩

theorem Stmt.readable_whileLoop (place : Place) {condition : Expr} {body : Scope}
    (hcondition : condition.tree.Writable numeral) (hbody : body.Readable numeral) :
    (Stmt.whileLoop place condition body).Readable numeral := by
  intro bound hbound s ms rest hs _
  simp only [Stmt.lexemes, List.length_cons, List.length_append, List.cons_append] at hbound
  have hwords : (Stmt.whileLoop place condition body).lexemes numeral ++ ms =
      word .whileWord :: ((sign .openParen :: condition.lexemes numeral ++ [sign .closeParen]) ++
        (body.lexemes numeral ++ ms)) := by
    simp [Stmt.lexemes]
  rw [hwords] at hs
  have hfirst : s.firstKind? = some (.keyword .whileWord) := hs.firstKind?
  obtain ⟨t, s₁, ht, hs⟩ := exists_keyword_accept hs
  obtain ⟨y, s₂, hy, hybare, hs⟩ := reads_condition hcondition hs trivial
  obtain ⟨z, s₃, hz, hzbare, hs⟩ := hbody bound (by omega) hs trivial
  have hstmt : whileStmt (scopeWithin bound) s = _ := located_eq_accept.2 ⟨_, s₃,
    bind_accept ht (bind_accept hy (bind_accept (required_accept hz) rfl)), rfl, rfl⟩
  refine ⟨_, _, orElse_accept (.map (declines_branchWithin ?_) _)
    (orElse_accept_left hstmt), by simp [hybare, hzbare], hs⟩
  simp [hfirst]

theorem Stmt.readable_forLoop (place : Place) {init : ForInit} {condition step : Option Expr}
    {body : Scope} (hinit : ∀ t ∈ init.trees, t.Writable numeral)
    (hcondition : ∀ e ∈ condition, e.tree.Writable numeral)
    (hstep : ∀ e ∈ step, e.tree.Writable numeral) (hbody : body.Readable numeral) :
    (Stmt.forLoop place init condition step body).Readable numeral := by
  intro bound hbound s ms rest hs _
  simp only [Stmt.lexemes, List.length_cons, List.length_append, List.cons_append] at hbound
  have hwords : (Stmt.forLoop place init condition step body).lexemes numeral ++ ms =
      word .forWord :: sign .openParen :: (init.lexemes numeral ++ sign .semicolon ::
        (Option.lexemes (Expr.lexemes numeral) condition ++ sign .semicolon ::
          (Option.lexemes (Expr.lexemes numeral) step ++ sign .closeParen ::
            (body.lexemes numeral ++ ms)))) := by
    simp [Stmt.lexemes]
  rw [hwords] at hs
  have hfirst : s.firstKind? = some (.keyword .forWord) := hs.firstKind?
  obtain ⟨t₁, s₁, ht₁, hs⟩ := exists_keyword_accept hs
  obtain ⟨t₂, s₂, ht₂, hs⟩ := exists_expect_accept hs
  obtain ⟨init', s₃, hinit', hinitbare, hs⟩ := reads_forInit hinit hs rfl
  obtain ⟨t₃, s₄, ht₃, hs⟩ := exists_expect_accept hs
  obtain ⟨c, s₅, hc, hcbare, hs⟩ := reads_optional_expression hcondition hs ⟨_, rfl, rfl, rfl⟩
  obtain ⟨t₄, s₆, ht₄, hs⟩ := exists_expect_accept hs
  obtain ⟨e, s₇, he, hebare, hs⟩ := reads_optional_expression hstep hs ⟨_, rfl, rfl, rfl⟩
  obtain ⟨t₅, s₈, ht₅, hs⟩ := exists_expect_accept hs
  obtain ⟨z, s₉, hz, hzbare, hs⟩ := hbody bound (by omega) hs trivial
  have hstmt : forStmt (scopeWithin bound) s = _ := located_eq_accept.2 ⟨_, s₉,
    bind_accept ht₁ <| bind_accept ht₂ <| bind_accept hinit' <| bind_accept ht₃ <|
      bind_accept hc <| bind_accept ht₄ <| bind_accept he <| bind_accept ht₅ <|
      bind_accept (required_accept hz) rfl, rfl, rfl⟩
  refine ⟨_, _, orElse_accept (.map (declines_branchWithin ?_) _) <|
    orElse_accept (declines_worded ?_) (orElse_accept_left hstmt),
    by simp [hinitbare, hcbare, hebare, hzbare], hs⟩ <;> simp [hfirst]

theorem Branch.readable_mk (place : Place) {condition : Expr} {body : Scope}
    {otherwise : Otherwise} (hcondition : condition.tree.Writable numeral)
    (hbody : body.Readable numeral) (hotherwise : otherwise.Readable numeral) :
    (Branch.mk place condition body otherwise).Readable numeral := by
  intro bound hbound s ms rest hs hms
  simp only [Branch.lexemes, List.length_cons, List.length_append, List.cons_append] at hbound
  cases bound with
  | nil =>
    simp only [List.length_nil] at hbound
    omega
  | cons t bound =>
    simp only [List.length_cons] at hbound
    have hwords : (Branch.mk place condition body otherwise).lexemes numeral ++ ms =
        word .ifWord :: ((sign .openParen :: condition.lexemes numeral ++ [sign .closeParen]) ++
          (body.lexemes numeral ++ (otherwise.lexemes numeral ++ ms))) := by
      simp [Branch.lexemes]
    rw [hwords] at hs
    obtain ⟨t, s₁, ht, hs⟩ := exists_keyword_accept hs
    obtain ⟨y, s₂, hy, hybare, hs⟩ := reads_condition hcondition hs trivial
    obtain ⟨z, s₃, hz, hzbare, hs⟩ := hbody bound (by omega) hs trivial
    obtain ⟨o, s₄, ho, hobare, hs⟩ := hotherwise bound (by omega) hs hms
    have hbranch : branchOf (scopeWithin bound) (branchWithin bound) s = _ :=
      located_eq_accept.2 ⟨_, s₄, bind_accept ht <| bind_accept hy <|
        bind_accept (required_accept hz) <| bind_accept ho rfl, rfl, rfl⟩
    exact ⟨_, _, hbranch, by simp [hybare, hzbare, hobare], hs⟩

theorem Otherwise.readable_nothing : Otherwise.nothing.Readable numeral := by
  intro bound _ s ms rest hs hms
  rw [Otherwise.lexemes, List.nil_append] at hs
  have hne : s.firstKind? ≠ some (.keyword .elseWord) := by rwa [hs.firstKind?]
  exact ⟨none, s, optional_accept_none (.bind (declines_token hne) _), rfl, hs⟩

theorem Otherwise.readable_branch {b : Branch} (h : b.Readable numeral) :
    (Otherwise.branch b).Readable numeral := by
  intro bound hbound s ms rest hs hms
  rw [Otherwise.lexemes, List.length_cons] at hbound
  rw [Otherwise.lexemes, List.cons_append] at hs
  obtain ⟨t, s₁, ht, hs⟩ := exists_keyword_accept hs
  obtain ⟨y, s₂, hy, hybare, hs⟩ := h bound (by omega) hs hms
  exact ⟨some (.branch y), s₂, optional_accept_some <| bind_accept ht <| required_accept <|
    orElse_accept_left (map_eq_accept.2 ⟨y, hy, rfl⟩), by simp [hybare], hs⟩

theorem Otherwise.readable_scope {x : Scope} (h : x.Readable numeral) :
    (Otherwise.scope x).Readable numeral := by
  intro bound hbound s ms rest hs _
  rw [Otherwise.lexemes, List.length_cons] at hbound
  rw [Otherwise.lexemes, List.cons_append] at hs
  obtain ⟨t, s₁, ht, hs⟩ := exists_keyword_accept hs
  have hfirst : s₁.firstKind? = some (.punctuator .openBrace) := by
    cases x with
    | mk p statements => exact hs.firstKind?
  obtain ⟨y, s₂, hy, hybare, hs⟩ := h bound (by omega) hs trivial
  refine ⟨some (.scope y), s₂, optional_accept_some <| bind_accept ht <| required_accept <|
    orElse_accept (.map (declines_branchWithin ?_) _) (map_eq_accept.2 ⟨y, hy, rfl⟩),
    by simp [hybare], hs⟩
  simp [hfirst]

theorem Stmt.length_le_flatMap (numeral : Value → String) {x : Stmt} {xs : List Stmt}
    (h : x ∈ xs) :
    (x.lexemes numeral).length ≤ (xs.flatMap (Stmt.lexemes numeral)).length := by
  obtain ⟨before, behind, rfl⟩ := List.append_of_mem h
  simp only [List.flatMap_append, List.flatMap_cons, List.length_append]
  omega

theorem Scope.readable_mk (place : Place) {statements : List Stmt}
    (h : ∀ x ∈ statements, x.Readable numeral) : (Scope.mk place statements).Readable numeral := by
  intro bound hbound s ms rest hs _
  simp only [Scope.lexemes, Stmt.listLexemes_eq_flatMap, List.length_cons, List.length_append,
    List.cons_append] at hbound
  cases bound with
  | nil =>
    simp only [List.length_nil] at hbound
    omega
  | cons t bound =>
    simp only [List.length_cons] at hbound
    simp only [Scope.lexemes, Stmt.listLexemes_eq_flatMap, List.cons_append, List.append_assoc]
      at hs
    have hreads : ∀ x ∈ statements, (statementWithin bound).Reads Stmt.bare (x.lexemes numeral)
        x.bare fun next => next ≠ some (.keyword .elseWord) := by
      intro x hx
      have hle := Stmt.length_le_flatMap numeral hx
      exact h x hx bound (by omega)
    have hnext : ∀ x ∈ statements, ∃ l ls, x.lexemes numeral = l :: ls ∧
        some l.kind ≠ some (.keyword .elseWord) := by
      intro x _
      obtain ⟨l, ls, hl, hne⟩ := x.exists_lexemes_eq_cons numeral
      exact ⟨l, ls, hl, by simpa using hne⟩
    obtain ⟨t, s₁, ht, hs⟩ := exists_punctuator_accept hs
    obtain ⟨ys, s₂, hys, hysbare, hs⟩ := reads_many (yields_statementWithin bound) hreads hnext hs
      ⟨by simp [nextKind?, sign], fun s hfirst => declines_statementWithin hfirst⟩
    obtain ⟨u, s₃, hu, hs⟩ := exists_expect_accept hs
    have hscope : scopeOf (statementWithin bound) s = _ := located_eq_accept.2 ⟨_, s₃,
      bind_accept ht (bind_accept hys (bind_accept hu rfl)), rfl, rfl⟩
    refine ⟨_, _, hscope, ?_, hs⟩
    simp [Stmt.listBare_eq_map, hysbare]

/-! ## The readable statements -/

mutual

/-- Every statement that can be written is read back. -/
theorem Stmt.readable : (x : Stmt) → x.tree.Writable numeral → x.Readable numeral
  | .label p name, _ => Stmt.readable_simple rfl (readsSimple_label p name) (by decide)
  | .goto p label, _ => Stmt.readable_simple rfl (readsSimple_goto p label) (by decide)
  | .returns p value, h => by
    refine Stmt.readable_simple rfl (readsSimple_returns p fun e he => ?_) (by decide)
    exact (Tree.writable_node.1 h).2 _ (by simp [Expr.optionTrees, Option.mem_def.1 he])
  | .breakLoop p, _ => Stmt.readable_simple rfl (readsSimple_breakLoop p) (by decide)
  | .continueLoop p, _ => Stmt.readable_simple rfl (readsSimple_continueLoop p) (by decide)
  | .variable d, h => Stmt.readable_simple rfl (readsSimple_variable h) (by decide)
  | .expr e, h => by
    obtain ⟨l, ls, hl, hstarts⟩ := e.exists_lexemes_eq_cons numeral
    have hreads := readsSimple_expr h
    rw [hl] at hreads
    refine Stmt.readable_simple (by rw [Stmt.lexemes, hl]) hreads ?_
    intro k hk heq
    rw [heq] at hstarts
    have hdecline : ∀ k ∈ nestingWords, (TokenKind.keyword k).startsExpression = false := by decide
    simp [hdecline k hk] at hstarts
  | .branch b, h => Stmt.readable_branch (b.readable h)
  | .whileLoop p condition body, h => by
    have hwritable := (Tree.writable_node.1 h).2
    exact Stmt.readable_whileLoop p (hwritable _ (by simp)) (body.readable (hwritable _ (by simp)))
  | .forLoop p init condition step body, h => by
    have hwritable := (Tree.writable_node.1 h).2
    refine Stmt.readable_forLoop p (fun t ht => hwritable t (by simp [ht])) (fun e he => ?_)
      (fun e he => ?_) (body.readable (hwritable _ (by simp)))
    · exact hwritable _ (by simp [Expr.optionTrees, Option.mem_def.1 he])
    · exact hwritable _ (by simp [Expr.optionTrees, Option.mem_def.1 he])

theorem Branch.readable : (x : Branch) → x.tree.Writable numeral → x.Readable numeral
  | .mk p condition body otherwise, h => by
    have hwritable := (Tree.writable_node.1 h).2
    refine Branch.readable_mk p (hwritable _ (by simp)) (body.readable (hwritable _ (by simp)))
      (otherwise.readable fun t ht => hwritable t (by simp [ht]))

theorem Otherwise.readable :
    (x : Otherwise) → (∀ t ∈ x.trees, t.Writable numeral) → x.Readable numeral
  | .nothing, _ => Otherwise.readable_nothing
  | .branch b, h => Otherwise.readable_branch (b.readable (h _ (by simp [Otherwise.trees])))
  | .scope x, h => Otherwise.readable_scope (x.readable (h _ (by simp [Otherwise.trees])))

theorem Scope.readable : (x : Scope) → x.tree.Writable numeral → x.Readable numeral
  | .mk p statements, h =>
    Scope.readable_mk p (Stmt.readable_of_mem statements (Tree.writable_node.1 h).2)

theorem Stmt.readable_of_mem : (xs : List Stmt) → (∀ t ∈ Stmt.trees xs, t.Writable numeral) →
    ∀ x ∈ xs, x.Readable numeral
  | [], _ => by simp
  | x :: xs, h => List.forall_mem_cons.2 ⟨x.readable (h _ (by simp [Stmt.trees])),
    Stmt.readable_of_mem xs fun t ht => h t (by simp [Stmt.trees, ht])⟩

end

namespace Grammar

/-- A scope is read back whatever follows it. -/
theorem reads_scope {x : Scope} (h : x.tree.Writable numeral) :
    scope.Reads Scope.bare (x.lexemes numeral) x.bare fun _ => True := by
  intro s ms rest hs hms
  have hlen := hs.length_tokens
  rw [List.length_append] at hlen
  exact x.readable h s.tokens (by omega) hs hms

end Grammar

end Sable
