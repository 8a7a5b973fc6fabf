import Sable.Grammar.Expression

/-!
# The grammar of statements

As with expressions, the rules take the rules for what is nested in them, here scopes and
conditions, and the tokens ahead bound the depth of nesting.

## Main definitions

* `Grammar.variableDecl`: a variable, without the semicolon behind it.
* `Grammar.statement`: any statement.
* `Grammar.scope`: statements in braces.
-/
namespace Sable.Grammar

open Rule

def variableDecl : Rule VariableDecl := located do
  let _ ← keyword .varWord
  let name ← identifier.required .identifier
  let type ← typeAnnotation.required (.token (.punctuator .colon))
  let initializer ← optional do
    let _ ← punctuator .assign
    expression.required .expression
  return fun place => ⟨place, name, type, initializer⟩

/-! ## Statements that end in a semicolon -/

def labelStmt : Rule Stmt := located do
  let _ ← keyword .labelWord
  let name ← identifier.required .identifier
  return fun place => .label place name

def gotoStmt : Rule Stmt := located do
  let _ ← keyword .gotoWord
  let label ← identifier.required .identifier
  return fun place => .goto place label

def returnStmt : Rule Stmt := located do
  let _ ← keyword .returnWord
  let value ← optional expression
  return fun place => .returns place value

def breakStmt : Rule Stmt := located do
  let _ ← keyword .breakWord
  return .breakLoop

def continueStmt : Rule Stmt := located do
  let _ ← keyword .continueWord
  return .continueLoop

def simpleStmt : Rule Stmt :=
  labelStmt <|> gotoStmt <|> returnStmt <|> breakStmt <|> continueStmt <|>
    (Stmt.variable <$> variableDecl) <|> (Stmt.expr <$> expression)

/-! ## Conditions and loops -/

/-- An expression in parentheses. -/
def condition : Rule Expr := do
  let _ ← expect .openParen
  let e ← expression.required .expression
  let _ ← expect .closeParen
  return e

/-- What may follow the scope of a condition. -/
def otherwise (scope : Rule Scope) (branch : Rule Branch) : Rule Otherwise := do
  let _ ← keyword .elseWord
  ((Otherwise.branch <$> branch) <|> (Otherwise.scope <$> scope)).required .scope

def branchOf (scope : Rule Scope) (branch : Rule Branch) : Rule Branch := located do
  let _ ← keyword .ifWord
  let test ← condition
  let body ← scope.required .scope
  let rest ← optional (otherwise scope branch)
  return fun place => .mk place test body (rest.getD .nothing)

def whileStmt (scope : Rule Scope) : Rule Stmt := located do
  let _ ← keyword .whileWord
  let test ← condition
  let body ← scope.required .scope
  return fun place => .whileLoop place test body

def forInit : Rule ForInit :=
  (ForInit.variable <$> variableDecl) <|> (ForInit.expr <$> expression) <|> pure .nothing

def forStmt (scope : Rule Scope) : Rule Stmt := located do
  let _ ← keyword .forWord
  let _ ← expect .openParen
  let init ← forInit
  let _ ← expect .semicolon
  let test ← optional expression
  let _ ← expect .semicolon
  let step ← optional expression
  let _ ← expect .closeParen
  let body ← scope.required .scope
  return fun place => .forLoop place init test step body

/-! ## Nesting -/

def statementOf (scope : Rule Scope) (branch : Rule Branch) : Rule Stmt :=
  (Stmt.branch <$> branch) <|> whileStmt scope <|> forStmt scope <|> do
    let s ← simpleStmt
    let _ ← expect .semicolon
    return s

def scopeOf (statement : Rule Stmt) : Rule Scope := located do
  let _ ← punctuator .openBrace
  let statements ← many statement
  let _ ← expect .closeBrace
  return fun place => .mk place statements

mutual

/-- Scopes and conditions inside one another, no more than the bound is long. -/
def scopeWithin : (bound : List Token) → Rule Scope
  | [] => declines (.token (.punctuator .openBrace))
  | _ :: bound => fun s => scopeOf (statementOf (scopeWithin bound) (branchWithin bound)) s

def branchWithin : (bound : List Token) → Rule Branch
  | [] => declines (.token (.keyword .ifWord))
  | _ :: bound => fun s => branchOf (scopeWithin bound) (branchWithin bound) s

end

def scope : Rule Scope := fun s => scopeWithin s.tokens s

def branch : Rule Branch := fun s => branchWithin s.tokens s

def statement : Rule Stmt := statementOf scope branch

end Sable.Grammar
