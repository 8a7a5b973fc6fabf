import Sable.Grammar.Statement

/-!
# The grammar of declarations

## Main definitions

* `Grammar.functionDecl`, `Grammar.classDecl`: functions and classes.
* `Grammar.block`: the declarations of a unit, up to the end of the input.
-/
namespace Sable.Grammar

open Rule

def parameter : Rule Parameter := located do
  let name ← identifier
  let type ← typeAnnotation.required (.token (.punctuator .colon))
  return fun place => ⟨place, name, type⟩

def functionDecl : Rule FunctionDecl := located do
  let _ ← keyword .fnWord
  let name ← identifier.required .identifier
  let _ ← expect .openParen
  let parameters ← commaList parameter .identifier
  let _ ← expect .closeParen
  let returns ← optional typeAnnotation
  let body ← scope.required .scope
  return fun place => ⟨place, name, parameters, returns, body⟩

/-- A variable with the semicolon behind it. -/
def variableLine : Rule VariableDecl := do
  let decl ← variableDecl
  let _ ← expect .semicolon
  return decl

def member : Rule Member :=
  (Member.variable <$> variableLine) <|> (Member.function <$> functionDecl)

def classDecl : Rule ClassDecl := located do
  let _ ← keyword .classWord
  let name ← identifier.required .identifier
  let _ ← expect .openBrace
  let members ← many member
  let _ ← expect .closeBrace
  return fun place => ⟨place, name, members⟩

def declaration : Rule Declaration :=
  (Declaration.classDecl <$> classDecl) <|> (Declaration.function <$> functionDecl) <|>
    (Declaration.variable <$> variableLine)

/-- Declarations, no more than the bound is long, up to the end of the input. -/
def declarationsWithin : (bound : List Token) → Rule (List Declaration)
  | [] => pure []
  | _ :: bound => fun s =>
    if s.atEnd then .accept [] s
    else
      match (declaration.required .declaration) s with
      | .accept d rest => (declarationsWithin bound rest).map (d :: ·)
      | .decline s e => .decline s e
      | .reject s e => .reject s e

/-- Each declaration takes a token at least. -/
def block : Rule Block := located fun s =>
  (declarationsWithin s.tokens s).map fun declarations place => ⟨place, declarations⟩

end Sable.Grammar
