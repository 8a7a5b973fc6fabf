import Sable.Analysis.Context
import Sable.Syntax.Tree

/-!
# Binding

The third phase of an analysis makes a symbol for every function, parameter, variable and label.
A symbol registers with the nearest function or class around it, or with the whole unit; a label
belongs to its function wherever it stands. A taken name is reported, but the symbol remains.

## Main definitions

* `Analyzing.bindBlock`: the declarations of a unit.
-/
namespace Sable.Analyzing

/-- Registers a symbol with the scope it was declared in. -/
def register (name : String) (id : SymbolId) (span : Span) : Analyzing Unit := do
  match (← get).scopes.registrationTarget? with
  | none => declareGlobal name id span
  | some target =>
    match target.kind, target.symbol with
    | .function, some function => do
      let _ ← reporting (·.addLocal function id)
    | .classBody, some owner => do
      let _ ← reporting (·.addMember owner id)
    | _, _ => return

/-- Ties a symbol to the node that declares it. -/
def declareAt (node : NodeId) (id : SymbolId) : Analyzing Unit := do
  onLibrary fun lib => ((), lib.setDeclaration id node)
  annotate fun a => { a with symbols := a.symbols.insert node id }

/-- Gives a symbol the type of a node, if it has one. -/
def giveType (id : SymbolId) (type : Option SymbolId) : Analyzing Unit := do
  match type with
  | some type => onLibrary fun lib => ((), lib.setType id type)
  | none => return

def bindVariable (d : VariableDecl) : Analyzing Unit := do
  visit .binding d.place.id
  let id ← onLibrary (·.createVariable d.name.name d.name.span false)
  giveType id ((← get).annotations.declaredTypes.get? d.type.place.id)
  declareAt d.place.id id
  register d.name.name id d.name.span

def bindParameter (function : SymbolId) (p : Parameter) : Analyzing Unit := do
  visit .binding p.place.id
  let id ← onLibrary (·.createVariable p.name.name p.name.span true)
  giveType id ((← get).annotations.declaredTypes.get? p.type.place.id)
  declareAt p.place.id id
  let _ ← reporting (·.addLocal function id)

def bindLabel (place : Place) (name : Ident) : Analyzing Unit := do
  visit .binding place.id
  let id ← onLibrary (·.createLabel name.name name.span)
  declareAt place.id id
  match (← get).scopes.nearestFunction? with
  | some function => do
    let _ ← reporting (·.addLabel function id)
  | none => register name.name id name.span

/-- Nothing inside an expression declares a name. -/
def passExpr (e : Expr) : Analyzing Unit := e.tree.preorder.forM fun n => visit .binding n.id

def passOption (e : Option Expr) : Analyzing Unit := e.toList.forM passExpr

def bindInit : ForInit → Analyzing Unit
  | .nothing => return
  | .variable d => bindVariable d
  | .expr e => passExpr e

mutual

def bindStmt : Stmt → Analyzing Unit
  | .label place name => bindLabel place name
  | .goto place _ | .breakLoop place | .continueLoop place => visit .binding place.id
  | .returns place value => do
    visit .binding place.id
    passOption value
  | .variable d => bindVariable d
  | .expr e => passExpr e
  | .branch b => bindBranch b
  | .whileLoop place condition body => do
    visit .binding place.id
    passExpr condition
    bindScope body
  | .forLoop place init condition step body => do
    visit .binding place.id
    bindInit init
    passOption condition
    passOption step
    bindScope body

def bindBranch : Branch → Analyzing Unit
  | .mk place condition body otherwise => do
    visit .binding place.id
    passExpr condition
    bindScope body
    bindOtherwise otherwise

def bindOtherwise : Otherwise → Analyzing Unit
  | .nothing => return
  | .branch b => bindBranch b
  | .scope s => bindScope s

def bindScope : Scope → Analyzing Unit
  | .mk place statements => do
    visit .binding place.id
    inScope .block place.id none (bindStmts statements)

def bindStmts : List Stmt → Analyzing Unit
  | [] => return
  | s :: ss => do
    bindStmt s
    bindStmts ss

end

/-- The function registers after its body is bound. -/
def bindFunction (d : FunctionDecl) : Analyzing Unit := do
  visit .binding d.place.id
  let id ← onLibrary (·.createFunction d.name.name d.name.span)
  giveType id ((← get).annotations.signatures.get? d.place.id)
  declareAt d.place.id id
  inScope .function d.place.id (some id) do
    d.parameters.forM (bindParameter id)
    bindScope d.body
  register d.name.name id d.name.span

def bindMember : Member → Analyzing Unit
  | .variable d => bindVariable d
  | .function d => bindFunction d

def bindClass (d : ClassDecl) : Analyzing Unit := do
  visit .binding d.place.id
  let symbol := (← get).annotations.symbols.get? d.place.id
  inScope .classBody d.place.id symbol (d.members.forM bindMember)

def bindDeclaration : Declaration → Analyzing Unit
  | .classDecl d => bindClass d
  | .function d => bindFunction d
  | .variable d => bindVariable d

def bindBlock (b : Block) : Analyzing Unit := do
  visit .binding b.place.id
  b.declarations.forM bindDeclaration

end Sable.Analyzing
