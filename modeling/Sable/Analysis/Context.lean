import Sable.Symbol.Library
import Sable.Symbol.Scope
import Sable.Syntax.Parents

/-!
# The state of an analysis

An analysis fills a target library with the symbols of a unit. On the way it notes what it finds
out about the nodes and reports what is wrong.

## Main definitions

* `Annotations`: what is found out about nodes, by number.
* `Visit`: that a phase began a node, and the scopes open at that moment.
* `Context`: the state; `Analyzing` are the steps on it.
* `Context.start`: the state before the first phase.
* `Analyzing.builtin`: a built-in type, by name.
-/
namespace Sable

/-- A table of symbols by node. -/
abbrev NodeTable := OrderedMap NodeId SymbolId

structure Annotations where
  /-- The types of expressions. -/
  resolvedTypes : NodeTable := .empty
  /-- The symbols that declarations make and that names denote. -/
  symbols : NodeTable := .empty
  /-- The members that are accessed. -/
  members : NodeTable := .empty
  /-- The labels that jumps lead to. -/
  labels : NodeTable := .empty
  /-- The types that written types name. -/
  declaredTypes : NodeTable := .empty
  /-- The types of functions. -/
  signatures : NodeTable := .empty
  deriving Inhabited

inductive Phase
  | binding | typing
  deriving DecidableEq, Inhabited

structure Visit where
  phase : Phase
  node : NodeId
  scopes : List (ScopeEntry SymbolId)
  deriving Inhabited

structure Context where
  library : Library
  /-- The names that the whole unit can use: those of the linked libraries, then its own. -/
  globals : Names
  parents : ParentMap := {}
  scopes : ScopeStack SymbolId := {}
  annotations : Annotations := {}
  /-- The written types that were looked up already. -/
  attempted : List NodeId := []
  /-- The latest visit comes first. -/
  visits : List Visit := []
  errors : List SemanticError := []
  deriving Inhabited

/-- The published names of libraries; of libraries that publish one name the first counts. -/
def Library.publishedNames (libraries : List Library) : Names :=
  libraries.foldl
    (fun names lib => lib.globals.entries.foldl (fun names (name, id) => names.insertNew name id)
      names)
    .empty

/-- A target that is in use is emptied first; then the dependencies are linked to it. -/
def Context.start (dependencies : List Library) (target : Library) : Context :=
  let target := if target.symbols.isEmpty then target else target.reset
  { library := dependencies.foldl Library.link target,
    globals := Library.publishedNames dependencies }

/-- A step of an analysis. -/
abbrev Analyzing := StateM Context

namespace Analyzing

def report (e : SemanticError) : Analyzing Unit :=
  modify fun c => { c with errors := c.errors ++ [e] }

/-- A step on the target library. -/
def onLibrary {α : Type} (f : Library → α × Library) : Analyzing α :=
  modifyGet fun c => let (x, library) := f c.library; (x, { c with library })

/-- A step on the target library that may fail, which is reported. -/
def reporting {α : Type} (f : Library → Except SemanticError α × Library) :
    Analyzing (Option α) := do
  match ← onLibrary f with
  | .ok x => return some x
  | .error e => do
    report e
    return none

def annotate (f : Annotations → Annotations) : Analyzing Unit :=
  modify fun c => { c with annotations := f c.annotations }

def visit (phase : Phase) (node : NodeId) : Analyzing Unit :=
  modify fun c => { c with visits := ⟨phase, node, c.scopes.entries⟩ :: c.visits }

/-- Runs a step inside a scope of its own. -/
def inScope (kind : ScopeKind) (owner : NodeId) (symbol : Option SymbolId) (step : Analyzing Unit) :
    Analyzing Unit := do
  modify fun c => { c with scopes := c.scopes.push kind owner symbol }
  step
  modify fun c => { c with scopes := c.scopes.pop }

/-- A name belongs to the first declaration; any later one is reported. -/
def declareGlobal (name : String) (id : SymbolId) (span : Span) : Analyzing Unit := do
  if (← get).globals.contains name then
    report (.sameName name span)
  else
    modify fun c => { c with globals := c.globals.insert name id }
    let _ ← reporting (·.registerGlobal id)

end Analyzing

namespace Context

def symbol? (c : Context) (id : SymbolId) : Option Symbol := c.library.symbol? id

def type? (c : Context) (id : SymbolId) : Option TypeSymbol := c.library.type? id

def mode? (c : Context) (id : SymbolId) : Option TypeMode := (c.type? id).map TypeSymbol.mode

def pointee? (c : Context) (id : SymbolId) : Option SymbolId :=
  (c.type? id).bind TypeSymbol.pointee?

def nameOf (c : Context) (id : SymbolId) : String := c.library.nameOf id

/-- A type that the whole unit can name. -/
def globalType? (c : Context) (name : String) : Option SymbolId :=
  (c.globals.get? name).filter fun id => (c.type? id).isSome

/-- What a name denotes in an expression. -/
def lookup? (c : Context) (name : String) : Option SymbolId :=
  c.scopes.lookup? name <|> c.globals.get? name

def isBuiltin (c : Context) (id : SymbolId) (name : String) : Bool := c.globals.get? name == some id

def isPointer (c : Context) (id : SymbolId) : Bool := c.mode? id == some .pointer

def isFunction (c : Context) (id : SymbolId) : Bool := c.mode? id == some .function

/-- Whether the type is primitive or a class. -/
def isValue (c : Context) (id : SymbolId) : Bool := (c.type? id).any TypeSymbol.isValue

def isInteger (c : Context) (id : SymbolId) : Bool := c.isBuiltin id Library.integerName

def isNumeric (c : Context) (id : SymbolId) : Bool :=
  [Library.byteName, Library.integerName, Library.floatName].any (c.isBuiltin id)

def isBooleanOrPointer (c : Context) (id : SymbolId) : Bool :=
  c.isBuiltin id Library.booleanName || c.isPointer id

/-- Whether the type is that of the null literal. -/
def isNullPointer (c : Context) (id : SymbolId) : Bool :=
  (c.pointee? id).any (c.isBuiltin · Library.nullName)

end Context

/-- A built-in type is looked up by name like any other, and may be missing. -/
def Analyzing.builtin (name : String) (span : Span) : Analyzing (Option SymbolId) := do
  match (← get).globalType? name with
  | some id => return some id
  | none => do
    report (.symbolNotFound name span)
    return none

end Sable
