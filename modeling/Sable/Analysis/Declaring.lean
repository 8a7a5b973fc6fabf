import Sable.Analysis.Context
import Sable.Syntax.Tree

/-!
# Classes and written types

The first phases of an analysis. All classes are declared before any written type is looked up, so
that a type may name a class that follows it. Written types name types of the whole unit; each is
looked up once, and so reported once. The type of a function is known if all its parts are.

## Main definitions

* `Analyzing.declareClasses`: the classes of a unit.
* `Analyzing.resolveTypes`: the written types and the signatures of a unit.
-/
namespace Sable.Analyzing

/-- A class whose name is taken keeps a type of its own, so that its members are still checked. -/
def declareClass (d : ClassDecl) : Analyzing Unit := do
  let created ← reporting (·.createType d.name.name false d.name.span)
  match created with
  | none => return
  | some id => do
    onLibrary fun lib => ((), lib.setDeclaration id d.place.id)
    annotate fun a => { a with symbols := a.symbols.insert d.place.id id }
    declareGlobal d.name.name id d.name.span

def declareClasses (b : Block) : Analyzing Unit := b.classes.forM declareClass

/-- The second time the answer of the first is given. -/
def resolveType (t : WrittenType) : Analyzing (Option SymbolId) := do
  let c ← get
  if t.place.id ∈ c.attempted then
    return c.annotations.declaredTypes.get? t.place.id
  modify fun c => { c with attempted := t.place.id :: c.attempted }
  match c.globalType? t.name.name with
  | none => do
    report (.symbolNotFound t.name.name t.name.span)
    return none
  | some base => do
    let type ← onLibrary (·.pointerType base t.stars)
    annotate fun a => { a with declaredTypes := a.declaredTypes.insert t.place.id type }
    return some type

/-- A function that says nothing of a result returns the void type. -/
def resolveSignature (node : NodeId) (name : Ident) (parameters : List Parameter)
    (returns : Option WrittenType) : Analyzing Unit := do
  let parameters ← parameters.mapM fun p => resolveType p.type
  let returns ← match returns with
    | some t => resolveType t
    | none => builtin Library.voidName name.span
  match parameters.mapM id, returns with
  | some parameters, some returns => do
    let signature ← onLibrary (·.functionType parameters returns)
    annotate fun a => { a with signatures := a.signatures.insert node signature }
  | _, _ => return

def resolveNode (n : Node) : Analyzing Unit := do
  match n.head with
  | .type t => do
    let _ ← resolveType t
  | .function name parameters returns => resolveSignature n.id name parameters returns
  | _ => return

/-- All nodes are met in preorder, a function before its parameters. -/
def resolveTypes (t : Tree) : Analyzing Unit := t.preorder.forM resolveNode

end Sable.Analyzing
