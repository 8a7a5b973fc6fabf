import Sable.Analysis.Run

/-!
# Workspaces

A workspace holds libraries that are built step by step. The number of a library is its place. A
library is frozen when another one is linked to it, or analyzed against it: what it holds then is
what the other sees for good.

## Main definitions

* `LibraryStep`: a change to one library.
* `WorkspaceStep`: a new library, a link, an analysis, or a change to one library.
* `Workspace.step`: carries out a step.
* `Workspace.run`: carries out a sequence of steps.
-/
namespace Sable

inductive LibraryStep
  | createType (name : String) (isGlobal : Bool) (span : Span)
  | pointerTo (pointee : SymbolId)
  | pointerType (base : SymbolId) (depth : Nat)
  | functionType (parameters : List SymbolId) (returns : SymbolId)
  | createVariable (name : String) (span : Span) (isParameter : Bool)
  | createFunction (name : String) (span : Span)
  | createLabel (name : String) (span : Span)
  | setType (id type : SymbolId)
  | setDeclaration (id : SymbolId) (node : NodeId)
  | registerGlobal (id : SymbolId)
  | addMember (owner member : SymbolId)
  | addLocal (function member : SymbolId)
  | addLabel (function label : SymbolId)
  | reset
  deriving DecidableEq, Inhabited

namespace Library

/-- The answer of a step that makes a symbol. -/
def made (r : SymbolId × Library) : Except SemanticError (Option SymbolId) × Library :=
  (.ok (some r.1), r.2)

/-- The answer of a step that registers a symbol. -/
def registered (r : Except SemanticError Unit × Library) :
    Except SemanticError (Option SymbolId) × Library :=
  (r.1.map fun _ => none, r.2)

/-- Carries out a change. It answers with a symbol if it is to make one. -/
def step (lib : Library) : LibraryStep → Except SemanticError (Option SymbolId) × Library
  | .createType name isGlobal span =>
    let (created, lib) := lib.createType name isGlobal span
    (created.map some, lib)
  | .pointerTo pointee => made (lib.pointerTo pointee)
  | .pointerType base depth => made (lib.pointerType base depth)
  | .functionType parameters returns => made (lib.functionType parameters returns)
  | .createVariable name span isParameter => made (lib.createVariable name span isParameter)
  | .createFunction name span => made (lib.createFunction name span)
  | .createLabel name span => made (lib.createLabel name span)
  | .setType symbol type => (.ok none, lib.setType symbol type)
  | .setDeclaration symbol node => (.ok none, lib.setDeclaration symbol node)
  | .registerGlobal symbol => registered (lib.registerGlobal symbol)
  | .addMember owner member => registered (lib.addMember owner member)
  | .addLocal function member => registered (lib.addLocal function member)
  | .addLabel function label => registered (lib.addLabel function label)
  | .reset => (.ok none, lib.reset)

end Library

structure Slot where
  library : Library
  frozen : Bool
  deriving Inhabited

structure Workspace where
  slots : List Slot := []
  deriving Inhabited

inductive WorkspaceError
  | noLibrary
  | frozen
  | semantic (e : SemanticError)
  deriving DecidableEq, Inhabited

inductive WorkspaceStep
  | new (name : String)
  | core
  | link (target dependency : LibraryId)
  | edit (target : LibraryId) (step : LibraryStep)
  | analyze (target : LibraryId) (dependencies : List LibraryId) (unit : Block)
  deriving Inhabited

inductive WorkspaceAnswer
  | library (id : LibraryId)
  | linked (ids : List LibraryId)
  | done
  | symbol (id : SymbolId)
  | analysis (c : Context)
  deriving Inhabited

namespace Workspace

def library? (w : Workspace) (id : LibraryId) : Option Library := (w.slots[id]?).map Slot.library

/-- A library that may be changed. -/
def editable (w : Workspace) (id : LibraryId) : Except WorkspaceError Library :=
  match w.slots[id]? with
  | none => .error .noLibrary
  | some ⟨_, true⟩ => .error .frozen
  | some ⟨lib, false⟩ => .ok lib

def put (w : Workspace) (id : LibraryId) (lib : Library) : Workspace :=
  ⟨w.slots.set id ⟨lib, false⟩⟩

def add (w : Workspace) (make : LibraryId → Library) : LibraryId × Workspace :=
  let id := w.slots.length
  (id, ⟨w.slots ++ [⟨make id, false⟩]⟩)

def freeze (w : Workspace) (id : LibraryId) : Except WorkspaceError Library × Workspace :=
  match w.slots[id]? with
  | none => (.error .noLibrary, w)
  | some ⟨lib, _⟩ => (.ok lib, ⟨w.slots.set id ⟨lib, true⟩⟩)

/-- Stops at the first library that does not exist; those in front of it stay frozen. -/
def freezeAll (w : Workspace) : List LibraryId → Except WorkspaceError (List Library) × Workspace
  | [] => (.ok [], w)
  | id :: ids =>
    match w.freeze id with
    | (.error e, w) => (.error e, w)
    | (.ok lib, w) =>
      let (libs, w) := w.freezeAll ids
      (libs.map (lib :: ·), w)

def link (w : Workspace) (target dependency : LibraryId) :
    Except WorkspaceError WorkspaceAnswer × Workspace :=
  match w.freeze dependency with
  | (.error e, w) => (.error e, w)
  | (.ok dep, w) =>
    match w.editable target with
    | .error e => (.error e, w)
    | .ok lib =>
      let lib := lib.link dep
      (.ok (.linked (lib.dependencies.map Library.id)), w.put target lib)

def edit (w : Workspace) (target : LibraryId) (step : LibraryStep) :
    Except WorkspaceError WorkspaceAnswer × Workspace :=
  match w.editable target with
  | .error e => (.error e, w)
  | .ok lib =>
    match lib.step step with
    | (.error e, lib) => (.error (.semantic e), w.put target lib)
    | (.ok (some id), lib) => (.ok (.symbol id), w.put target lib)
    | (.ok none, lib) => (.ok .done, w.put target lib)

def analyze (w : Workspace) (target : LibraryId) (dependencies : List LibraryId) (unit : Block) :
    Except WorkspaceError WorkspaceAnswer × Workspace :=
  match w.freezeAll dependencies with
  | (.error e, w) => (.error e, w)
  | (.ok deps, w) =>
    match w.editable target with
    | .error e => (.error e, w)
    | .ok lib =>
      let c := unit.analyze deps lib
      (.ok (.analysis c), w.put target c.library)

def step (w : Workspace) : WorkspaceStep → Except WorkspaceError WorkspaceAnswer × Workspace
  | .new name =>
    let (id, w) := w.add (.new · name)
    (.ok (.library id), w)
  | .core =>
    let (id, w) := w.add .core
    (.ok (.library id), w)
  | .link target dependency => w.link target dependency
  | .edit target step => w.edit target step
  | .analyze target dependencies unit => w.analyze target dependencies unit

/-- The workspace after a sequence of steps. -/
def run (w : Workspace) (steps : List WorkspaceStep) : Workspace :=
  steps.foldl (fun w s => (w.step s).2) w

end Workspace

end Sable
