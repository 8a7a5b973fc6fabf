import Sable.Symbol.Basic
import Sable.Symbol.Error

/-!
# Libraries

A library owns symbols and publishes some of them by name. It is linked to other libraries, which
do not change from then on; what a library does not own is looked up in those, depth first.

Pointer types and function types are interned: a library makes one only if neither it nor a
library that it reaches has it.

## Main definitions

* `Library`: the symbols, their published names, and the linked libraries.
* `Library.reach`: a library and all that it is linked to.
* `Library.firstSome?`: the first answer of what is within reach.
* `Library.symbol?`, `Library.lookupGlobal?`: look-up through the linked libraries.
* `Library.pointerTo`, `Library.functionType`: interned types.
* `Library.createType`: a class, or a pointer type spelled with stars.
* `Library.addMember`, `Library.addLocal`, `Library.addLabel`: registration with an owner.
* `Library.core`: the built-in types.
-/
namespace Sable

structure Library where
  id : LibraryId
  name : String
  symbols : Array Symbol
  globals : Names
  pointerTypes : OrderedMap SymbolId SymbolId
  functionTypes : OrderedMap (List SymbolId × SymbolId) SymbolId
  dependencies : List Library

namespace Library

def new (id : LibraryId) (name : String) : Library := ⟨id, name, #[], .empty, .empty, .empty, []⟩

instance : Inhabited Library := ⟨new 0 ""⟩

/-! ## Look-up -/

mutual

/-- The library and the libraries that it is linked to, each in front of its own. -/
def reach : Library → List Library
  | ⟨id, name, symbols, globals, pointers, functions, dependencies⟩ =>
    ⟨id, name, symbols, globals, pointers, functions, dependencies⟩ :: reachAll dependencies

def reachAll : List Library → List Library
  | [] => []
  | lib :: libs => lib.reach ++ reachAll libs

end

theorem reach_eq (lib : Library) : lib.reach = lib :: reachAll lib.dependencies := by
  cases lib
  rfl

mutual

/-- The first answer that a library within reach gives. -/
def firstSome? {α : Type} (f : Library → Option α) : Library → Option α
  | ⟨id, name, symbols, globals, pointers, functions, dependencies⟩ =>
    match f ⟨id, name, symbols, globals, pointers, functions, dependencies⟩ with
    | some x => some x
    | none => firstSomeOf? f dependencies

def firstSomeOf? {α : Type} (f : Library → Option α) : List Library → Option α
  | [] => none
  | lib :: libs =>
    match firstSome? f lib with
    | some x => some x
    | none => firstSomeOf? f libs

end

mutual

theorem firstSome?_eq {α : Type} (f : Library → Option α) :
    (lib : Library) → lib.firstSome? f = lib.reach.findSome? f
  | ⟨_, _, _, _, _, _, dependencies⟩ => by
    simp only [firstSome?, reach, List.findSome?_cons, firstSomeOf?_eq f dependencies]
    rfl

theorem firstSomeOf?_eq {α : Type} (f : Library → Option α) :
    (libs : List Library) → firstSomeOf? f libs = (reachAll libs).findSome? f
  | [] => rfl
  | lib :: libs => by
    simp only [firstSomeOf?, reachAll, List.findSome?_append, firstSome?_eq f lib,
      firstSomeOf?_eq f libs]
    cases lib.reach.findSome? f <;> rfl

end

def owned? (lib : Library) (id : SymbolId) : Option Symbol :=
  if id.library = lib.id then lib.symbols[id.index]? else none

def symbol? (lib : Library) (id : SymbolId) : Option Symbol := lib.firstSome? (·.owned? id)

def type? (lib : Library) (id : SymbolId) : Option TypeSymbol := (lib.symbol? id).bind Symbol.type?

def global? (lib : Library) (name : String) : Option SymbolId := lib.globals.get? name

def lookupGlobal? (lib : Library) (name : String) : Option SymbolId :=
  lib.firstSome? (·.global? name)

def pointerType? (lib : Library) (pointee : SymbolId) : Option SymbolId :=
  lib.firstSome? (·.pointerTypes.get? pointee)

def functionType? (lib : Library) (parameters : List SymbolId) (returns : SymbolId) :
    Option SymbolId :=
  lib.firstSome? (·.functionTypes.get? (parameters, returns))

def nameOf (lib : Library) (id : SymbolId) : String :=
  match lib.symbol? id with
  | some s => s.name
  | none => s!"<unknown {id.render}>"

/-! ## Construction -/

/-- Only the first library with a number is linked. -/
def link (lib dep : Library) : Library :=
  if lib.dependencies.any (·.id == dep.id) then lib
  else { lib with dependencies := lib.dependencies ++ [dep] }

/-- Forgets the symbols, but not what the library is linked to. -/
def reset (lib : Library) : Library :=
  { lib with
    symbols := #[]
    globals := .empty
    pointerTypes := .empty
    functionTypes := .empty }

def alloc (lib : Library) (s : Symbol) : SymbolId × Library :=
  (⟨lib.id, lib.symbols.size⟩, { lib with symbols := lib.symbols.push s })

/-- Changes a symbol that the library owns. -/
def update (lib : Library) (id : SymbolId) (f : Symbol → Symbol) : Library :=
  if id.library = lib.id then { lib with symbols := lib.symbols.modify id.index f } else lib

def publish (lib : Library) (name : String) (id : SymbolId) : Library :=
  { lib with globals := lib.globals.insert name id }

/-- Publishes a name that is not taken. -/
def publishNew (lib : Library) (name : String) (id : SymbolId) : Library :=
  { lib with globals := lib.globals.insertNew name id }

def pointerTo (lib : Library) (pointee : SymbolId) : SymbolId × Library :=
  match lib.pointerType? pointee with
  | some id => (id, lib)
  | none =>
    let name := lib.nameOf pointee ++ "*"
    let (id, lib) := lib.alloc { name, kind := .type ⟨.pointer pointee, .empty⟩, span := .dummy }
    let lib := { lib with pointerTypes := lib.pointerTypes.insert pointee id }
    (id, lib.publishNew name id)

/-- The pointer type that leads to `base` after `depth` steps. -/
def pointerType (lib : Library) (base : SymbolId) : (depth : Nat) → SymbolId × Library
  | 0 => (base, lib)
  | depth + 1 =>
    let (id, lib) := lib.pointerTo base
    lib.pointerType id depth

def functionTypeName (lib : Library) (parameters : List SymbolId) (returns : SymbolId) : String :=
  "function(" ++ ", ".intercalate (parameters.map lib.nameOf) ++ ") : " ++ lib.nameOf returns

def functionType (lib : Library) (parameters : List SymbolId) (returns : SymbolId) :
    SymbolId × Library :=
  match lib.functionType? parameters returns with
  | some id => (id, lib)
  | none =>
    let name := lib.functionTypeName parameters returns
    let (id, lib) :=
      lib.alloc { name, kind := .type ⟨.function parameters returns, .empty⟩, span := .dummy }
    let lib := { lib with functionTypes := lib.functionTypes.insert (parameters, returns) id }
    (id, lib.publishNew name id)

/-- The name in front of the stars at the end, and how many stars there are. -/
def splitStars (name : String) : String × Nat :=
  let stars := (name.toList.reverse.takeWhile (· == '*')).length
  (.ofList (name.toList.take (name.toList.length - stars)), stars)

/-- A name that ends in stars is a pointer type to a known type; any other makes a new class. -/
def createType (lib : Library) (name : String) (isGlobal : Bool) (span : Span) :
    Except SemanticError SymbolId × Library :=
  match splitStars name with
  | (base, depth + 1) =>
    match (lib.lookupGlobal? base).filter fun id => (lib.type? id).isSome with
    | some pointee =>
      let (id, lib) := lib.pointerType pointee (depth + 1)
      (.ok id, lib)
    | none => (.error (.symbolNotFound base span), lib)
  | (_, 0) =>
    if isGlobal && lib.globals.contains name then (.error (.sameName name span), lib)
    else
      let (id, lib) := lib.alloc { name, kind := .type ⟨.classType, .empty⟩, span }
      (.ok id, if isGlobal then lib.publish name id else lib)

def createVariable (lib : Library) (name : String) (span : Span) (isParameter : Bool) :
    SymbolId × Library :=
  lib.alloc { name, kind := .variable isParameter, span }

def createFunction (lib : Library) (name : String) (span : Span) : SymbolId × Library :=
  lib.alloc { name, kind := .function {}, span }

def createLabel (lib : Library) (name : String) (span : Span) : SymbolId × Library :=
  lib.alloc { name, kind := .label, span }

def setType (lib : Library) (id type : SymbolId) : Library :=
  lib.update id fun s => { s with type := some type }

def setDeclaration (lib : Library) (id : SymbolId) (node : NodeId) : Library :=
  lib.update id fun s => { s with declaration := some node }

/-! ## Registration -/

/-- The error about a symbol that is nowhere to be found. -/
def unknown (id : SymbolId) : SemanticError := .symbolNotFound id.render .dummy

def registerGlobal (lib : Library) (id : SymbolId) : Except SemanticError Unit × Library :=
  match lib.symbol? id with
  | none => (.error (unknown id), lib)
  | some s =>
    if lib.globals.contains s.name then (.error (.sameName s.name s.span), lib)
    else (.ok (), lib.publish s.name id)

def setMembers (lib : Library) (id : SymbolId) (members : Names) : Library :=
  lib.update id fun s =>
    match s.kind with
    | .type t => { s with kind := .type { t with members } }
    | _ => s

def setFunction (lib : Library) (id : SymbolId) (f : FunctionSymbol) : Library :=
  lib.update id fun s =>
    match s.kind with
    | .function _ => { s with kind := .function f }
    | _ => s

/-- The owner must be a type of the library's own. -/
def addMember (lib : Library) (owner member : SymbolId) : Except SemanticError Unit × Library :=
  match lib.symbol? member with
  | none => (.error (unknown member), lib)
  | some s =>
    match (lib.owned? owner).bind Symbol.type? with
    | none => (.error (.symbolNotFound (lib.nameOf owner) s.span), lib)
    | some t =>
      if t.members.contains s.name then (.error (.sameName s.name s.span), lib)
      else
        let lib := lib.setMembers owner (t.members.insert s.name member)
        (.ok (), lib.update member fun s => { s with parentType := some owner })

/-- The local is entered into a function of the library itself. It gets its parent in any case. -/
def addLocal (lib : Library) (function member : SymbolId) : Except SemanticError Unit × Library :=
  match lib.symbol? member with
  | none => (.error (unknown member), lib)
  | some s =>
    match (lib.symbol? function).bind Symbol.function? with
    | none => (.error (.symbolNotFound (lib.nameOf function) s.span), lib)
    | some f =>
      if f.locals.any fun id => (lib.symbol? id).any (·.name == s.name) then
        (.error (.sameName s.name s.span), lib)
      else
        let lib := lib.setFunction function { f with locals := f.locals ++ [member] }
        (.ok (), lib.update member fun s => { s with parentFunction := some function })

/-- A label is also a local of its function, which must be the library's own. -/
def addLabel (lib : Library) (function label : SymbolId) : Except SemanticError Unit × Library :=
  match lib.symbol? label with
  | none => (.error (unknown label), lib)
  | some s =>
    match (lib.owned? function).bind Symbol.function? with
    | none => (.error (.symbolNotFound (lib.nameOf function) s.span), lib)
    | some f =>
      if f.labels.contains s.name then (.error (.sameName s.name s.span), lib)
      else
        let lib := lib.setFunction function { f with labels := f.labels.insert s.name label }
        lib.addLocal function label

/-! ## Built-in types -/

def voidName : String := "Void"

def booleanName : String := "Boolean"

def integerName : String := "Integer"

def floatName : String := "Float"

def byteName : String := "Byte"

def nullName : String := "Null"

def primitive (lib : Library) (name : String) : Library :=
  let (id, lib) := lib.alloc { name, kind := .type ⟨.primitive, .empty⟩, span := .dummy }
  lib.publish name id

/-- The primitive types, and the pointer types of strings and of the null literal. -/
def core (id : LibraryId) : Library :=
  let lib := [voidName, booleanName, integerName, floatName, byteName, nullName].foldl primitive
    (new id "core")
  let (_, lib) := lib.pointerTo ⟨id, 4⟩
  let (_, lib) := lib.pointerTo ⟨id, 5⟩
  lib

/-! ## Listing -/

def describeSymbol (lib : Library) (s : Symbol) : String :=
  let type := match s.type with
    | some t => " : " ++ lib.nameOf t
    | none => ""
  let parent := match s.parentType <|> s.parentFunction with
    | some p => " (in " ++ lib.nameOf p ++ ")"
    | none => ""
  s.kindName ++ " " ++ s.name ++ type ++ parent

/-- One line per symbol of the library's own. -/
def describe (lib : Library) : String :=
  .join (lib.symbols.toList.map fun s => lib.describeSymbol s ++ "\n")

end Library

end Sable
