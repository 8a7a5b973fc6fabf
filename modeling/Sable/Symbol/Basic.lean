import Sable.OrderedMap
import Sable.Syntax.Basic

/-!
# Symbols

A symbol stands for a type, a variable, a function or a label. It is named by the library that
owns it and by its place there.

## Main definitions

* `SymbolId`: the name of a symbol.
* `TypeForm`, `TypeSymbol`: what a type is, and its members.
* `Symbol`: a symbol with what is known of it.
-/
namespace Sable

/-- The number of a library. -/
abbrev LibraryId := Nat

structure SymbolId where
  library : LibraryId
  index : Nat
  deriving DecidableEq, Inhabited

def SymbolId.render (id : SymbolId) : String := s!"lib{id.library}:{id.index}"

/-- Symbols by name. -/
abbrev Names := OrderedMap String SymbolId

inductive TypeForm
  | primitive
  | classType
  | pointer (pointee : SymbolId)
  | function (parameters : List SymbolId) (returns : SymbolId)
  deriving DecidableEq, Inhabited

/-- The sort of a type. -/
inductive TypeMode
  | primitive | classType | pointer | function
  deriving DecidableEq, Inhabited

structure TypeSymbol where
  form : TypeForm
  members : Names := .empty
  deriving Inhabited

namespace TypeSymbol

def mode (t : TypeSymbol) : TypeMode :=
  match t.form with
  | .primitive => .primitive
  | .classType => .classType
  | .pointer _ => .pointer
  | .function _ _ => .function

def pointee? (t : TypeSymbol) : Option SymbolId :=
  match t.form with
  | .pointer p => some p
  | _ => none

def parameters (t : TypeSymbol) : List SymbolId :=
  match t.form with
  | .function ps _ => ps
  | _ => []

def returns? (t : TypeSymbol) : Option SymbolId :=
  match t.form with
  | .function _ r => some r
  | _ => none

/-- Values of primitive types and of classes are held, not pointed to. -/
def isValue (t : TypeSymbol) : Bool := t.mode == .primitive || t.mode == .classType

end TypeSymbol

/-- The parameters, variables and labels of a function in the order of their declaration, and its
labels by name. -/
structure FunctionSymbol where
  locals : List SymbolId := []
  labels : Names := .empty
  deriving Inhabited

inductive SymbolKind
  | type (t : TypeSymbol)
  | variable (isParameter : Bool)
  | function (f : FunctionSymbol)
  | label
  deriving Inhabited

structure Symbol where
  name : String
  kind : SymbolKind
  type : Option SymbolId := none
  parentFunction : Option SymbolId := none
  parentType : Option SymbolId := none
  declaration : Option NodeId := none
  span : Span
  deriving Inhabited

namespace Symbol

def type? (s : Symbol) : Option TypeSymbol :=
  match s.kind with
  | .type t => some t
  | _ => none

def function? (s : Symbol) : Option FunctionSymbol :=
  match s.kind with
  | .function f => some f
  | _ => none

def isType (s : Symbol) : Bool := s.type?.isSome

/-- Variables and functions can be used in expressions. -/
def isValue (s : Symbol) : Bool :=
  match s.kind with
  | .variable _ | .function _ => true
  | .type _ | .label => false

def kindName (s : Symbol) : String :=
  match s.kind with
  | .type _ => "type"
  | .variable true => "param"
  | .variable false => "var"
  | .function _ => "fn"
  | .label => "label"

end Symbol

end Sable
