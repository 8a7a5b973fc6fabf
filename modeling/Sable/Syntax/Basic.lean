import Sable.Number.Binary64
import Sable.Source.Span
import Sable.Syntax.Operator

/-!
# Syntax trees

A unit is a block of declarations. Every node has a place: a number of its own and a span. Names
and literals keep the text in which they were written.

## Main definitions

* `Expr`, `Stmt`, `Scope`, `Declaration`, `Block`: the tree of a unit.
* `Branch`: a condition with its scope, and what follows `else`.
-/
namespace Sable

/-- The number of a node. -/
abbrev NodeId := Nat

structure Place where
  id : NodeId
  span : Span
  deriving DecidableEq, Inhabited

structure Ident where
  name : String
  span : Span
  deriving DecidableEq, Inhabited

/-- A type as it is written: a name and a number of stars, one per pointer. -/
structure WrittenType where
  place : Place
  name : Ident
  stars : Nat
  deriving DecidableEq, Inhabited

/-- Characters and strings keep their lexeme, quotes and escapes included. -/
inductive Value
  | integer (v : Int)
  | float (v : Binary64)
  | character (lexeme : String)
  | string (lexeme : String)
  | boolean (v : Bool)
  | null
  | identifier (name : Ident)
  deriving DecidableEq, Inhabited

inductive Expr
  | value (place : Place) (v : Value)
  | unary (place : Place) (op : UnaryOp) (operand : Expr)
  | binary (place : Place) (op : BinaryOp) (left right : Expr)
  | access (place : Place) (kind : AccessKind) (object : Expr) (member : Ident)
  | call (place : Place) (callee : Expr) (arguments : List Expr)
  | cast (place : Place) (operand : Expr) (target : WrittenType)
  | index (place : Place) (target subscript : Expr)
  deriving Inhabited

namespace Expr

def place : Expr → Place
  | .value p _ | .unary p _ _ | .binary p _ _ _ | .access p _ _ _ | .call p _ _ | .cast p _ _
  | .index p _ _ => p

def id (e : Expr) : NodeId := e.place.id

def span (e : Expr) : Span := e.place.span

/-- Whether the outermost operator follows its operand. -/
def isPostfix : Expr → Bool
  | .access .. | .call .. | .cast .. | .index .. => true
  | .value .. | .unary .. | .binary .. => false

end Expr

structure VariableDecl where
  place : Place
  name : Ident
  type : WrittenType
  initializer : Option Expr
  deriving Inhabited

structure Parameter where
  place : Place
  name : Ident
  type : WrittenType
  deriving DecidableEq, Inhabited

/-- What stands before the first semicolon of a `for`. -/
inductive ForInit
  | nothing
  | variable (decl : VariableDecl)
  | expr (e : Expr)
  deriving Inhabited

mutual

inductive Stmt
  | label (place : Place) (name : Ident)
  | goto (place : Place) (label : Ident)
  | returns (place : Place) (value : Option Expr)
  | breakLoop (place : Place)
  | continueLoop (place : Place)
  | variable (decl : VariableDecl)
  | expr (e : Expr)
  | branch (b : Branch)
  | whileLoop (place : Place) (condition : Expr) (body : Scope)
  | forLoop (place : Place) (init : ForInit) (condition step : Option Expr) (body : Scope)

inductive Branch
  | mk (place : Place) (condition : Expr) (body : Scope) (otherwise : Otherwise)

/-- What follows the scope of a condition. -/
inductive Otherwise
  | nothing
  | branch (b : Branch)
  | scope (s : Scope)

inductive Scope
  | mk (place : Place) (statements : List Stmt)

end

instance : Inhabited Scope := ⟨.mk default []⟩

instance : Inhabited Stmt := ⟨.breakLoop default⟩

instance : Inhabited Branch := ⟨.mk default default default .nothing⟩

def Scope.place : Scope → Place
  | .mk p _ => p

def Scope.statements : Scope → List Stmt
  | .mk _ ss => ss

def Branch.place : Branch → Place
  | .mk p _ _ _ => p

structure FunctionDecl where
  place : Place
  name : Ident
  parameters : List Parameter
  returns : Option WrittenType
  body : Scope
  deriving Inhabited

inductive Member
  | variable (decl : VariableDecl)
  | function (decl : FunctionDecl)
  deriving Inhabited

structure ClassDecl where
  place : Place
  name : Ident
  members : List Member
  deriving Inhabited

inductive Declaration
  | classDecl (decl : ClassDecl)
  | function (decl : FunctionDecl)
  | variable (decl : VariableDecl)
  deriving Inhabited

def Declaration.place : Declaration → Place
  | .classDecl d => d.place
  | .function d => d.place
  | .variable d => d.place

structure Block where
  place : Place
  declarations : List Declaration
  deriving Inhabited

def Block.classes (b : Block) : List ClassDecl :=
  b.declarations.filterMap fun
    | .classDecl d => some d
    | _ => none

def Block.functions (b : Block) : List FunctionDecl :=
  b.declarations.filterMap fun
    | .function d => some d
    | _ => none

end Sable
