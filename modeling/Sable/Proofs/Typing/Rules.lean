import Sable.Symbol.Library
import Sable.Syntax.Tree

/-!
# Rules of types

What the expressions of a unit are, without libraries, symbols and phases. Types are trees; a class
is known by its name. Expressions have types by one rule each.

## Main definitions

* `Ty`: types, and `WrittenType.ty`: the type that is written.
* `UnaryOp.Gives`, `BinaryOp.Gives`, `Ty.CastsTo`: the operators.
* `Locals.lookup?`: the variable that a name means in the scopes around it.
* `HasType`: the types of expressions.
-/
namespace Sable

/-! ## Types -/

inductive BuiltinType
  | void | boolean | integer | float | byte | null
  deriving DecidableEq, Inhabited

namespace BuiltinType

def all : List BuiltinType := [.void, .boolean, .integer, .float, .byte, .null]

def name : BuiltinType → String
  | .void => Library.voidName
  | .boolean => Library.booleanName
  | .integer => Library.integerName
  | .float => Library.floatName
  | .byte => Library.byteName
  | .null => Library.nullName

def ofName? (name : String) : Option BuiltinType := all.find? (·.name == name)

end BuiltinType

inductive Ty
  | builtin (t : BuiltinType)
  | classType (name : String)
  | pointer (pointee : Ty)
  | function (parameters : List Ty) (returns : Ty)
  deriving Inhabited

namespace Ty

abbrev boolean : Ty := .builtin .boolean

abbrev integer : Ty := .builtin .integer

def IsNumeric : Ty → Prop
  | .builtin t => t = .byte ∨ t = .integer ∨ t = .float
  | _ => False

def IsPointer : Ty → Prop
  | .pointer _ => True
  | _ => False

def IsFunction : Ty → Prop
  | .function .. => True
  | _ => False

/-- Values of primitive types and of classes are held, not pointed to. -/
def IsValue : Ty → Prop
  | .builtin _ | .classType _ => True
  | .pointer _ | .function .. => False

/-- What can be asked whether it holds. -/
def IsCondition : Ty → Prop
  | .builtin t => t = .boolean
  | .pointer _ => True
  | _ => False

/-- The type that a name stands for; whatever is not built in is a class. -/
def named (name : String) : Ty :=
  match BuiltinType.ofName? name with
  | some t => .builtin t
  | none => .classType name

def pointers (t : Ty) : Nat → Ty
  | 0 => t
  | depth + 1 => (pointer t).pointers depth

/-- Functions are never cast. Pointers and values go into one another only by way of integers, and
a pointer also becomes a truth value. -/
structure CastsTo (source target : Ty) : Prop where
  source_notFunction : ¬source.IsFunction
  target_notFunction : ¬target.IsFunction
  fromPointer : source.IsPointer → target.IsValue → target = boolean ∨ target = integer
  toPointer : source.IsValue → target.IsPointer → source = integer

end Ty

open Ty (boolean integer)

inductive UnaryOp.Gives : UnaryOp → Ty → Ty → Prop
  | deref {τ : Ty} : Gives .deref (.pointer τ) τ
  | plus {τ : Ty} (h : τ.IsNumeric) : Gives .plus τ τ
  | negate {τ : Ty} (h : τ.IsNumeric) : Gives .negate τ τ
  | increment {τ : Ty} (h : τ.IsNumeric ∨ τ.IsPointer) : Gives .increment τ τ
  | decrement {τ : Ty} (h : τ.IsNumeric ∨ τ.IsPointer) : Gives .decrement τ τ
  | not {τ : Ty} (h : τ.IsCondition) : Gives .not τ boolean
  | addressOf {τ : Ty} : Gives .addressOf τ (.pointer τ)

def BinaryOp.isArithmetic : BinaryOp → Bool
  | .add | .sub | .mul | .div | .mod => true
  | _ => false

/-- Compound assignments give back what is assigned to. -/
inductive BinaryOp.Gives : BinaryOp → Ty → Ty → Ty → Prop
  | numeric {op : BinaryOp} {τ : Ty} (hop : op.isArithmetic = true) (h : τ.IsNumeric) :
      Gives op τ τ τ
  | addPointer {τ : Ty} : Gives .add (.pointer τ) integer (.pointer τ)
  | addInteger {τ : Ty} : Gives .add integer (.pointer τ) (.pointer τ)
  | subPointer {τ : Ty} : Gives .sub (.pointer τ) integer (.pointer τ)
  | distance {τ σ : Ty} : Gives .sub (.pointer τ) (.pointer σ) integer
  | comparison {op : BinaryOp} {τ σ : Ty} (hop : op.isComparison = true) : Gives op τ σ boolean
  | logical {op : BinaryOp} {τ σ : Ty} (hop : op.isLogical = true) (hτ : τ.IsCondition)
      (hσ : σ.IsCondition) : Gives op τ σ boolean
  | assign {τ : Ty} (h : ¬τ.IsFunction) : Gives .assign τ τ τ
  | compound {op arithmetic : BinaryOp} {τ σ : Ty} (hop : op.compound? = some arithmetic)
      (h : Gives arithmetic τ σ τ) : Gives op τ σ τ

/-! ## Declarations -/

def WrittenType.ty (t : WrittenType) : Ty := (Ty.named t.name.name).pointers t.stars

/-- The name is built in or that of a class of the unit. -/
def WrittenType.IsKnown (b : Block) (t : WrittenType) : Prop :=
  t.name.name ∈ BuiltinType.all.map BuiltinType.name ∨
    t.name.name ∈ b.classes.map fun d => d.name.name

/-- A function that says nothing of a result returns the void type. -/
def FunctionDecl.result (d : FunctionDecl) : Ty :=
  match d.returns with
  | some t => t.ty
  | none => .builtin .void

def FunctionDecl.ty (d : FunctionDecl) : Ty :=
  .function (d.parameters.map fun p => p.type.ty) d.result

def Member.name : Member → Ident
  | .variable d => d.name
  | .function d => d.name

def Member.ty : Member → Ty
  | .variable d => d.type.ty
  | .function d => d.ty

def Declaration.name : Declaration → Ident
  | .classDecl d => d.name
  | .function d => d.name
  | .variable d => d.name

/-- The variables and functions of a whole unit. -/
inductive Block.Declares (b : Block) : String → Ty → Prop
  | variable {d : VariableDecl} (h : .variable d ∈ b.declarations) :
      Declares b d.name.name d.type.ty
  | function {d : FunctionDecl} (h : .function d ∈ b.declarations) : Declares b d.name.name d.ty

def Block.HasMember (b : Block) (owner name : String) (τ : Ty) : Prop :=
  ∃ d ∈ b.classes, d.name.name = owner ∧ ∃ m ∈ d.members, m.name.name = name ∧ m.ty = τ

/-! ## Expressions -/

/-- A parameter or a variable, and the node that declares it. -/
structure Local where
  node : NodeId
  name : String
  ty : Ty

/-- What the scopes around a place declare in front of it, up to the nearest function or class. The
innermost scope comes first, and in each scope the latest declaration. -/
abbrev Locals := List (List Local)

namespace Locals

/-- The latest declaration in the innermost scope that has one. -/
def lookup? (Γ : Locals) (name : String) : Option Local :=
  Γ.findSome? fun scope => scope.find? (·.name == name)

/-- Declares in the innermost scope; outside of all scopes nothing is declared. -/
def declare (Γ : Locals) (l : Local) : Locals :=
  match Γ with
  | [] => []
  | scope :: scopes => (l :: scope) :: scopes

end Locals

/-- Locals hide what is declared for the whole unit. -/
inductive Resolves (b : Block) (Γ : Locals) (name : String) : Ty → Prop
  | locally {l : Local} (h : Γ.lookup? name = some l) : Resolves b Γ name l.ty
  | globally {τ : Ty} (hΓ : Γ.lookup? name = none) (h : b.Declares name τ) : Resolves b Γ name τ

mutual

inductive HasType (b : Block) (Γ : Locals) : Expr → Ty → Prop
  | integer {place : Place} {v : Int} : HasType b Γ (.value place (.integer v)) (.builtin .integer)
  | float {place : Place} {v : Binary64} : HasType b Γ (.value place (.float v)) (.builtin .float)
  | boolean {place : Place} {v : Bool} : HasType b Γ (.value place (.boolean v)) (.builtin .boolean)
  | character {place : Place} {lexeme : String} :
      HasType b Γ (.value place (.character lexeme)) (.builtin .byte)
  | string {place : Place} {lexeme : String} :
      HasType b Γ (.value place (.string lexeme)) (.pointer (.builtin .byte))
  | null {place : Place} : HasType b Γ (.value place .null) (.pointer (.builtin .null))
  | identifier {place : Place} {name : Ident} {τ : Ty} (h : Resolves b Γ name.name τ) :
      HasType b Γ (.value place (.identifier name)) τ
  | unary {place : Place} {op : UnaryOp} {e : Expr} {τ σ : Ty} (h : HasType b Γ e τ)
      (hop : op.Gives τ σ) : HasType b Γ (.unary place op e) σ
  | binary {place : Place} {op : BinaryOp} {left right : Expr} {τ₁ τ₂ σ : Ty}
      (hleft : HasType b Γ left τ₁) (hright : HasType b Γ right τ₂) (hop : op.Gives τ₁ τ₂ σ) :
      HasType b Γ (.binary place op left right) σ
  | dot {place : Place} {object : Expr} {member : Ident} {owner : String} {τ : Ty}
      (h : HasType b Γ object (.classType owner)) (hm : b.HasMember owner member.name τ) :
      HasType b Γ (.access place .dot object member) τ
  | arrow {place : Place} {object : Expr} {member : Ident} {owner : String} {τ : Ty}
      (h : HasType b Γ object (.pointer (.classType owner)))
      (hm : b.HasMember owner member.name τ) : HasType b Γ (.access place .arrow object member) τ
  | call {place : Place} {callee : Expr} {arguments : List Expr} {parameters : List Ty} {τ : Ty}
      (h : HasType b Γ callee (.function parameters τ)) (hs : HaveTypes b Γ arguments parameters) :
      HasType b Γ (.call place callee arguments) τ
  | cast {place : Place} {operand : Expr} {target : WrittenType} {τ : Ty}
      (h : HasType b Γ operand τ) (hcast : τ.CastsTo target.ty) :
      HasType b Γ (.cast place operand target) target.ty
  | index {place : Place} {target subscript : Expr} {τ : Ty} (h : HasType b Γ target (.pointer τ))
      (hi : HasType b Γ subscript (.builtin .integer)) :
      HasType b Γ (.index place target subscript) τ

inductive HaveTypes (b : Block) (Γ : Locals) : List Expr → List Ty → Prop
  | nil : HaveTypes b Γ [] []
  | cons {e : Expr} {es : List Expr} {τ : Ty} {τs : List Ty} (h : HasType b Γ e τ)
      (hs : HaveTypes b Γ es τs) : HaveTypes b Γ (e :: es) (τ :: τs)

end

end Sable
