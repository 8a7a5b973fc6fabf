import Sable.Proofs.Typing.Rules

/-!
# Well-formed units

What is asked of a unit beyond its names is a list of checks, each of an expression or of a jump
at its place.

## Main definitions

* `Check.Holds`: what is asked of an expression or of a jump.
* `Stmt.checks`, `Block.checks`: all checks, in the order of the text.
* `FunctionDecl.locals`: what is declared inside a function.
* `Block.WellFormed`: names are declared once, written types are known, and all checks hold.
* `Block.Derives`: the types of all expressions of a unit, by node.
-/
namespace Sable

/-! ## Checks -/

/-- An expression or a jump, with what is known at its place and what is asked of it. -/
inductive Check
  | expr (Γ : Locals) (e : Expr)
  | condition (Γ : Locals) (e : Expr)
  | initializer (Γ : Locals) (declared : Ty) (e : Expr)
  | returns (place : Place) (Γ : Locals) (result : Ty) (value : Option Expr)
  | loopControl (place : Place) (inLoop : Bool)
  | goto (place : Place) (labels : List String) (label : Ident)

namespace Check

/-- The null literal goes with every pointer type. Only functions of the void type return without a
value. -/
def Holds (b : Block) : Check → Prop
  | .expr Γ e => ∃ τ, HasType b Γ e τ
  | .condition Γ e => ∃ τ, HasType b Γ e τ ∧ τ.IsCondition
  | .initializer Γ declared e =>
    ∃ τ, HasType b Γ e τ ∧ (τ = declared ∨ declared.IsPointer ∧ τ = .pointer (.builtin .null))
  | .returns _ _ result none => result = .builtin .void
  | .returns _ Γ result (some e) => HasType b Γ e result
  | .loopControl _ inLoop => inLoop = true
  | .goto _ labels label => label.name ∈ labels

/-- The expressions of a check, with the locals that they can name. -/
def exprs : Check → List (Locals × Expr)
  | .expr Γ e | .condition Γ e | .initializer Γ _ e => [(Γ, e)]
  | .returns _ Γ _ value => value.toList.map (Γ, ·)
  | .loopControl .. | .goto .. => []

end Check

def VariableDecl.local (d : VariableDecl) : Local := ⟨d.place.id, d.name.name, d.type.ty⟩

def Parameter.local (d : Parameter) : Local := ⟨d.place.id, d.name.name, d.type.ty⟩

/-- A variable is not yet known in its own initializer. -/
def VariableDecl.checks (Γ : Locals) (d : VariableDecl) : List Check :=
  d.initializer.toList.map (.initializer Γ d.type.ty)

def ForInit.checks (Γ : Locals) : ForInit → List Check
  | .nothing => []
  | .variable d => d.checks Γ
  | .expr e => [.expr Γ e]

/-- The locals behind the beginning of a loop. -/
def ForInit.after (Γ : Locals) : ForInit → Locals
  | .variable d => Γ.declare d.local
  | .nothing | .expr _ => Γ

/-- The locals behind a statement. -/
def Stmt.after (Γ : Locals) : Stmt → Locals
  | .variable d => Γ.declare d.local
  | _ => Γ

/-- What is known at a place in a function. -/
structure Surroundings where
  locals : Locals
  result : Ty
  labels : List String
  inLoop : Bool

mutual

def Stmt.checks (S : Surroundings) : Stmt → List Check
  | .label .. => []
  | .goto place label => [.goto place S.labels label]
  | .returns place value => [.returns place S.locals S.result value]
  | .breakLoop place | .continueLoop place => [.loopControl place S.inLoop]
  | .variable d => d.checks S.locals
  | .expr e => [.expr S.locals e]
  | .branch b => b.checks S
  | .whileLoop _ condition body =>
    .condition S.locals condition :: body.checks { S with inLoop := true }
  | .forLoop _ init condition step body =>
    init.checks ([] :: S.locals) ++ condition.toList.map (.condition (init.after ([] :: S.locals))) ++
      step.toList.map (.expr (init.after ([] :: S.locals))) ++
      body.checks { S with locals := init.after ([] :: S.locals), inLoop := true }

def Branch.checks (S : Surroundings) : Branch → List Check
  | .mk _ condition body otherwise =>
    .condition S.locals condition :: body.checks S ++ otherwise.checks S

def Otherwise.checks (S : Surroundings) : Otherwise → List Check
  | .nothing => []
  | .branch b => b.checks S
  | .scope s => s.checks S

def Scope.checks (S : Surroundings) : Scope → List Check
  | .mk _ statements => Stmt.listChecks { S with locals := [] :: S.locals } statements

def Stmt.listChecks (S : Surroundings) : List Stmt → List Check
  | [] => []
  | s :: ss => s.checks S ++ Stmt.listChecks { S with locals := s.after S.locals } ss

end

/-! ## Declarations inside of functions -/

inductive LocalDecl
  | parameter (d : Parameter)
  | variable (d : VariableDecl)
  | label (place : Place) (name : Ident)

namespace LocalDecl

def place : LocalDecl → Place
  | .parameter d => d.place
  | .variable d => d.place
  | .label p _ => p

def name : LocalDecl → Ident
  | .parameter d => d.name
  | .variable d => d.name
  | .label _ name => name

def isLabel : LocalDecl → Bool
  | .label .. => true
  | .parameter _ | .variable _ => false

end LocalDecl

def ForInit.locals : ForInit → List LocalDecl
  | .variable d => [.variable d]
  | .nothing | .expr _ => []

mutual

def Stmt.locals : Stmt → List LocalDecl
  | .label p name => [.label p name]
  | .variable d => [.variable d]
  | .branch b => b.locals
  | .whileLoop _ _ body => body.locals
  | .forLoop _ init _ _ body => init.locals ++ body.locals
  | .goto .. | .returns .. | .breakLoop _ | .continueLoop _ | .expr _ => []

def Branch.locals : Branch → List LocalDecl
  | .mk _ _ body otherwise => body.locals ++ otherwise.locals

def Otherwise.locals : Otherwise → List LocalDecl
  | .nothing => []
  | .branch b => b.locals
  | .scope s => s.locals

def Scope.locals : Scope → List LocalDecl
  | .mk _ statements => Stmt.listLocals statements

def Stmt.listLocals : List Stmt → List LocalDecl
  | [] => []
  | s :: ss => s.locals ++ Stmt.listLocals ss

end

namespace FunctionDecl

/-- The parameters, variables and labels of a function. -/
def locals (d : FunctionDecl) : List LocalDecl := d.parameters.map .parameter ++ d.body.locals

/-- The labels that jumps may lead to, wherever they stand. -/
def labels (d : FunctionDecl) : List String :=
  (d.locals.filter LocalDecl.isLabel).map fun l => l.name.name

def surroundings (d : FunctionDecl) : Surroundings where
  locals := [(d.parameters.map Parameter.local).reverse]
  result := d.result
  labels := d.labels
  inLoop := false

def checks (d : FunctionDecl) : List Check := d.body.checks d.surroundings

end FunctionDecl

/-! ## Units -/

/-- Earlier variables of a class are known in later ones, but not in functions. -/
def Member.listChecks (Γ : Locals) : List Member → List Check
  | [] => []
  | .variable d :: ms => d.checks Γ ++ Member.listChecks (Γ.declare d.local) ms
  | .function d :: ms => d.checks ++ Member.listChecks Γ ms

def ClassDecl.checks (d : ClassDecl) : List Check := Member.listChecks [[]] d.members

def Declaration.checks : Declaration → List Check
  | .classDecl d => d.checks
  | .function d => d.checks
  | .variable d => d.checks []

def Member.functions : Member → List FunctionDecl
  | .variable _ => []
  | .function d => [d]

def Declaration.functions : Declaration → List FunctionDecl
  | .classDecl d => d.members.flatMap Member.functions
  | .function d => [d]
  | .variable _ => []

namespace Block

def checks (b : Block) : List Check := b.declarations.flatMap Declaration.checks

/-- The functions of a unit and of its classes. -/
def allFunctions (b : Block) : List FunctionDecl := b.declarations.flatMap Declaration.functions

/-- The types that are written somewhere in a unit. -/
def writtenTypes (b : Block) : List WrittenType :=
  b.tree.preorder.filterMap fun n =>
    match n.head with
    | .type t => some t
    | _ => none

structure WellFormed (b : Block) : Prop where
  /-- The built-in types are declared in front of the unit. -/
  nodup_declarations : (BuiltinType.all.map BuiltinType.name ++
    b.declarations.map fun d => d.name.name).Nodup
  nodup_members : ∀ d ∈ b.classes, (d.members.map fun m => m.name.name).Nodup
  nodup_locals : ∀ d ∈ b.allFunctions, (d.locals.map fun l => l.name.name).Nodup
  isKnown : ∀ t ∈ b.writtenTypes, t.IsKnown b
  holds : ∀ k ∈ b.checks, k.Holds b

end Block

/-! ## The types of all expressions -/

mutual

/-- An expression and what it is made of. -/
def Expr.parts : Expr → List Expr
  | .value p v => [.value p v]
  | .unary p op operand => .unary p op operand :: operand.parts
  | .binary p op left right => .binary p op left right :: (left.parts ++ right.parts)
  | .access p kind object member => .access p kind object member :: object.parts
  | .call p callee arguments =>
    .call p callee arguments :: (callee.parts ++ Expr.listParts arguments)
  | .cast p operand target => .cast p operand target :: operand.parts
  | .index p target subscript => .index p target subscript :: (target.parts ++ subscript.parts)

def Expr.listParts : List Expr → List Expr
  | [] => []
  | e :: es => e.parts ++ Expr.listParts es

end

namespace Block

/-- All expressions of a unit, with the locals that they can name. -/
def exprs (b : Block) : List (Locals × Expr) :=
  b.checks.flatMap fun k => k.exprs.flatMap fun (Γ, e) => e.parts.map (Γ, ·)

/-- The expression with a number has a type by the rules. -/
def Derives (b : Block) (n : NodeId) (τ : Ty) : Prop :=
  ∃ Γ e, (Γ, e) ∈ b.exprs ∧ e.id = n ∧ HasType b Γ e τ

end Block

end Sable
