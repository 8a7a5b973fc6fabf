import Sable.Proofs.Typing.Unit
import Sable.Symbol.Error

/-!
# What checks find

The last phase of an analysis, without its state. Symbols are known by what they stand for and not
by their numbers, so that a type is the same however often and in whichever order types are made.
What is found in an expression depends on a world, which tells what names and symbols mean; of the
rest of the unit nothing is needed.

## Main definitions

* `Entity`: what a symbol stands for.
* `World`: what is known of entities.
* `Found`: an answer with the errors on the way to it.
* `World.typeExpr`: the type of an expression.
* `World.check`: what is found in a check.
-/
namespace Sable

/-! ## Entities -/

/-- What a symbol stands for: a symbol of a dependency, what a node declares, or an interned
type. -/
inductive Entity
  | given (x : SymbolId)
  | declared (n : NodeId)
  | pointer (pointee : Entity)
  | function (parameters : List Entity) (returns : Entity)
  deriving Inhabited

namespace Entity

mutual

def decEq : (s t : Entity) → Decidable (s = t)
  | .given x, .given y => decidable_of_iff (x = y) (by simp)
  | .declared m, .declared n => decidable_of_iff (m = n) (by simp)
  | .pointer s, .pointer t =>
    match s.decEq t with
    | isTrue h => isTrue (by rw [h])
    | isFalse h => isFalse (by simpa using h)
  | .function ss s, .function ts t =>
    match listDecEq ss ts, s.decEq t with
    | isTrue hs, isTrue h => isTrue (by rw [hs, h])
    | isFalse hs, _ => isFalse (by simp [hs])
    | _, isFalse h => isFalse (by simp [h])
  | .given _, .declared _ | .given _, .pointer _ | .given _, .function .. | .declared _, .given _
  | .declared _, .pointer _ | .declared _, .function .. | .pointer _, .given _
  | .pointer _, .declared _ | .pointer _, .function .. | .function .., .given _
  | .function .., .declared _ | .function .., .pointer _ => isFalse (by simp)

def listDecEq : (ss ts : List Entity) → Decidable (ss = ts)
  | [], [] => isTrue rfl
  | s :: ss, t :: ts =>
    match s.decEq t, listDecEq ss ts with
    | isTrue h, isTrue hs => isTrue (by rw [h, hs])
    | isFalse h, _ => isFalse (by simp [h])
    | _, isFalse hs => isFalse (by simp [hs])
  | [], _ :: _ | _ :: _, [] => isFalse (by simp)

end

instance : DecidableEq Entity := decEq

def given? : Entity → Option SymbolId
  | .given x => some x
  | _ => none

end Entity

/-- What a type is made of. -/
inductive Shape
  | primitive
  | classType
  | pointer (pointee : Entity)
  | function (parameters : List Entity) (returns : Entity)

/-- What the rules see of a symbol. Only types have a shape, and only classes have members. -/
structure Sketch where
  name : String
  isValue : Bool := false
  shape : Option Shape := none
  members : String → Option Entity := fun _ => none
  type : Option Entity := none

/-- What is known of symbols of dependencies and of what nodes declare, which types the dependencies
have interned, which of their types has no name, and what the names of the whole unit mean. -/
structure World where
  given? : SymbolId → Option Sketch
  declared? : NodeId → Option Sketch
  pointer? : SymbolId → Option SymbolId
  function? : List SymbolId → SymbolId → Option SymbolId
  nameless? : Option Entity
  global? : String → Option Entity

namespace World

variable (W : World)

mutual

def name : Entity → String
  | .given x =>
    match W.given? x with
    | some s => s.name
    | none => s!"<unknown {x.render}>"
  | .declared n => ((W.declared? n).map Sketch.name).getD ""
  | .pointer t => name t ++ "*"
  | .function ts t => "function(" ++ ", ".intercalate (names ts) ++ ") : " ++ name t

def names : List Entity → List String
  | [] => []
  | t :: ts => name t :: names ts

end

theorem names_eq_map : (ts : List Entity) → W.names ts = ts.map W.name
  | [] => by rw [names, List.map_nil]
  | t :: ts => by rw [names, names_eq_map ts, List.map_cons]

def sketch? : Entity → Option Sketch
  | .given x => W.given? x
  | .declared n => W.declared? n
  | .pointer t => some { name := W.name (.pointer t), shape := some (.pointer t) }
  | .function ts t => some { name := W.name (.function ts t), shape := some (.function ts t) }

def pointerTo : Entity → Entity
  | .given x =>
    match W.pointer? x with
    | some y => .given y
    | none => .pointer (.given x)
  | t => .pointer t

/-- What a class that is named by a star stands for. -/
def star? : Option Entity := W.nameless?.map W.pointerTo

def functionType (ts : List Entity) (t : Entity) : Entity :=
  match ts.mapM Entity.given?, t.given? with
  | some xs, some x =>
    match W.function? xs x with
    | some y => .given y
    | none => .function ts t
  | _, _ => .function ts t

end World

/-! ## Answers -/

/-- An answer with the errors on the way to it. -/
structure Found (α : Type) where
  answer : α
  errors : List SemanticError

namespace Found

instance : Monad Found where
  pure x := ⟨x, []⟩
  bind m f := ⟨(f m.answer).answer, m.errors ++ (f m.answer).errors⟩

variable {α β : Type}

@[simp] theorem answer_pure (x : α) : (pure x : Found α).answer = x := rfl

@[simp] theorem errors_pure (x : α) : (pure x : Found α).errors = [] := rfl

@[simp] theorem answer_bind (m : Found α) (f : α → Found β) :
    (m >>= f).answer = (f m.answer).answer := rfl

@[simp] theorem errors_bind (m : Found α) (f : α → Found β) :
    (m >>= f).errors = m.errors ++ (f m.answer).errors := rfl

def report (e : SemanticError) : Found Unit := ⟨(), [e]⟩

/-- The answer is an error. -/
def fail (e : SemanticError) : Found (Option α) := ⟨none, [e]⟩

/-- Applies a rule to an operand that has a type. -/
def withType (operand : Option Entity) (rule : Entity → Found (Option Entity)) :
    Found (Option Entity) :=
  match operand with
  | some t => rule t
  | none => pure none

end Found

namespace World

open Found

variable (W : World)

/-! ## Types -/

def shape? (t : Entity) : Option Shape := (W.sketch? t).bind Sketch.shape

/-- A type that the whole unit can name. -/
def typeNamed? (name : String) : Option Entity :=
  (W.global? name).filter fun t => (W.shape? t).isSome

def pointers (t : Entity) : Nat → Entity
  | 0 => t
  | depth + 1 => pointers (W.pointerTo t) depth

/-- The type that a written type names. -/
def written? (t : WrittenType) : Option Entity :=
  (W.typeNamed? t.name.name).map fun base => W.pointers base t.stars

def result? : Option WrittenType → Option Entity
  | some t => W.written? t
  | none => W.typeNamed? Library.voidName

/-- The type of a function is known if all its parts are. -/
def functionType? : Option (List Entity) → Option Entity → Option Entity
  | some ts, some t => some (W.functionType ts t)
  | _, _ => none

def signature? (ps : List Parameter) (returns : Option WrittenType) : Option Entity :=
  W.functionType? (ps.mapM fun p => W.written? p.type) (W.result? returns)

/-- The symbol of a type as it is derived from what is written. -/
def ofTy? : Ty → Option Entity
  | .builtin t => W.typeNamed? t.name
  | .classType name => W.typeNamed? name
  | .pointer τ => (ofTy? τ).map W.pointerTo
  | .function .. => none

def isPointer (t : Entity) : Bool :=
  match W.shape? t with
  | some (.pointer _) => true
  | _ => false

def pointee? (t : Entity) : Option Entity :=
  match W.shape? t with
  | some (.pointer p) => some p
  | _ => none

def isFunction (t : Entity) : Bool :=
  match W.shape? t with
  | some (.function ..) => true
  | _ => false

/-- Whether the type is primitive or a class. -/
def isHeld (t : Entity) : Bool :=
  match W.shape? t with
  | some .primitive | some .classType => true
  | _ => false

def isBuiltin (t : Entity) (name : String) : Bool := W.global? name == some t

def isInteger (t : Entity) : Bool := W.isBuiltin t Library.integerName

def isNumeric (t : Entity) : Bool :=
  [Library.byteName, Library.integerName, Library.floatName].any (W.isBuiltin t)

def isBooleanOrPointer (t : Entity) : Bool := W.isBuiltin t Library.booleanName || W.isPointer t

def isNullPointer (t : Entity) : Bool := (W.pointee? t).any (W.isBuiltin · Library.nullName)

/-! ## Rules of expressions -/

def builtin (name : String) (span : Span) : Found (Option Entity) :=
  match W.typeNamed? name with
  | some t => pure (some t)
  | none => fail (.symbolNotFound name span)

def pointerToBuiltin (name : String) (span : Span) : Found (Option Entity) := do
  match ← W.builtin name span with
  | some t => return some (W.pointerTo t)
  | none => return none

/-- The variable or the function that an identifier means. -/
def meaning? (Γ : Locals) (name : String) : Option Entity :=
  match Γ.lookup? name with
  | some l => some (.declared l.node)
  | none => (W.global? name).filter fun t => (W.sketch? t).any Sketch.isValue

def typeIdentifier (Γ : Locals) (name : Ident) : Found (Option Entity) :=
  match W.meaning? Γ name.name with
  | some x => pure ((W.sketch? x).bind Sketch.type)
  | none => fail (.symbolNotFound name.name name.span)

def typeValue (Γ : Locals) (place : Place) : Value → Found (Option Entity)
  | .integer _ => W.builtin Library.integerName place.span
  | .float _ => W.builtin Library.floatName place.span
  | .boolean _ => W.builtin Library.booleanName place.span
  | .character _ => W.builtin Library.byteName place.span
  | .string _ => W.pointerToBuiltin Library.byteName place.span
  | .null => W.pointerToBuiltin Library.nullName place.span
  | .identifier name => W.typeIdentifier Γ name

def sameNumeric (left right : Entity) : Bool := left == right && W.isNumeric left

/-- The type that a unary operator gives, if it takes the operand. -/
def unary? (op : UnaryOp) (t : Entity) (span : Span) : Option (Found (Option Entity)) :=
  match op with
  | .deref => (W.pointee? t).map fun p => pure (some p)
  | .plus | .negate => if W.isNumeric t then some (pure (some t)) else none
  | .increment | .decrement =>
    if W.isNumeric t || W.isPointer t then some (pure (some t)) else none
  | .not => if W.isBooleanOrPointer t then some (W.builtin Library.booleanName span) else none
  | .addressOf => some (pure (some (W.pointerTo t)))

def binary? (op : BinaryOp) (left right : Entity) (span : Span) :
    Option (Found (Option Entity)) :=
  match op with
  | .add =>
    if W.sameNumeric left right || (W.isPointer left && W.isInteger right) then
      some (pure (some left))
    else if W.isInteger left && W.isPointer right then some (pure (some right))
    else none
  | .sub =>
    if W.sameNumeric left right || (W.isPointer left && W.isInteger right) then
      some (pure (some left))
    else if W.isPointer left && W.isPointer right then some (W.builtin Library.integerName span)
    else none
  | .mul | .div | .mod => if W.sameNumeric left right then some (pure (some left)) else none
  | .or | .and =>
    if W.isBooleanOrPointer left && W.isBooleanOrPointer right then
      some (W.builtin Library.booleanName span)
    else none
  | .less | .greater | .lessEqual | .greaterEqual | .equal | .notEqual =>
    some (W.builtin Library.booleanName span)
  | .assign => if left == right && !W.isFunction right then some (pure (some left)) else none
  | .addAssign | .subAssign | .mulAssign | .divAssign | .modAssign => none

def castIsValid (source target : Entity) : Bool :=
  !(W.isFunction source || W.isFunction target ||
    (W.isPointer source && W.isHeld target &&
      !W.isBuiltin target Library.booleanName && !W.isInteger target) ||
    (W.isHeld source && !W.isInteger source && W.isPointer target))

def typeUnary (span : Span) (op : UnaryOp) (t : Entity) : Found (Option Entity) :=
  (W.unary? op t span).getD (fail (.invalidUnaryOperator op (W.name t) span))

/-- The type that the operator gives back, if it can be assigned to the left operand. -/
def binaryResult (span : Span) (op : BinaryOp) (left right : Entity) (type : Option Entity) :
    Found (Option Entity) :=
  match type.filter fun t => op.compound?.isNone || t == left with
  | some t => pure (some t)
  | none => fail (.invalidBinaryOperator op (W.name left) (W.name right) span)

def typeBinary (span : Span) (op : BinaryOp) (left right : Entity) : Found (Option Entity) := do
  let type ← (W.binary? (op.compound?.getD op) left right span).getD (pure none)
  W.binaryResult span op left right type

/-- The class that is accessed. -/
def owner? (kind : AccessKind) (object : Entity) : Option Sketch :=
  ((match kind with
    | .dot => some object
    | .arrow => W.pointee? object).bind W.sketch?).filter fun s =>
      match s.shape with
      | some .classType => true
      | _ => false

def typeAccess (place : Place) (kind : AccessKind) (object : Entity) (member : Ident) :
    Found (Option Entity) :=
  match W.owner? kind object with
  | none => fail (.invalidMemberAccess kind (W.name object) place.span)
  | some owner =>
    match owner.members member.name with
    | none => fail (.symbolNotFound member.name member.span)
    | some m => pure ((W.sketch? m).bind Sketch.type)

/-- The arguments are compared only if all of them have a type. -/
def compareArguments (span : Span) (callee : Entity) (arguments : List (Option Entity))
    (parameters : List Entity) : Found Unit :=
  match arguments.mapM id with
  | some arguments =>
    if arguments ≠ parameters then
      report (.invalidCall (W.name callee) (arguments.map W.name) span)
    else pure ()
  | none => pure ()

def typeCall (span calleeSpan : Span) (callee : Entity) (arguments : List (Option Entity)) :
    Found (Option Entity) :=
  match W.shape? callee with
  | some (.function parameters returns) => do
    W.compareArguments span callee arguments parameters
    return some returns
  | _ => fail (.nonCallableType (W.name callee) calleeSpan)

def typeCast (span : Span) (source target : Entity) : Found (Option Entity) :=
  if W.castIsValid source target then pure (some target)
  else fail (.invalidCast (W.name source) (W.name target) span)

def typeIndex (span : Span) (target subscript : Entity) : Found (Option Entity) :=
  match W.pointee? target, W.isInteger subscript with
  | some pointee, true => pure (some pointee)
  | _, _ => fail (.invalidIndexer (W.name target) (W.name subscript) span)

/-! ## Expressions -/

mutual

def typeExpr (Γ : Locals) : Expr → Found (Option Entity)
  | .value place v => W.typeValue Γ place v
  | .unary place op operand => do
    withType (← typeExpr Γ operand) fun t => W.typeUnary place.span op t
  | .binary place op left right => do
    let left ← typeExpr Γ left
    let right ← typeExpr Γ right
    withType left fun left => withType right fun right => W.typeBinary place.span op left right
  | .access place kind object member => do
    withType (← typeExpr Γ object) fun object => W.typeAccess place kind object member
  | .call place callee arguments => do
    let type ← typeExpr Γ callee
    let arguments ← typeExprs Γ arguments
    withType type fun type => W.typeCall place.span callee.span type arguments
  | .cast place operand target => do
    let source ← typeExpr Γ operand
    withType source fun source => withType (W.written? target) fun target =>
      W.typeCast place.span source target
  | .index place target subscript => do
    let target ← typeExpr Γ target
    let subscript ← typeExpr Γ subscript
    withType target fun target => withType subscript fun subscript =>
      W.typeIndex place.span target subscript

def typeExprs (Γ : Locals) : List Expr → Found (List (Option Entity))
  | [] => return []
  | e :: es => do
    let type ← typeExpr Γ e
    let types ← typeExprs Γ es
    return type :: types

end

/-- The type of an expression, if it has one. -/
abbrev type? (Γ : Locals) (e : Expr) : Option Entity := (W.typeExpr Γ e).answer

/-! ## Checks -/

def mismatch (expected : Entity) (found : Option Entity) (span : Span) : Found Unit :=
  report (.typeMismatch (W.name expected) (found.map W.name) span)

def compareInitializer (expected : Option Entity) (e : Expr) (found : Option Entity) :
    Found Unit :=
  match expected, found with
  | some expected, some found =>
    if found ≠ expected ∧ !(W.isPointer expected && W.isNullPointer found) then
      W.mismatch expected found e.span
    else pure ()
  | _, _ => pure ()

def compareCondition (e : Expr) : Option Entity → Found Unit
  | none => pure ()
  | some type =>
    if W.isBooleanOrPointer type then pure ()
    else report (.conditionExpectedBooleanOrPointer (W.name type) e.span)

def compareReturn (place : Place) (expected : Option Entity) (value : Option Expr)
    (found : Option Entity) : Found Unit :=
  match expected, value, found with
  | some expected, none, _ =>
    if W.isBuiltin expected Library.voidName then pure ()
    else W.mismatch expected none place.span
  | some expected, some e, some found =>
    if found ≠ expected then W.mismatch expected found e.span else pure ()
  | _, _, _ => pure ()

def typeOption (Γ : Locals) : Option Expr → Found (Option Entity)
  | some e => W.typeExpr Γ e
  | none => pure none

def check : Check → Found Unit
  | .expr Γ e => do
    let _ ← W.typeExpr Γ e
  | .condition Γ e => do
    W.compareCondition e (← W.typeExpr Γ e)
  | .initializer Γ declared e => do
    W.compareInitializer (W.ofTy? declared) e (← W.typeExpr Γ e)
  | .returns place Γ result value => do
    W.compareReturn place (W.ofTy? result) value (← W.typeOption Γ value)
  | .loopControl place inLoop =>
    if inLoop then pure () else report (.breakContinueOutsideLoop place.span)
  | .goto _ labels label =>
    if label.name ∈ labels then pure () else report (.symbolNotFound label.name label.span)

end World

end Sable
