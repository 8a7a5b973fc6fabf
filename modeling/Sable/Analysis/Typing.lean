import Sable.Analysis.Context

/-!
# Typing

The last phase of an analysis gives every expression a type and checks the statements around it.
Operands come before their operator. An operand without a type was reported already, and rules
that need its type are left out, so that one mistake is reported once.

## Main definitions

* `Context.binaryType?`, `Context.unaryType?`, `Context.castIsValid`: the rules of operators.
* `Analyzing.typeExpr`: the type of an expression.
* `Analyzing.checkBlock`: the whole unit.
-/
namespace Sable

/-- What an operator makes of its operands: a type that is at hand, or a built-in one. -/
inductive OperatorResult
  | same (type : SymbolId)
  | builtin (name : String)
  | pointerTo (type : SymbolId)
  deriving DecidableEq, Inhabited

namespace Context

def sameNumeric (c : Context) (left right : SymbolId) : Bool := left == right && c.isNumeric left

/-- Numbers are combined with numbers of the same type, pointers with integers. The distance of
two pointers is an integer. Any two values can be compared. -/
def binaryType? (c : Context) (op : BinaryOp) (left right : SymbolId) : Option OperatorResult :=
  match op with
  | .add =>
    if c.sameNumeric left right || (c.isPointer left && c.isInteger right) then some (.same left)
    else if c.isInteger left && c.isPointer right then some (.same right)
    else none
  | .sub =>
    if c.sameNumeric left right || (c.isPointer left && c.isInteger right) then some (.same left)
    else if c.isPointer left && c.isPointer right then some (.builtin Library.integerName)
    else none
  | .mul | .div | .mod => if c.sameNumeric left right then some (.same left) else none
  | .or | .and =>
    if c.isBooleanOrPointer left && c.isBooleanOrPointer right then
      some (.builtin Library.booleanName)
    else none
  | .less | .greater | .lessEqual | .greaterEqual | .equal | .notEqual =>
    some (.builtin Library.booleanName)
  | .assign => if left == right && !c.isFunction right then some (.same left) else none
  | .addAssign | .subAssign | .mulAssign | .divAssign | .modAssign => none

def unaryType? (c : Context) (op : UnaryOp) (operand : SymbolId) : Option OperatorResult :=
  match op with
  | .deref => (c.pointee? operand).map .same
  | .plus | .negate => if c.isNumeric operand then some (.same operand) else none
  | .increment | .decrement =>
    if c.isNumeric operand || c.isPointer operand then some (.same operand) else none
  | .not => if c.isBooleanOrPointer operand then some (.builtin Library.booleanName) else none
  | .addressOf => some (.pointerTo operand)

/-- Functions are never cast. Between pointers and values only the integer type, and from a
pointer also the Boolean type, is allowed. -/
def castIsValid (c : Context) (source target : SymbolId) : Bool :=
  !(c.isFunction source || c.isFunction target ||
    (c.isPointer source && c.isValue target &&
      !c.isBuiltin target Library.booleanName && !c.isInteger target) ||
    (c.isValue source && !c.isInteger source && c.isPointer target))

end Context

namespace Analyzing

def resultType (result : OperatorResult) (span : Span) : Analyzing (Option SymbolId) := do
  match result with
  | .same type => return some type
  | .builtin name => builtin name span
  | .pointerTo type => some <$> onLibrary (·.pointerTo type)

/-! ## Rules of expressions

Each rule gets the types of the operands. -/

/-- The type that a built-in literal points to. -/
def pointerToBuiltin (name : String) (span : Span) : Analyzing (Option SymbolId) := do
  match ← builtin name span with
  | some id => some <$> onLibrary (·.pointerTo id)
  | none => return none

/-- Only variables and functions can be used in expressions. -/
def typeIdentifier (node : NodeId) (name : Ident) : Analyzing (Option SymbolId) := do
  let c ← get
  match (c.lookup? name.name).bind fun id => (c.symbol? id).map (id, ·) with
  | some (id, symbol) =>
    if symbol.isValue then do
      annotate fun a => { a with symbols := a.symbols.insert node id }
      return symbol.type
    else do
      report (.symbolNotFound name.name name.span)
      return none
  | none => do
    report (.symbolNotFound name.name name.span)
    return none

def typeValue (place : Place) : Value → Analyzing (Option SymbolId)
  | .integer _ => builtin Library.integerName place.span
  | .float _ => builtin Library.floatName place.span
  | .boolean _ => builtin Library.booleanName place.span
  | .character _ => builtin Library.byteName place.span
  | .string _ => pointerToBuiltin Library.byteName place.span
  | .null => pointerToBuiltin Library.nullName place.span
  | .identifier name => typeIdentifier place.id name

def typeUnary (span : Span) (op : UnaryOp) (operand : SymbolId) :
    Analyzing (Option SymbolId) := do
  let c ← get
  match c.unaryType? op operand with
  | some result => resultType result span
  | none => do
    report (.invalidUnaryOperator op (c.nameOf operand) span)
    return none

/-- A compound assignment applies its arithmetic operator, which must give the type of the left
operand back. A missing built-in type is reported along with the operator. -/
def typeBinary (span : Span) (op : BinaryOp) (left right : SymbolId) :
    Analyzing (Option SymbolId) := do
  let c ← get
  let type ← match c.binaryType? (op.compound?.getD op) left right with
    | some result => resultType result span
    | none => pure none
  match type.filter fun type => op.compound?.isNone || type == left with
  | some type => return some type
  | none => do
    report (.invalidBinaryOperator op (c.nameOf left) (c.nameOf right) span)
    return none

def typeAccess (place : Place) (kind : AccessKind) (object : SymbolId) (member : Ident) :
    Analyzing (Option SymbolId) := do
  let c ← get
  let owner := match kind with
    | .dot => some object
    | .arrow => c.pointee? object
  match (owner.bind c.type?).filter (·.mode == .classType) with
  | none => do
    report (.invalidMemberAccess kind (c.nameOf object) place.span)
    return none
  | some type =>
    match type.members.get? member.name with
    | none => do
      report (.symbolNotFound member.name member.span)
      return none
    | some id => do
      annotate fun a => { a with members := a.members.insert place.id id }
      return (c.symbol? id).bind (·.type)

/-- The types of the arguments are compared only if all are known; the result type is that of the
signature in any case. -/
def typeCall (span calleeSpan : Span) (callee : SymbolId) (arguments : List (Option SymbolId)) :
    Analyzing (Option SymbolId) := do
  let c ← get
  match (c.type? callee).map TypeSymbol.form with
  | some (.function parameters returns) => do
    match arguments.mapM id with
    | some arguments =>
      if arguments ≠ parameters then
        report (.invalidCall (c.nameOf callee) (arguments.map c.nameOf) span)
    | none => pure ()
    return some returns
  | _ => do
    report (.nonCallableType (c.nameOf callee) calleeSpan)
    return none

def typeCast (span : Span) (source target : SymbolId) : Analyzing (Option SymbolId) := do
  let c ← get
  if c.castIsValid source target then return some target
  else
    report (.invalidCast (c.nameOf source) (c.nameOf target) span)
    return none

def typeIndex (span : Span) (target subscript : SymbolId) : Analyzing (Option SymbolId) := do
  let c ← get
  match c.pointee? target, c.isInteger subscript with
  | some pointee, true => return some pointee
  | _, _ => do
    report (.invalidIndexer (c.nameOf target) (c.nameOf subscript) span)
    return none

/-! ## Expressions -/

/-- Notes the type that a rule finds. -/
def noting (node : NodeId) (rule : Analyzing (Option SymbolId)) : Analyzing (Option SymbolId) := do
  visit .typing node
  match ← rule with
  | some type => do
    annotate fun a => { a with resolvedTypes := a.resolvedTypes.insert node type }
    return some type
  | none => return none

/-- Applies a rule to an operand that has a type. -/
def withType (operand : Option SymbolId) (rule : SymbolId → Analyzing (Option SymbolId)) :
    Analyzing (Option SymbolId) :=
  match operand with
  | some type => rule type
  | none => return none

mutual

def typeExpr : Expr → Analyzing (Option SymbolId)
  | .value place v => noting place.id (typeValue place v)
  | .unary place op operand => noting place.id do
    withType (← typeExpr operand) fun operand => typeUnary place.span op operand
  | .binary place op left right => noting place.id do
    let left ← typeExpr left
    let right ← typeExpr right
    withType left fun left => withType right fun right => typeBinary place.span op left right
  | .access place kind object member => noting place.id do
    withType (← typeExpr object) fun object => typeAccess place kind object member
  | .call place callee arguments => noting place.id do
    let type ← typeExpr callee
    let arguments ← typeExprs arguments
    withType type fun type => typeCall place.span callee.span type arguments
  | .cast place operand target => noting place.id do
    let source ← typeExpr operand
    let target := (← get).annotations.declaredTypes.get? target.place.id
    withType source fun source => withType target fun target => typeCast place.span source target
  | .index place target subscript => noting place.id do
    let target ← typeExpr target
    let subscript ← typeExpr subscript
    withType target fun target => withType subscript fun subscript =>
      typeIndex place.span target subscript

def typeExprs : List Expr → Analyzing (List (Option SymbolId))
  | [] => return []
  | e :: es => do
    let type ← typeExpr e
    let types ← typeExprs es
    return type :: types

end

/-! ## Statements -/

def mismatch (expected : SymbolId) (found : Option SymbolId) (span : Span) : Analyzing Unit := do
  let c ← get
  report (.typeMismatch (c.nameOf expected) (found.map c.nameOf) span)

/-- A declared name is known from here on to the end of the innermost scope. -/
def declareLocal (node : NodeId) (name : Ident) : Analyzing Unit := do
  match (← get).annotations.symbols.get? node with
  | some symbol => modify fun c => { c with scopes := c.scopes.declare name.name symbol }
  | none => return

/-- The type of the null literal goes with every pointer type. -/
def checkInitializer (expected : Option SymbolId) (e : Expr) : Analyzing Unit := do
  let found ← typeExpr e
  let c ← get
  match expected, found with
  | some expected, some found =>
    if found ≠ expected ∧ !(c.isPointer expected && c.isNullPointer found) then
      mismatch expected found e.span
  | _, _ => return

/-- A variable is not yet known in its own initializer. -/
def checkVariable (d : VariableDecl) : Analyzing Unit := do
  visit .typing d.place.id
  let declared := (← get).annotations.declaredTypes.get? d.type.place.id
  d.initializer.toList.forM (checkInitializer declared)
  declareLocal d.place.id d.name

def checkCondition (e : Expr) : Analyzing Unit := do
  match ← typeExpr e with
  | none => return
  | some type => do
    let c ← get
    unless c.isBooleanOrPointer type do
      report (.conditionExpectedBooleanOrPointer (c.nameOf type) e.span)

/-- A jump leads to a label of the function that it stands in. -/
def checkGoto (place : Place) (label : Ident) : Analyzing Unit := do
  visit .typing place.id
  let c ← get
  let function := ((c.scopes.nearestFunction?).bind c.symbol?).bind Symbol.function?
  match function.bind (·.labels.get? label.name) with
  | some id => annotate fun a => { a with labels := a.labels.insert place.id id }
  | none => report (.symbolNotFound label.name label.span)

/-- The type that the function around a node returns. -/
def expectedReturn? (c : Context) (node : NodeId) : Option SymbolId :=
  match (c.parents.enclosingFunction? node).map Node.head with
  | some (.function _ _ (some t)) => c.annotations.declaredTypes.get? t.place.id
  | some (.function _ _ none) => c.globalType? Library.voidName
  | _ => none

/-- Only a function of the void type returns without a value. -/
def checkReturn (place : Place) (value : Option Expr) : Analyzing Unit := do
  visit .typing place.id
  let found ← match value with
    | some e => typeExpr e
    | none => pure none
  let c ← get
  match expectedReturn? c place.id, value, found with
  | some expected, none, _ =>
    unless c.isBuiltin expected Library.voidName do
      mismatch expected none place.span
  | some expected, some e, some found =>
    if found ≠ expected then
      mismatch expected found e.span
  | _, _, _ => return

def checkLoopControl (place : Place) : Analyzing Unit := do
  visit .typing place.id
  unless (← get).scopes.inLoop do
    report (.breakContinueOutsideLoop place.span)

def checkInit : ForInit → Analyzing Unit
  | .nothing => return
  | .variable d => checkVariable d
  | .expr e => do
    let _ ← typeExpr e

mutual

def checkStmt : Stmt → Analyzing Unit
  | .label place _ => visit .typing place.id
  | .goto place label => checkGoto place label
  | .returns place value => checkReturn place value
  | .breakLoop place | .continueLoop place => checkLoopControl place
  | .variable d => checkVariable d
  | .expr e => do
    let _ ← typeExpr e
  | .branch b => checkBranch b
  | .whileLoop place condition body => do
    visit .typing place.id
    checkCondition condition
    inScope .loop place.id none (checkScope body)
  | .forLoop place init condition step body => do
    visit .typing place.id
    inScope .loop place.id none do
      checkInit init
      condition.toList.forM checkCondition
      step.toList.forM fun e => do
        let _ ← typeExpr e
      checkScope body

def checkBranch : Branch → Analyzing Unit
  | .mk place condition body otherwise => do
    visit .typing place.id
    checkCondition condition
    checkScope body
    checkOtherwise otherwise

def checkOtherwise : Otherwise → Analyzing Unit
  | .nothing => return
  | .branch b => checkBranch b
  | .scope s => checkScope s

def checkScope : Scope → Analyzing Unit
  | .mk place statements => do
    visit .typing place.id
    inScope .block place.id none (checkStmts statements)

def checkStmts : List Stmt → Analyzing Unit
  | [] => return
  | s :: ss => do
    checkStmt s
    checkStmts ss

end

/-! ## Declarations -/

def checkParameter (p : Parameter) : Analyzing Unit := do
  visit .typing p.place.id
  declareLocal p.place.id p.name

def checkFunction (d : FunctionDecl) : Analyzing Unit := do
  visit .typing d.place.id
  let symbol := (← get).annotations.symbols.get? d.place.id
  inScope .function d.place.id symbol do
    d.parameters.forM checkParameter
    d.returns.toList.forM fun t => visit .typing t.place.id
    checkScope d.body

def checkMember : Member → Analyzing Unit
  | .variable d => checkVariable d
  | .function d => checkFunction d

def checkClass (d : ClassDecl) : Analyzing Unit := do
  visit .typing d.place.id
  let symbol := (← get).annotations.symbols.get? d.place.id
  inScope .classBody d.place.id symbol (d.members.forM checkMember)

def checkDeclaration : Declaration → Analyzing Unit
  | .classDecl d => checkClass d
  | .function d => checkFunction d
  | .variable d => checkVariable d

def checkBlock (b : Block) : Analyzing Unit := do
  visit .typing b.place.id
  b.declarations.forM checkDeclaration

end Analyzing

end Sable
