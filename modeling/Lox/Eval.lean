import Lox.Run
import Lox.Store.Text

/-!
# Evaluation

Expressions evaluate to values, statements complete normally or return. Names are looked up through
the resolution table: a node with an entry uses the scope at that distance from the current one, any
other node uses the globals.

Fuel bounds the nesting of the recursion and the number of times a loop goes round; it is no part of
the language, and more of it never changes a run that ends.
-/

namespace Lox

/-- What stays fixed during a run. -/
structure Context where
  globals : ScopeId
  table : Resolution
  maxDepth : Nat

/-! ### Names -/

/-- Reads the variable a node names. -/
def Run.lookUp (ctx : Context) (id : NodeId) (name : Token) : Run Value := do
  match ctx.table[id]? with
  | some distance =>
    let scope ← Run.currentScope
    Run.ofScope (← Run.ask (·.getAt scope distance name.lexeme))
  | none =>
    match ← Run.ask (·.get? ctx.globals name.lexeme) with
    | some v => return v
    | none => Action.fail .undefinedVariable name

/-- The scope an assignment writes to. A name that was not resolved needs a binding already. -/
def Run.assignedScope (ctx : Context) (id : NodeId) (name : Token) : Run ScopeId := do
  match ctx.table[id]? with
  | some distance =>
    let scope ← Run.currentScope
    Run.ofScope (← Run.ask (·.scopeAt scope distance))
  | none =>
    match ← Run.ask (·.owner? ctx.globals name.lexeme) with
    | some scope => return scope
    | none => Action.fail .undefinedVariable name

/-- Writes the variable an assignment names. -/
def Run.assign (ctx : Context) (id : NodeId) (name : Token) (v : Value) : Run Unit := do
  let scope ← Run.assignedScope ctx id name
  Run.modifyStore (·.define scope name.lexeme v)

/-- Binds a name in the current scope. -/
def Run.define (name : String) (v : Value) : Run Unit := fun s =>
  .ok () { s with store := s.store.define s.scope name v }

/-! ### Operators -/

/-- The value of a literal. -/
def Literal.evaluate : Literal → Except Fault Value
  | .nil => return .nil
  | .bool b => return .bool b
  | .number x => return .number x
  | .string s => return .string s
  | .integer i =>
    match Number.ofInt? i with
    | some x => return .number x
    | none => throw .integerTooLarge

namespace Token

/-- A unary operator on the value of its operand. -/
def applyUnary (operator : Token) (v : Value) : Except Fault Value :=
  match operator.kind, v with
  | .bang, v => return .bool (!v.truthy)
  | .minus, .number x => return .number (-x)
  | .minus, _ => throw (.error ⟨.numberOperand, operator⟩)
  | _, _ => throw (.unknownUnary operator.lexeme)

/-- A binary operator on two numbers, apart from `+` and the equalities. -/
def applyArithmetic (operator : Token) (x y : Float) : Except Fault Value :=
  match operator.kind with
  | .minus => return .number (x - y)
  | .star => return .number (x * y)
  | .slash => return .number (x / y)
  | .greater => return .bool (y < x)
  | .greaterEqual => return .bool (y ≤ x)
  | .less => return .bool (x < y)
  | .lessEqual => return .bool (x ≤ y)
  | _ => throw (.unknownBinary operator.lexeme)

/-- A binary operator on the values of its operands. -/
def applyBinary (operator : Token) (left right : Value) : Except Fault Value :=
  match operator.kind, left, right with
  | .equalEqual, _, _ => return .bool (left.equal right)
  | .bangEqual, _, _ => return .bool (!left.equal right)
  | .plus, .number x, .number y => return .number (x + y)
  | .plus, .string s, .string t => return .string (s ++ t)
  | .plus, _, _ => throw (.error ⟨.plusOperands, operator⟩)
  | _, .number x, .number y => operator.applyArithmetic x y
  | _, _, _ => throw (.error ⟨.numberOperands, operator⟩)

/-- Whether the left operand of a logical operator decides; any operator but `or` is an `and`. -/
def decidesLogical (operator : Token) (left : Value) : Bool :=
  if operator.kind = .kwOr then left.truthy else !left.truthy

end Token

/-! ### Properties -/

/-- Reads a property of an instance. A method is bound anew at each reading. -/
def Run.getProperty (i : InstanceId) (name : Token) : Run Value := do
  match ← Run.ask (·.member? i name.lexeme) with
  | some (.field v) => return v
  | some (.method f) => Run.alloc (·.bindValue f (.inst i))
  | none => Action.fail .undefinedProperty name

/-- A method of the superclass, bound to the current instance. The instance lives in the scope just
inside the one that binds `super`. -/
def Run.superMethod (ctx : Context) (id : NodeId) (method : Token) : Run Value := do
  match ctx.table[id]? with
  | none => Action.raise .unresolvedSuper
  | some distance =>
    let scope ← Run.currentScope
    let superclass ← Run.ofScope (← Run.ask (·.getAt scope distance "super"))
    let this ← Run.ofScope (← Run.ask (·.getAt scope ((distance : Int) - 1) "this"))
    match superclass with
    | .cls c =>
      match ← Run.ask (·.method? c method.lexeme) with
      | some f => Run.alloc (·.bindValue f this)
      | none => Action.fail .undefinedProperty method
    | _ => Action.raise .superNotClass

/-! ### Calls -/

/-- The scope of a call: parameters are paired with arguments up to the shorter list, and the last
of two parameters of one name counts. -/
def Run.enterFunction (f : FunctionObject) (arguments : List Value) : Run ScopeId :=
  Run.alloc (·.newScope {
    enclosing := some f.closure
    values := (f.declaration.params.zip arguments).foldl
      (fun values (param, v) => values.insert param.lexeme v) ∅ })

/-- Calls a function. An initializer hands back its instance, whatever its body returns. -/
def Run.callFunction (runBody : List Stmt → Run Completion) (f : FunctionObject)
    (arguments : List Value) : Run Value := do
  let scope ← Run.enterFunction f arguments
  let completion ← Run.inScope scope (runBody f.declaration.body)
  if f.isInitializer then
    Run.ofScope (← Run.ask (·.getAt f.closure 0 "this"))
  else
    match completion with
    | .returned v => return v
    | .normal => return .nil

/-- Makes an instance of a class and runs the initializer on it, if the class has one. -/
def Run.construct (runBody : List Stmt → Run Completion) (c : ClassId) (arguments : List Value) :
    Run Value := do
  let i ← Run.alloc (·.newInstance c)
  match ← Run.ask (·.initializer? c) with
  | none => return .inst i
  | some f =>
    let f ← Run.alloc (·.bind f (.inst i))
    let _ ← Run.callFunction runBody f arguments
    return .inst i

/-- Calls a callable object, without a check of its arguments. -/
def Run.invoke (runBody : List Stmt → Run Completion) (callee : Callable)
    (arguments : List Value) : Run Value :=
  match callee with
  | .function f => Run.callFunction runBody f arguments
  | .native n => return n.apply arguments
  | .cls c => Run.construct runBody c arguments

/-- Calls a value: it has to be callable, take that many arguments, and the calls must not be nested
too deeply; these are checked in this order. -/
def Run.call (ctx : Context) (runBody : List Stmt → Run Completion) (paren : Token)
    (callee : Value) (arguments : List Value) : Run Value := do
  match ← Run.ask (·.callable? callee) with
  | none => Action.fail .notCallable paren
  | some c =>
    let arity ← Run.ask (·.arity c)
    if arguments.length ≠ arity then
      Action.fail (.arity arity arguments.length) paren
    else if ctx.maxDepth ≤ (← Run.callDepth) then
      Action.fail (.stackOverflow ctx.maxDepth) paren
    else
      Run.deeper (Run.invoke runBody c arguments)

/-! ### Declarations -/

/-- A function object that closes over a scope. -/
def Run.closeOver (scope : ScopeId) (isInitializer : Bool) (f : FunctionDecl) : Run FunctionId :=
  Run.alloc (·.newFunction ⟨f, scope, isInitializer⟩)

/-- The methods of a class, by name; of two methods of one name the last counts. -/
def Run.methodTable (scope : ScopeId) :
    Std.ExtTreeMap String FunctionId → List FunctionDecl → Run (Std.ExtTreeMap String FunctionId)
  | table, [] => return table
  | table, f :: fs => do
    let name := f.name.lexeme
    let id ← Run.closeOver scope (name = FunctionDecl.initializerName) f
    methodTable scope (table.insert name id) fs

/-- The class a superclass expression has to evaluate to. -/
def Run.superclass (name : Token) (v : Value) : Run ClassId :=
  match v with
  | .cls c => return c
  | _ => Action.fail .superclassNotClass name

/-- Declares a class whose superclass is known. The name is bound first, so that it is there for
the methods; then the nearest binding of it becomes the class. -/
def Run.declareClass (name : Token) (superclass : Option ClassId) (methods : List FunctionDecl) :
    Run Unit := do
  Run.define name.lexeme .nil
  let scope ← Run.currentScope
  let methodScope ← match superclass with
    | none => pure scope
    | some c =>
      Run.alloc (·.newScope { enclosing := some scope, values := {("super", .cls c)} })
  let table ← Run.methodTable methodScope ∅ methods
  let c ← Run.alloc (·.newClass ⟨name.lexeme, superclass, table⟩)
  match ← Run.ask (·.owner? scope name.lexeme) with
  | some owner => Run.modifyStore (·.define owner name.lexeme (.cls c))
  | none => Action.fail .undefinedVariable name

/-! ### Expressions and statements -/

mutual

def evaluate (ctx : Context) : Nat → Expr → Run Value
  | 0, _ => Action.outOfFuel
  | _ + 1, .literal _ value => Action.ofExcept value.evaluate
  | _ + 1, .var ref => Run.lookUp ctx ref.id ref.name
  | n + 1, .assign id target equals value => do
    let v ← evaluate ctx n value
    Run.assign ctx id (target.assignedName equals) v
    return v
  | n + 1, .binary _ left operator right => do
    let l ← evaluate ctx n left
    let r ← evaluate ctx n right
    Action.ofExcept (operator.applyBinary l r)
  | n + 1, .logical _ left operator right => do
    let l ← evaluate ctx n left
    if operator.decidesLogical l then return l else evaluate ctx n right
  | n + 1, .unary _ operator operand => do
    let v ← evaluate ctx n operand
    Action.ofExcept (operator.applyUnary v)
  | n + 1, .grouping _ inner => evaluate ctx n inner
  | n + 1, .call _ callee paren arguments => do
    let f ← evaluate ctx n callee
    let vs ← Action.collect (evaluate ctx n) arguments
    Run.call ctx (Action.untilReturn (execute ctx n)) paren f vs
  | n + 1, .get _ object name => do
    match ← evaluate ctx n object with
    | .inst i => Run.getProperty i name
    | _ => Action.fail .propertyOnNonInstance name
  | n + 1, .set _ object name value => do
    match ← evaluate ctx n object with
    | .inst i =>
      let v ← evaluate ctx n value
      Run.modifyStore (·.setField i name.lexeme v)
      return v
    | _ => Action.fail .fieldOnNonInstance name
  | _ + 1, .this id keyword => Run.lookUp ctx id keyword
  | _ + 1, .super id _ method => Run.superMethod ctx id method

def execute (ctx : Context) : Nat → Stmt → Run Completion
  | 0, _ => Action.outOfFuel
  | n + 1, .block _ body => do
    let current ← Run.currentScope
    let scope ← Run.alloc (·.newScope { enclosing := some current })
    Run.inScope scope (Action.untilReturn (execute ctx n) body)
  | n + 1, .expression _ e => do
    let _ ← evaluate ctx n e
    return .normal
  | n + 1, .print _ e => do
    let v ← evaluate ctx n e
    Run.print (← Run.ask (·.display v))
    return .normal
  | _ + 1, .varDecl _ name none => do
    Run.define name.lexeme .nil
    return .normal
  | n + 1, .varDecl _ name (some e) => do
    let v ← evaluate ctx n e
    Run.define name.lexeme v
    return .normal
  | n + 1, .branch _ condition thenBranch elseBranch => do
    let v ← evaluate ctx n condition
    if v.truthy then execute ctx n thenBranch
    else match elseBranch with
      | none => return .normal
      | some elseBranch => execute ctx n elseBranch
  | n + 1, .loop id condition body => do
    let v ← evaluate ctx n condition
    if v.truthy then
      match ← execute ctx n body with
      | .normal => execute ctx n (.loop id condition body)
      | .returned v => return .returned v
    else return .normal
  | _ + 1, .function f => do
    let id ← Run.closeOver (← Run.currentScope) false f
    Run.define f.name.lexeme (.function id)
    return .normal
  | _ + 1, .ret _ _ none => return .returned .nil
  | n + 1, .ret _ _ (some e) => return .returned (← evaluate ctx n e)
  | _ + 1, .classDecl _ name none methods => do
    Run.declareClass name none methods
    return .normal
  | n + 1, .classDecl _ name (some ref) methods => do
    let c ← Run.superclass ref.name (← evaluate ctx n (.var ref))
    Run.declareClass name (some c) methods
    return .normal

end

end Lox
