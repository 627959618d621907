import Std.Data.ExtTreeMap
import Lox.Syntax
import Lox.Error

/-!
# Static resolution

The resolver walks a program with a stack of local scopes and records, for each use of a local
name, how many scopes out the innermost scope with that name lies. A use that no local scope knows
is left out of the table: it names a global. On the way the static rules are checked; an error is
reported and the walk goes on.
-/

namespace Lox

/-- How many scopes out the variable used by a node lives; nodes that use globals are absent. -/
abbrev Resolution := Std.ExtTreeMap NodeId Nat

/-- A local scope during resolution: its names, each with whether its initializer is complete. -/
abbrev StaticScope := Std.ExtTreeMap String Bool

/-- What kind of function encloses a node most closely. -/
inductive FunctionKind
  | none | function | initializer | method
  deriving DecidableEq

/-- What kind of class encloses a node most closely. -/
inductive ClassKind
  | none | plain | subclass
  deriving DecidableEq

/-- The state of a walk. Scopes are listed from the innermost outwards; errors in the order in
which they were found. -/
structure Resolver where
  scopes : List StaticScope := []
  table : Resolution := ∅
  errors : List StaticError := []
  functionKind : FunctionKind := .none
  classKind : ClassKind := .none

namespace Resolver

/-! ### Scopes -/

def addError (r : Resolver) (cause : StaticCause) (token : Token) : Resolver :=
  { r with errors := r.errors ++ [⟨cause, token⟩] }

def openScope (r : Resolver) (scope : StaticScope) : Resolver :=
  { r with scopes := scope :: r.scopes }

def closeScope (r : Resolver) : Resolver :=
  { r with scopes := r.scopes.tail }

/-- Marks a name in the innermost scope. Globals are not tracked. -/
def mark (r : Resolver) (name : String) (ready : Bool) : Resolver :=
  match r.scopes with
  | [] => r
  | scope :: outer => { r with scopes := scope.insert name ready :: outer }

/-- Whether the innermost scope has the name already. -/
def isDeclaredHere (r : Resolver) (name : String) : Bool :=
  match r.scopes with
  | [] => false
  | scope :: _ => scope.contains name

/-- Whether the innermost scope has the name, and its initializer is not complete. -/
def isInInitializer (r : Resolver) (name : String) : Bool :=
  match r.scopes with
  | [] => false
  | scope :: _ => scope[name]? == some false

/-- Adds a name to the innermost scope, not yet ready for reading. -/
def declare (r : Resolver) (name : Token) : Resolver :=
  let r := if r.isDeclaredHere name.lexeme then r.addError .duplicateDeclaration name else r
  r.mark name.lexeme false

/-- Makes a declared name ready for reading. -/
def define (r : Resolver) (name : Token) : Resolver :=
  r.mark name.lexeme true

/-- Adds a name that is ready at once: a function, a class, or a parameter. -/
def declareReady (r : Resolver) (name : Token) : Resolver :=
  (r.declare name).define name

/-- How many scopes out the innermost scope with the name lies. -/
def distance? (r : Resolver) (name : String) : Option Nat :=
  r.scopes.findIdx? (·.contains name)

/-- Records where a node finds a name, if a local scope has it. -/
def resolveName (r : Resolver) (id : NodeId) (name : Token) : Resolver :=
  match r.distance? name.lexeme with
  | some d => { r with table := r.table.insert id d }
  | none => r

/-- A variable that is read. -/
def resolveVar (r : Resolver) (ref : VarRef) : Resolver :=
  let r := if r.isInInitializer ref.name.lexeme then r.addError .selfInitializer ref.name else r
  r.resolveName ref.id ref.name

/-- The kind of a method is told by its name. -/
def methodKind (f : FunctionDecl) : FunctionKind :=
  if f.name.lexeme = FunctionDecl.initializerName then .initializer else .method

/-! ### The walk -/

mutual

def resolveExpr (r : Resolver) : Expr → Resolver
  | .literal .. => r
  | .var ref => r.resolveVar ref
  | .assign id (.var ref) _ value => (resolveExpr r value).resolveName id ref.name
  | .assign _ target equals value =>
    resolveExpr ((resolveExpr r value).addError .invalidAssignmentTarget equals) target
  | .binary _ left _ right => resolveExpr (resolveExpr r left) right
  | .logical _ left _ right => resolveExpr (resolveExpr r left) right
  | .unary _ _ operand => resolveExpr r operand
  | .grouping _ inner => resolveExpr r inner
  | .call _ callee _ arguments => resolveExprs (resolveExpr r callee) arguments
  | .get _ object _ => resolveExpr r object
  | .set _ object _ value => resolveExpr (resolveExpr r value) object
  | .this id keyword =>
    match r.classKind with
    | .none => r.addError .thisOutsideClass keyword
    | _ => r.resolveName id keyword
  | .super id keyword _ =>
    let r := match r.classKind with
      | .none => r.addError .superOutsideClass keyword
      | .plain => r.addError .superWithoutSuperclass keyword
      | .subclass => r
    r.resolveName id keyword

def resolveExprs (r : Resolver) : List Expr → Resolver
  | [] => r
  | e :: es => resolveExprs (resolveExpr r e) es

end

/-- An expression that may be absent. -/
def resolveExpr? (r : Resolver) : Option Expr → Resolver
  | none => r
  | some e => r.resolveExpr e

/-- The superclass of a class, if it has one; its methods close over a scope that holds `super`. -/
def enterSuperclass (r : Resolver) (name : Token) : Option VarRef → Resolver
  | none => r
  | some superclass =>
    let r := if superclass.name.lexeme = name.lexeme then
        r.addError .selfInheritance superclass.name
      else r
    let r := { r with classKind := .subclass }
    (r.resolveVar superclass).openScope {("super", true)}

mutual

def resolveStmt (r : Resolver) : Stmt → Resolver
  | .block _ body => (resolveStmts (r.openScope ∅) body).closeScope
  | .expression _ e => r.resolveExpr e
  | .print _ e => r.resolveExpr e
  | .varDecl _ name initializer => ((r.declare name).resolveExpr? initializer).define name
  | .branch _ condition thenBranch elseBranch =>
    let r := resolveStmt (r.resolveExpr condition) thenBranch
    match elseBranch with
    | none => r
    | some elseBranch => resolveStmt r elseBranch
  | .loop _ condition body => resolveStmt (r.resolveExpr condition) body
  | .function f => resolveFunction (r.declareReady f.name) .function f
  | .ret _ keyword value =>
    let r := if r.functionKind = .none then r.addError .topLevelReturn keyword else r
    r.resolveExpr? value
  | .classDecl _ name superclass methods =>
    let declared := { r with classKind := .plain }.declareReady name
    let entered := declared.enterSuperclass name superclass
    let walked := (resolveMethods (entered.openScope {("this", true)}) methods).closeScope
    let left := if superclass.isSome then walked.closeScope else walked
    { left with classKind := r.classKind }

/-- A function opens one scope, which its parameters share with its body. -/
def resolveFunction (r : Resolver) (kind : FunctionKind) : FunctionDecl → Resolver
  | ⟨_, _, params, body⟩ =>
    let entered := params.foldl declareReady ({ r with functionKind := kind }.openScope ∅)
    { (resolveStmts entered body).closeScope with functionKind := r.functionKind }

def resolveStmts (r : Resolver) : List Stmt → Resolver
  | [] => r
  | s :: ss => resolveStmts (resolveStmt r s) ss

def resolveMethods (r : Resolver) : List FunctionDecl → Resolver
  | [] => r
  | f :: fs => resolveMethods (resolveFunction r (methodKind f) f) fs

end

/-- The state before a program, whatever was resolved before. -/
def reset (_ : Resolver) : Resolver := {}

/-- Resolves a program with a resolver that may have resolved others before. -/
def resolve (r : Resolver) (program : Program) : Resolver := r.reset.resolveStmts program

def diagnostics (r : Resolver) : List Diagnostic := r.errors.map StaticError.diagnostic

def hasErrors (r : Resolver) : Bool := !r.errors.isEmpty

def log (r : Resolver) : DiagnosticLog := ⟨r.diagnostics⟩

end Resolver

/-- Resolves a program on its own. -/
def Program.resolve (program : Program) : Resolver := Resolver.resolve {} program

end Lox
