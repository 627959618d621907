import Lox.Diagnostic

/-!
# Errors of a program

What can be wrong with a program, found before it runs (a `StaticError`) or while it runs (a
`RuntimeError`). An error is a cause and the token it is reported at; its diagnostic is read off
these two.
-/

namespace Lox

/-- Violations of the static rules. -/
inductive StaticCause
  | selfInitializer
  | duplicateDeclaration
  | topLevelReturn
  | thisOutsideClass
  | superOutsideClass
  | superWithoutSuperclass
  | invalidAssignmentTarget
  | selfInheritance
  deriving DecidableEq

namespace StaticCause

def code : StaticCause → String
  | selfInitializer => "E301"
  | duplicateDeclaration => "E302"
  | topLevelReturn => "E303"
  | thisOutsideClass => "E304"
  | superOutsideClass => "E305"
  | superWithoutSuperclass => "E306"
  | invalidAssignmentTarget => "E307"
  | selfInheritance => "E308"

def message : StaticCause → String
  | selfInitializer => "Can't read local variable in its own initializer."
  | duplicateDeclaration => "Already a variable with this name in this scope."
  | topLevelReturn => "Can't return from top-level code."
  | thisOutsideClass => "Can't use 'this' outside of a class."
  | superOutsideClass => "Can't use 'super' outside of a class."
  | superWithoutSuperclass => "Can't use 'super' in a class with no superclass."
  | invalidAssignmentTarget => "Invalid assignment target."
  | selfInheritance => "A class can't inherit from itself."

def hints : StaticCause → List String
  | invalidAssignmentTarget => ["only variables and instance properties can be assigned"]
  | _ => []

end StaticCause

/-- A violation of a static rule, at a token. -/
structure StaticError where
  cause : StaticCause
  token : Token
  deriving DecidableEq

def StaticError.diagnostic (e : StaticError) : Diagnostic :=
  .atToken e.cause.code e.cause.message e.token e.cause.hints

/-- Why a running program stops. The names are those of the tokens the errors are reported at. -/
inductive RuntimeCause
  | numberOperand
  | numberOperands
  | plusOperands
  | undefinedVariable
  | undefinedProperty
  | notCallable
  | arity (expected actual : Int)
  | superclassNotClass
  | propertyOnNonInstance
  | fieldOnNonInstance
  | stackOverflow (limit : Int)
  deriving DecidableEq

namespace RuntimeCause

def code : RuntimeCause → String
  | numberOperand => "E401"
  | numberOperands => "E401"
  | plusOperands => "E401"
  | undefinedVariable => "E402"
  | undefinedProperty => "E403"
  | notCallable => "E404"
  | arity .. => "E405"
  | superclassNotClass => "E406"
  | propertyOnNonInstance => "E407"
  | fieldOnNonInstance => "E407"
  | stackOverflow _ => "E408"

def message (name : String) : RuntimeCause → String
  | numberOperand => "Operand must be a number."
  | numberOperands => "Operands must be numbers."
  | plusOperands => "Operands must be two numbers or two strings."
  | undefinedVariable => "Undefined variable '" ++ name ++ "'."
  | undefinedProperty => "Undefined property '" ++ name ++ "'."
  | notCallable => "Can only call functions and classes."
  | arity expected actual =>
    "Expected " ++ toString expected ++ " arguments but got " ++ toString actual ++ "."
  | superclassNotClass => "Superclass must be a class."
  | propertyOnNonInstance => "Only instances have properties."
  | fieldOnNonInstance => "Only instances have fields."
  | stackOverflow _ => "Stack overflow."

def hints : RuntimeCause → List String
  | undefinedVariable => ["declare it with 'var' before use"]
  | stackOverflow limit =>
    ["call depth is limited to " ++ toString limit ++ "; see InterpreterConfig.max_call_depth"]
  | _ => []

end RuntimeCause

/-- An error of a running program, at a token. -/
structure RuntimeError where
  cause : RuntimeCause
  token : Token
  deriving DecidableEq

def RuntimeError.diagnostic (e : RuntimeError) : Diagnostic :=
  .atToken e.cause.code (e.cause.message e.token.lexeme) e.token e.cause.hints

end Lox
