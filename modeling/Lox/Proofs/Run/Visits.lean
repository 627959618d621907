import Lox.Eval
import Lox.Proofs.Part
import Lox.Proofs.Scoping.Region

/-!
# What a run comes to

Which nodes a run evaluates or executes, each with the state in which it does so, and which scopes
it opens.  `Calls` has one rule for each place where the evaluator calls itself, in the order in
which it does; the part after the arrow is run with one unit of fuel less.  `Visits` follows such
calls to any depth, and `Opens` names the scopes that are made while a node is visited.
-/

namespace Lox

/-- What a scope is made for: a block, a call of a function or method, a method that is bound to an
instance, or the methods of a class that has a superclass. -/
inductive Opening
  | block (id : NodeId)
  | call (id : NodeId)
  | bind (id : NodeId)
  | super (id : NodeId)

/-- A scope that is made so is an activation of the static scope. -/
def Opener.OpenedBy : Opener → Opening → Prop
  | .block id, .block id' => id = id'
  | .function id, .call id' => id = id'
  | .this _ methods _, .bind id => id ∈ methods
  | .super id, .super id' => id = id'
  | _, _ => False

/-- What a program or a test of a class does to make an instance with an initializer: the function
that is run, and the state after it was bound to the instance. -/
inductive Constructs (c : ClassId) (s : RunState) : FunctionObject → FunctionObject → RunState → Prop
  | mk {i : InstanceId} {s₁ s₂ : RunState} {f g : FunctionObject}
      (hi : Run.alloc (·.newInstance c) s = .ok i s₁) (hf : s₁.store.initializer? c = some f)
      (hg : Run.alloc (·.bind f (.inst i)) s₁ = .ok g s₂) : Constructs c s f g s₂

/-- Invoking a callable object leads to the body of a function, in the scope of the call. -/
inductive Starts (vs : List Value) : Callable → RunState → FunctionObject → RunState → Prop
  | function {f : FunctionObject} {s s' : RunState} {scope : ScopeId}
      (h : Run.enterFunction f vs s = .ok scope s') :
      Starts vs (.function f) s f { s' with scope := scope }
  | construct {c : ClassId} {s s₁ s₂ : RunState} {f g : FunctionObject} {scope : ScopeId}
      (hc : Constructs c s f g s₁) (h : Run.enterFunction g vs s₁ = .ok scope s₂) :
      Starts vs (.cls c) s g { s₂ with scope := scope }

variable (ctx : Context) (n : Nat)

/-- A call that is not refused: the callee and its arguments, and the state one call deeper. -/
inductive Applies (callee : Expr) (arguments : List Expr) (s : RunState) :
    Callable → List Value → RunState → Prop
  | mk {f : Value} {vs : List Value} {c : Callable} {s₁ s₂ : RunState}
      (hf : evaluate ctx n callee s = .ok f s₁)
      (hvs : Action.collect (evaluate ctx n) arguments s₁ = .ok vs s₂)
      (hc : s₂.store.callable? f = some c) (harity : vs.length = s₂.store.arity c)
      (hdepth : s₂.depth < ctx.maxDepth) :
      Applies callee arguments s c vs { s₂ with depth := s₂.depth + 1 }

/-- While a part is run in a state, another is run in another state. -/
inductive Calls : Part → RunState → Part → RunState → Prop
  | assigned {id target equals value s} :
      Calls (.expr (.assign id target equals value)) s (.expr value) s
  | binaryLeft {id left operator right s} :
      Calls (.expr (.binary id left operator right)) s (.expr left) s
  | binaryRight {id left operator right s l s'} (h : evaluate ctx n left s = .ok l s') :
      Calls (.expr (.binary id left operator right)) s (.expr right) s'
  | logicalLeft {id left operator right s} :
      Calls (.expr (.logical id left operator right)) s (.expr left) s
  | logicalRight {id left operator right s l s'} (h : evaluate ctx n left s = .ok l s')
      (hd : operator.decidesLogical l = false) :
      Calls (.expr (.logical id left operator right)) s (.expr right) s'
  | operand {id operator operand s} :
      Calls (.expr (.unary id operator operand)) s (.expr operand) s
  | inner {id inner s} : Calls (.expr (.grouping id inner)) s (.expr inner) s
  | callee {id callee paren arguments s} :
      Calls (.expr (.call id callee paren arguments)) s (.expr callee) s
  | argument {id callee paren arguments s f s₁ vs s₂} {i : Nat} {e : Expr}
      (hf : evaluate ctx n callee s = .ok f s₁)
      (hvs : Action.collect (evaluate ctx n) (arguments.take i) s₁ = .ok vs s₂)
      (hi : arguments[i]? = some e) :
      Calls (.expr (.call id callee paren arguments)) s (.expr e) s₂
  | body {id callee paren arguments s c vs s₁ f s₂ s₃} {i : Nat} {st : Stmt}
      (ha : Applies ctx n callee arguments s c vs s₁) (hs : Starts vs c s₁ f s₂)
      (hb : Action.untilReturn (execute ctx n) (f.declaration.body.take i) s₂ = .ok .normal s₃)
      (hi : f.declaration.body[i]? = some st) :
      Calls (.expr (.call id callee paren arguments)) s (.stmt st) s₃
  | getObject {id object name s} : Calls (.expr (.get id object name)) s (.expr object) s
  | setObject {id object name value s} : Calls (.expr (.set id object name value)) s (.expr object) s
  | setValue {id object name value s i s'} (h : evaluate ctx n object s = .ok (.inst i) s') :
      Calls (.expr (.set id object name value)) s (.expr value) s'
  | block {id body s scope s₁ s₂} {i : Nat} {st : Stmt}
      (hscope : Run.alloc (·.newScope { enclosing := some s.scope }) s = .ok scope s₁)
      (hb : Action.untilReturn (execute ctx n) (body.take i) { s₁ with scope := scope } =
        .ok .normal s₂)
      (hi : body[i]? = some st) : Calls (.stmt (.block id body)) s (.stmt st) s₂
  | expression {id e s} : Calls (.stmt (.expression id e)) s (.expr e) s
  | print {id e s} : Calls (.stmt (.print id e)) s (.expr e) s
  | initializer {id name e s} : Calls (.stmt (.varDecl id name (some e))) s (.expr e) s
  | branchCondition {id condition thenBranch elseBranch s} :
      Calls (.stmt (.branch id condition thenBranch elseBranch)) s (.expr condition) s
  | thenBranch {id condition thenBranch elseBranch s v s'}
      (h : evaluate ctx n condition s = .ok v s') (hv : v.truthy = true) :
      Calls (.stmt (.branch id condition thenBranch elseBranch)) s (.stmt thenBranch) s'
  | elseBranch {id condition thenBranch elseBranch s v s'}
      (h : evaluate ctx n condition s = .ok v s') (hv : v.truthy = false) :
      Calls (.stmt (.branch id condition thenBranch (some elseBranch))) s (.stmt elseBranch) s'
  | loopCondition {id condition body s} :
      Calls (.stmt (.loop id condition body)) s (.expr condition) s
  | loopBody {id condition body s v s'} (h : evaluate ctx n condition s = .ok v s')
      (hv : v.truthy = true) : Calls (.stmt (.loop id condition body)) s (.stmt body) s'
  | loopAgain {id condition body s v s₁ s₂} (h : evaluate ctx n condition s = .ok v s₁)
      (hv : v.truthy = true) (hb : execute ctx n body s₁ = .ok .normal s₂) :
      Calls (.stmt (.loop id condition body)) s (.stmt (.loop id condition body)) s₂
  | returned {id keyword e s} : Calls (.stmt (.ret id keyword (some e))) s (.expr e) s
  | superclass {id name ref methods s} :
      Calls (.stmt (.classDecl id name (some ref) methods)) s (.expr (.var ref)) s

/-- A scope that is made while a part is run in a state. -/
inductive Opens : Part → RunState → ScopeId → Opening → Prop
  | block {id body s scope s'}
      (h : Run.alloc (·.newScope { enclosing := some s.scope }) s = .ok scope s') :
      Opens (.stmt (.block id body)) s scope (.block id)
  | call {id callee paren arguments s c vs s₁ f s₂}
      (ha : Applies ctx n callee arguments s c vs s₁) (hs : Starts vs c s₁ f s₂) :
      Opens (.expr (.call id callee paren arguments)) s s₂.scope (.call f.declaration.id)
  | construct {id callee paren arguments s c vs s₁ f g s₂}
      (ha : Applies ctx n callee arguments s (.cls c) vs s₁) (hc : Constructs c s₁ f g s₂) :
      Opens (.expr (.call id callee paren arguments)) s g.closure (.bind f.declaration.id)
  | get {id object name s i s₁ f v s₂} (h : evaluate ctx n object s = .ok (.inst i) s₁)
      (hm : s₁.store.member? i name.lexeme = some (.method f))
      (hv : Run.alloc (·.bindValue f (.inst i)) s₁ = .ok v s₂) :
      Opens (.expr (.get id object name)) s (s₁.store.bind f (.inst i)).1.closure
        (.bind f.declaration.id)
  | super {id keyword method s d c this f} (hd : ctx.table[id]? = some d)
      (hc : s.store.getAt s.scope d "super" = .ok (.cls c))
      (ht : s.store.getAt s.scope ((d : Int) - 1) "this" = .ok this)
      (hf : s.store.method? c method.lexeme = some f) :
      Opens (.expr (.super id keyword method)) s (s.store.bind f this).1.closure
        (.bind f.declaration.id)
  | subclass {id name ref methods s c s₁ s₂ scope s₃}
      (h : evaluate ctx n (.var ref) s = .ok (.cls c) s₁)
      (hd : Run.define name.lexeme .nil s₁ = .ok () s₂)
      (hs : Run.alloc (·.newScope { enclosing := some s₂.scope, values := {("super", .cls c)} }) s₂ =
        .ok scope s₃) :
      Opens (.stmt (.classDecl id name (some ref) methods)) s scope (.super id)

/-- While a part is run in a state, another is run in another, perhaps further down, with the fuel
that is left. -/
inductive Visits : Nat → Part → RunState → Nat → Part → RunState → Prop
  | here {n t s} : Visits n t s n t s
  | step {n t s u s' m v s''} (h : Calls ctx n t s u s') (hv : Visits n u s' m v s'') :
      Visits (n + 1) t s m v s''

namespace Visits

variable {ctx n} {m k : Nat} {t u v : Part} {s s' s'' : RunState}

theorem trans (h : Visits ctx n t s m u s') (h' : Visits ctx m u s' k v s'') :
    Visits ctx n t s k v s'' := by
  induction h with
  | here => exact h'
  | step hc _ ih => exact .step hc (ih h')

end Visits

end Lox
