import Lox.Proofs.Scoping.Addresses

/-!
# The resolver at a node

The state of the resolver when its walk comes to the node at an address (`Program.resolver?`), told
step by step from that at the parent.  Its stack of scopes is the nesting of the node
(`Program.resolver?_at`), so there are as many open scopes as there are regions around the node.
-/

namespace Lox

namespace Resolver

/-- The state in which the walk over an expression comes to the child of a given number. -/
def enterExpr (r : Resolver) : Expr → Nat → Resolver
  | .assign _ _ equals value, _ + 1 => (r.resolveExpr value).addError .invalidAssignmentTarget equals
  | .binary _ left _ _, _ + 1 => r.resolveExpr left
  | .logical _ left _ _, _ + 1 => r.resolveExpr left
  | .call _ callee _ arguments, i + 1 => (r.resolveExpr callee).resolveExprs (arguments.take i)
  | .set _ _ _ value, 0 => r.resolveExpr value
  | _, _ => r

/-- The state in which a class comes to its superclass. -/
def atSuperclass (r : Resolver) (name : Token) (superclass : VarRef) : Resolver :=
  let r := { r with classKind := .plain }.declareReady name
  let r := if superclass.name.lexeme = name.lexeme then
      r.addError .selfInheritance superclass.name
    else r
  { r with classKind := .subclass }

/-- The state in which a class comes to its methods. -/
def atMethods (r : Resolver) (name : Token) (superclass : Option VarRef) : Resolver :=
  (({ r with classKind := .plain }.declareReady name).enterSuperclass name superclass).openScope
    {("this", true)}

/-- The state in which the walk over a part comes to the child of a given number. -/
def enter (r : Resolver) : Part → Nat → Resolver
  | .program p, i => r.resolveStmts (p.take i)
  | .stmt (.block _ body), i => (r.openScope ∅).resolveStmts (body.take i)
  | .stmt (.varDecl _ name _), _ => r.declare name
  | .stmt (.branch _ condition _ _), 1 => r.resolveExpr condition
  | .stmt (.branch _ condition thenBranch _), _ + 2 =>
    (r.resolveExpr condition).resolveStmt thenBranch
  | .stmt (.loop _ condition _), _ + 1 => r.resolveExpr condition
  | .stmt (.function f), i =>
    ((r.declareReady f.name).enteredFunction .function f).resolveStmts (f.body.take i)
  | .stmt (.ret _ keyword _), _ =>
    if r.functionKind = .none then r.addError .topLevelReturn keyword else r
  | .stmt (.classDecl _ name none methods), i =>
    (r.atMethods name none).resolveMethods (methods.take i)
  | .stmt (.classDecl _ name (some ref) _), 0 => r.atSuperclass name ref
  | .stmt (.classDecl _ name (some ref) methods), i + 1 =>
    (r.atMethods name (some ref)).resolveMethods (methods.take i)
  | .method f, i => (r.enteredFunction (methodKind f) f).resolveStmts (f.body.take i)
  | .expr e, i => r.enterExpr e i
  | _, _ => r

end Resolver

/-- The state of the resolver at an address below a part. -/
def Part.resolver? (r : Resolver) : Part → Address → Option Resolver
  | _, [] => some r
  | t, i :: a => (t.children[i]?).bind fun c => c.resolver? (r.enter t i) a

/-- The state of the resolver when the walk over a program comes to the node at an address. -/
def Program.resolver? (p : Program) (a : Address) : Option Resolver :=
  (Part.program p).resolver? {} a

namespace Resolver

variable {r : Resolver} {Γ : Nesting}

/-! ### Errors and kinds leave the stack alone -/

theorem At.addError (h : r.At Γ) (cause : StaticCause) (token : Token) :
    (r.addError cause token).At Γ :=
  ⟨h.scopes, h.functionKind, h.classKind⟩

theorem At.expr (h : r.At Γ) (e : Expr) : (r.resolveExpr e).At Γ :=
  (resolveExpr_walk e h).at_same h

theorem At.stmt (h : r.At Γ) (s : Stmt) : (r.resolveStmt s).At (Γ.after s) :=
  (resolveStmt_walk s h).at_next h (Nesting.openers_after Γ s)

theorem At.stmts (h : r.At Γ) (ss : List Stmt) : (r.resolveStmts ss).At (Γ.afterAll ss) :=
  (resolveStmts_walk ss h).at_next h (Nesting.openers_afterAll Γ ss)

theorem At.methods (h : r.At Γ) (fs : List FunctionDecl) : (r.resolveMethods fs).At Γ :=
  (resolveMethods_walk fs h).at_same h

theorem At.enterExpr (h : r.At Γ) (e : Expr) (i : Nat) : (r.enterExpr e i).At Γ := by
  unfold Resolver.enterExpr
  split
  · exact (h.expr _).addError _ _
  · exact h.expr _
  · exact h.expr _
  · have hc := h.expr ‹_›
    exact (resolveExprs_walk _ hc).at_same hc
  · exact h.expr _
  · exact h

/-! ### Classes -/

/-- A class declares its name; only its kind of class is new. -/
theorem At.classDeclared (h : r.At Γ) (name : Token) :
    ScopesAre ({ r with classKind := .plain }.declareReady name).scopes (Γ.declareReady name.lexeme) ∧
      (({ r with classKind := .plain }.declareReady name).functionKind = .none ↔
        (Γ.declareReady name.lexeme).inFunction = false) ∧
      ({ r with classKind := .plain }.declareReady name).classKind = .plain := by
  obtain ⟨-, -, hf, hc, hs⟩ :=
    declareReady_walk (r := { r with classKind := .plain }) h.scopes name
  refine ⟨hs, ?_, hc⟩
  rw [hf, Nesting.inFunction_congr (Nesting.openers_declareReady Γ _)]
  exact h.functionKind

theorem scopesAre_atSuperclass (h : r.At Γ) (name : Token) (ref : VarRef) :
    ScopesAre (r.atSuperclass name ref).scopes (Γ.declareReady name.lexeme) ∧
      ((r.atSuperclass name ref).functionKind = .none ↔
        (Γ.declareReady name.lexeme).inFunction = false) := by
  obtain ⟨hs, hf, -⟩ := h.classDeclared name
  unfold atSuperclass
  split <;> exact ⟨hs, hf⟩

theorem At.atMethods (h : r.At Γ) (id : NodeId) (name : Token) (superclass : Option VarRef)
    (methods : List FunctionDecl) :
    (r.atMethods name superclass).At (Γ.inMethods id name superclass methods) := by
  cases superclass with
  | none =>
    obtain ⟨hs, hf, hc⟩ := h.classDeclared name
    exact At.inThis hs hf id methods false hc
  | some ref =>
    obtain ⟨hs, hf⟩ := scopesAre_atSuperclass h name ref
    have hv := resolveVar_walk hs ref
    rw [← hv.functionKind] at hf
    have hsuper := ScopesAre.cons (ScopesAre.singleton_ready? (.super id) "super") hv.scopes
    exact At.inThis (r := Resolver.openScope _ _) hsuper hf id methods true hv.classKind

/-! ### Coming to a child -/

theorem At.call (h : r.At Γ) {kind : FunctionKind} (hkind : kind ≠ .none) (f : FunctionDecl)
    (ss : List Stmt) :
    ((r.enteredFunction kind f).resolveStmts ss).At (Nesting.afterAll (Frame.ofCall f :: Γ) ss) :=
  (h.inCall hkind f).stmts ss

/-- The resolver comes to the child of a node at the nesting of the child.  At a superclass the kind
of the class is already the new one; it is a variable, and nothing is inside of it. -/
theorem At.enter (h : r.At Γ) {t c : Part} {i : Nat} (hc : t.children[i]? = some c) :
    (r.enter t i).At (Γ.enter t i) ∨
      c.children = [] ∧ ScopesAre (r.enter t i).scopes (Γ.enter t i) := by
  cases t with
  | program p => exact .inl (h.stmts _)
  | expr e => exact .inl (h.enterExpr e i)
  | method f => exact .inl (h.call (methodKind_ne_none f) f _)
  | stmt s =>
    cases s with
    | block id body => exact .inl ((h.inBlock id).stmts _)
    | expression id e => exact .inl h
    | print id e => exact .inl h
    | varDecl id name initializer => exact .inl (h.declared name)
    | branch id condition thenBranch elseBranch =>
      left
      rcases i with _ | _ | i
      · exact h
      · exact h.expr condition
      · rw [Nesting.enter, if_neg (by omega)]
        exact (h.expr condition).stmt thenBranch
    | loop id condition body =>
      left
      cases i with
      | zero => exact h
      | succ i => exact h.expr condition
    | function f => exact .inl ((h.declaredReady f.name).call (by simp) f _)
    | ret id keyword value =>
      left
      show (if r.functionKind = .none then r.addError .topLevelReturn keyword else r).At Γ
      split
      · exact h.addError _ _
      · exact h
    | classDecl id name superclass methods =>
      cases superclass with
      | none => exact .inl ((h.atMethods id name none methods).methods _)
      | some ref =>
        cases i with
        | zero =>
          cases hc
          exact .inr ⟨rfl, (scopesAre_atSuperclass h name ref).1⟩
        | succ i => exact .inl ((h.atMethods id name (some ref) methods).methods _)

end Resolver

theorem Part.resolver?_at {r : Resolver} {Γ : Nesting} {t : Part} {a : Address} {P : Place}
    (h : r.At Γ) (hp : t.place? Γ a = some P) :
    ∃ r', t.resolver? r a = some r' ∧ Resolver.ScopesAre r'.scopes P.nesting := by
  induction a generalizing r Γ t with
  | nil =>
    cases hp
    exact ⟨r, rfl, h.scopes⟩
  | cons i a ih =>
    obtain ⟨c, hc, hp⟩ := Option.bind_eq_some_iff.1 hp
    rw [resolver?, hc]
    rcases h.enter hc with h | ⟨hleaf, hs⟩
    · exact ih h hp
    · cases a with
      | nil =>
        cases hp
        exact ⟨_, rfl, hs⟩
      | cons j a => simp [Part.place?, hleaf] at hp

/-- The walk comes to every node, with the nesting of the node as its stack of scopes. -/
theorem Program.resolver?_at {p : Program} {a : Address} {P : Place} (hp : p.place? a = some P) :
    ∃ r, p.resolver? a = some r ∧ Resolver.ScopesAre r.scopes P.nesting :=
  Part.resolver?_at Resolver.start_at hp

end Lox
