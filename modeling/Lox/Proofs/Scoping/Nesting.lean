import Lox.Resolver
import Lox.Proofs.Scoping.Region

/-!
# Nestings

A *nesting* is the list of local scopes around a place, innermost first, each with the names it has
there and whether they are ready.  It is computed down the tree: `Nesting.enter` tells how the
nesting of a part leads to that of its children, and `Nesting.after` what a statement adds to the
scope it stands in.

`Part.entry?` and `Part.violations` say what a single node contributes at its nesting: the distance
to record for it, and the static rules it breaks.  `Stmt.places` lists the nodes of a statement with
their nestings, in the order in which a walk acts on them.
-/

namespace Lox

/-- A local scope as seen from a place inside of it; the mark made last on a name counts. -/
structure Frame where
  opener : Opener
  marks : List (String × Bool) := []

namespace Frame

/-- Whether a name is ready; `none` if the scope does not have it. -/
def ready? (f : Frame) (x : String) : Option Bool := f.marks.lookup x

def has (f : Frame) (x : String) : Bool := (f.ready? x).isSome

def mark (f : Frame) (x : String) (ready : Bool) : Frame :=
  { f with marks := (x, ready) :: f.marks }

def markReady (f : Frame) (x : String) : Frame := (f.mark x false).mark x true

@[simp] theorem ready?_empty (o : Opener) (x : String) : ready? { opener := o } x = none := rfl

theorem ready?_mark (f : Frame) (x y : String) (b : Bool) :
    (f.mark x b).ready? y = if y = x then some b else f.ready? y := by
  unfold ready? mark
  rw [List.lookup_cons]
  by_cases h : y = x
  · simp [h]
  · rw [if_neg h, beq_eq_false_iff_ne.2 h]

theorem has_mark (f : Frame) (x y : String) (b : Bool) :
    (f.mark x b).has y = (decide (y = x) || f.has y) := by
  unfold has
  rw [ready?_mark]
  by_cases h : y = x <;> simp [h]

theorem has_markReady (f : Frame) (x y : String) :
    (f.markReady x).has y = (decide (y = x) || f.has y) := by
  simp [markReady, has_mark]

/-- The scope of a call, before the statements of the body. -/
def ofCall (f : FunctionDecl) : Frame :=
  f.params.foldl (fun frame p => frame.markReady p.lexeme) { opener := .function f.id }

@[simp] theorem opener_ofCall (f : FunctionDecl) : (ofCall f).opener = .function f.id := by
  have key : ∀ (params : List Token) (frame : Frame),
      (params.foldl (fun frame p => frame.markReady p.lexeme) frame).opener = frame.opener := by
    intro params
    induction params with
    | nil => intro _; rfl
    | cons p ps ih => intro frame; exact ih _
  exact key f.params _

def ofThis (id : NodeId) (methods : List FunctionDecl) (subclass : Bool) : Frame :=
  { opener := .this id (methods.map (·.id)) subclass, marks := [("this", true)] }

def ofSuper (id : NodeId) : Frame := { opener := .super id, marks := [("super", true)] }

end Frame

/-- The local scopes around a place, innermost first. -/
abbrev Nesting := List Frame

namespace Nesting

/-- Marks a name in the innermost scope; outside of all scopes there is nothing to mark. -/
def mark (Γ : Nesting) (x : String) (ready : Bool) : Nesting :=
  match Γ with
  | [] => []
  | f :: outer => f.mark x ready :: outer

def declareReady (Γ : Nesting) (x : String) : Nesting := (Γ.mark x false).mark x true

/-- Whether the innermost scope has a name. -/
def hasHere (Γ : Nesting) (x : String) : Bool :=
  match Γ with
  | [] => false
  | f :: _ => f.has x

/-- Whether the innermost scope has a name that is not ready. -/
def isPending (Γ : Nesting) (x : String) : Bool :=
  match Γ with
  | [] => false
  | f :: _ => f.ready? x == some false

/-- How many scopes out the innermost scope with a name lies. -/
def distance? (Γ : Nesting) (x : String) : Option Nat := Γ.findIdx? (·.has x)

/-- What kind of class encloses a place most closely. -/
def classKind : Nesting → ClassKind
  | [] => .none
  | f :: outer =>
    match f.opener with
    | .this _ _ true => .subclass
    | .this _ _ false => .plain
    | _ => classKind outer

/-- Whether a place lies inside of a function or method. -/
def inFunction (Γ : Nesting) : Bool :=
  Γ.any fun f => match f.opener with
    | .function _ => true
    | _ => false

/-- The nesting after a statement: the scope it stands in has the names it declares. -/
def after (Γ : Nesting) : Stmt → Nesting
  | .varDecl _ name _ => Γ.declareReady name.lexeme
  | .branch _ _ thenBranch elseBranch =>
    match elseBranch with
    | none => after Γ thenBranch
    | some elseBranch => after (after Γ thenBranch) elseBranch
  | .loop _ _ body => after Γ body
  | .function f => Γ.declareReady f.name.lexeme
  | .classDecl _ name _ _ => Γ.declareReady name.lexeme
  | _ => Γ

def afterAll (Γ : Nesting) (ss : List Stmt) : Nesting := ss.foldl after Γ

/-- The nesting of the methods of a class. -/
def inMethods (Γ : Nesting) (id : NodeId) (name : Token) (superclass : Option VarRef)
    (methods : List FunctionDecl) : Nesting :=
  match superclass with
  | none => Frame.ofThis id methods false :: Γ.declareReady name.lexeme
  | some _ => Frame.ofThis id methods true :: Frame.ofSuper id :: Γ.declareReady name.lexeme

/-- The nesting of the child of a given number, from that of its parent. -/
def enter (Γ : Nesting) : Part → Nat → Nesting
  | .program p, i => Γ.afterAll (p.take i)
  | .stmt (.block id body), i => afterAll ({ opener := .block id } :: Γ) (body.take i)
  | .stmt (.varDecl _ name _), _ => Γ.mark name.lexeme false
  | .stmt (.branch _ _ thenBranch _), i => if i ≤ 1 then Γ else Γ.after thenBranch
  | .stmt (.function f), i =>
    afterAll (Frame.ofCall f :: Γ.declareReady f.name.lexeme) (f.body.take i)
  | .stmt (.classDecl id name none methods), _ => Γ.inMethods id name none methods
  | .stmt (.classDecl _ name (some _) _), 0 => Γ.declareReady name.lexeme
  | .stmt (.classDecl id name (some ref) methods), _ + 1 => Γ.inMethods id name (some ref) methods
  | .method f, i => afterAll (Frame.ofCall f :: Γ) (f.body.take i)
  | _, _ => Γ

/-! ### Marks change neither the outer scopes nor what opened the scopes -/

@[simp] theorem openers_mark (Γ : Nesting) (x : String) (b : Bool) :
    (Γ.mark x b).map (·.opener) = Γ.map (·.opener) := by
  cases Γ <;> rfl

@[simp] theorem tail_mark (Γ : Nesting) (x : String) (b : Bool) : (Γ.mark x b).tail = Γ.tail := by
  cases Γ <;> rfl

@[simp] theorem openers_declareReady (Γ : Nesting) (x : String) :
    (Γ.declareReady x).map (·.opener) = Γ.map (·.opener) := by
  simp [declareReady]

@[simp] theorem tail_declareReady (Γ : Nesting) (x : String) :
    (Γ.declareReady x).tail = Γ.tail := by
  simp [declareReady]

@[simp] theorem openers_after : ∀ (Γ : Nesting) (s : Stmt),
    (Γ.after s).map (·.opener) = Γ.map (·.opener)
  | Γ, .varDecl .. => openers_declareReady Γ _
  | Γ, .branch _ _ t none => openers_after Γ t
  | Γ, .branch _ _ t (some e) => (openers_after (Γ.after t) e).trans (openers_after Γ t)
  | Γ, .loop _ _ body => openers_after Γ body
  | Γ, .function _ => openers_declareReady Γ _
  | Γ, .classDecl .. => openers_declareReady Γ _
  | _, .block .. => rfl
  | _, .expression .. => rfl
  | _, .print .. => rfl
  | _, .ret .. => rfl

@[simp] theorem tail_after : ∀ (Γ : Nesting) (s : Stmt), (Γ.after s).tail = Γ.tail
  | Γ, .varDecl .. => tail_declareReady Γ _
  | Γ, .branch _ _ t none => tail_after Γ t
  | Γ, .branch _ _ t (some e) => (tail_after (Γ.after t) e).trans (tail_after Γ t)
  | Γ, .loop _ _ body => tail_after Γ body
  | Γ, .function _ => tail_declareReady Γ _
  | Γ, .classDecl .. => tail_declareReady Γ _
  | _, .block .. => rfl
  | _, .expression .. => rfl
  | _, .print .. => rfl
  | _, .ret .. => rfl

@[simp] theorem afterAll_nil (Γ : Nesting) : Γ.afterAll [] = Γ := rfl

@[simp] theorem afterAll_cons (Γ : Nesting) (s : Stmt) (ss : List Stmt) :
    Γ.afterAll (s :: ss) = (Γ.after s).afterAll ss := rfl

@[simp] theorem openers_afterAll (Γ : Nesting) (ss : List Stmt) :
    (Γ.afterAll ss).map (·.opener) = Γ.map (·.opener) := by
  induction ss generalizing Γ with
  | nil => rfl
  | cons s ss ih => rw [afterAll_cons, ih, openers_after]

@[simp] theorem tail_afterAll (Γ : Nesting) (ss : List Stmt) :
    (Γ.afterAll ss).tail = Γ.tail := by
  induction ss generalizing Γ with
  | nil => rfl
  | cons s ss ih => rw [afterAll_cons, ih, tail_after]

@[simp] theorem afterAll_of_nil (ss : List Stmt) : afterAll [] ss = [] := by
  have h := openers_afterAll [] ss
  exact List.map_eq_nil_iff.1 h

theorem afterAll_cons_ne_nil (f : Frame) (Γ : Nesting) (ss : List Stmt) :
    afterAll (f :: Γ) ss ≠ [] := by
  intro h
  have ho := openers_afterAll (f :: Γ) ss
  rw [h] at ho
  cases ho

theorem classKind_congr {Γ Δ : Nesting} (h : Γ.map (·.opener) = Δ.map (·.opener)) :
    Γ.classKind = Δ.classKind := by
  induction Γ generalizing Δ with
  | nil =>
    cases Δ with
    | nil => rfl
    | cons g Δ => simp at h
  | cons f Γ ih =>
    cases Δ with
    | nil => simp at h
    | cons g Δ =>
      rw [List.map_cons, List.map_cons, List.cons.injEq] at h
      rw [classKind, classKind, h.1, ih h.2]

/-- A class is near if one of the frames belongs to the methods of a class. -/
theorem classKind_eq_none_iff (Γ : Nesting) :
    Γ.classKind = .none ↔ ∀ f ∈ Γ, ¬ f.opener.isThis := by
  induction Γ with
  | nil => simp [classKind]
  | cons f Γ ih =>
    rw [classKind, List.forall_mem_cons]
    split
    · rename_i h
      simp [h, Opener.isThis]
    · rename_i h
      simp [h, Opener.isThis]
    · rename_i h₁ h₂
      rw [ih, and_iff_right]
      intro h
      cases ho : f.opener with
      | this id methods b => cases b <;> simp_all
      | _ => simp [ho, Opener.isThis] at h

theorem inFunction_congr {Γ Δ : Nesting} (h : Γ.map (·.opener) = Δ.map (·.opener)) :
    Γ.inFunction = Δ.inFunction := by
  have key : ∀ Θ : Nesting, Θ.inFunction = (Θ.map (·.opener)).any fun o => match o with
      | .function _ => true
      | _ => false := fun Θ => by
    simp only [inFunction, List.any_map]
    rfl
  rw [key, key, h]

theorem inFunction_ofCall (Γ : Nesting) (f : FunctionDecl) :
    inFunction (Frame.ofCall f :: Γ) = true := by
  simp [inFunction]

theorem classKind_ofCall (Γ : Nesting) (f : FunctionDecl) :
    classKind (Frame.ofCall f :: Γ) = Γ.classKind := by
  rw [classKind, Frame.opener_ofCall]

end Nesting

/-- A part with the nesting it stands in. -/
structure Place where
  nesting : Nesting
  part : Part

/-- The place at an address below a part. -/
def Part.place? (Γ : Nesting) : Part → Address → Option Place
  | t, [] => some ⟨Γ, t⟩
  | t, i :: a => (t.children[i]?).bind fun c => c.place? (Γ.enter t i) a

/-- The place at an address of a program. -/
def Program.place? (p : Program) (a : Address) : Option Place := (Part.program p).place? [] a

/-! ### What a node contributes -/

/-- The distance that is recorded for a node. -/
def Part.entry? (Γ : Nesting) : Part → Option Nat
  | .expr (.this _ keyword) =>
    match Γ.classKind with
    | .none => none
    | _ => Γ.distance? keyword.lexeme
  | t => t.looksUp?.bind Γ.distance?

/-- The error of a name that the innermost scope has already. -/
def Nesting.redeclared (Γ : Nesting) (name : Token) : List StaticError :=
  if Γ.hasHere name.lexeme then [⟨.duplicateDeclaration, name⟩] else []

/-- The errors of parameters that come after equal ones. -/
def Frame.redeclaredParams (f : Frame) : List Token → List StaticError
  | [] => []
  | p :: ps =>
    (if f.has p.lexeme then [⟨.duplicateDeclaration, p⟩] else [])
      ++ (f.markReady p.lexeme).redeclaredParams ps

def FunctionDecl.redeclaredParams (f : FunctionDecl) : List StaticError :=
  Frame.redeclaredParams { opener := .function f.id } f.params

/-- The static rules a node itself breaks. -/
def Part.violations (Γ : Nesting) : Part → List StaticError
  | .expr (.var ref) =>
    if Γ.isPending ref.name.lexeme then [⟨.selfInitializer, ref.name⟩] else []
  | .expr (.assign _ target equals _) =>
    match target.asVariable? with
    | some _ => []
    | none => [⟨.invalidAssignmentTarget, equals⟩]
  | .expr (.this _ keyword) =>
    match Γ.classKind with
    | .none => [⟨.thisOutsideClass, keyword⟩]
    | _ => []
  | .expr (.super _ keyword _) =>
    match Γ.classKind with
    | .none => [⟨.superOutsideClass, keyword⟩]
    | .plain => [⟨.superWithoutSuperclass, keyword⟩]
    | .subclass => []
  | .stmt (.varDecl _ name _) => Γ.redeclared name
  | .stmt (.function f) => Γ.redeclared f.name ++ f.redeclaredParams
  | .stmt (.ret _ keyword _) => if Γ.inFunction then [] else [⟨.topLevelReturn, keyword⟩]
  | .stmt (.classDecl _ name superclass _) =>
    Γ.redeclared name ++
      match superclass with
      | none => []
      | some ref =>
        if ref.name.lexeme = name.lexeme then [⟨.selfInheritance, ref.name⟩] else []
  | .method f => f.redeclaredParams
  | _ => []

/-! ### The nodes of a program with their nestings -/

mutual

/-- The nodes of an expression.  An assignment acts when its value has been walked over, and before
a target that is no variable is. -/
def Expr.places (Γ : Nesting) : Expr → List Place
  | .literal id value => [⟨Γ, .expr (.literal id value)⟩]
  | .var ref => [⟨Γ, .expr (.var ref)⟩]
  | .assign id target equals value =>
    Expr.places Γ value ++ ⟨Γ, .expr (.assign id target equals value)⟩ ::
      match target.asVariable? with
      | some _ => []
      | none => Expr.places Γ target
  | .binary id left operator right =>
    ⟨Γ, .expr (.binary id left operator right)⟩ :: (Expr.places Γ left ++ Expr.places Γ right)
  | .logical id left operator right =>
    ⟨Γ, .expr (.logical id left operator right)⟩ :: (Expr.places Γ left ++ Expr.places Γ right)
  | .unary id operator operand => ⟨Γ, .expr (.unary id operator operand)⟩ :: Expr.places Γ operand
  | .grouping id inner => ⟨Γ, .expr (.grouping id inner)⟩ :: Expr.places Γ inner
  | .call id callee paren arguments =>
    ⟨Γ, .expr (.call id callee paren arguments)⟩ ::
      (Expr.places Γ callee ++ placesOfExprs Γ arguments)
  | .get id object name => ⟨Γ, .expr (.get id object name)⟩ :: Expr.places Γ object
  | .set id object name value =>
    ⟨Γ, .expr (.set id object name value)⟩ :: (Expr.places Γ value ++ Expr.places Γ object)
  | .this id keyword => [⟨Γ, .expr (.this id keyword)⟩]
  | .super id keyword method => [⟨Γ, .expr (.super id keyword method)⟩]

def placesOfExprs (Γ : Nesting) : List Expr → List Place
  | [] => []
  | e :: es => e.places Γ ++ placesOfExprs Γ es

end

theorem Expr.places_assign_of_none {target : Expr} (h : target.asVariable? = none) (Γ : Nesting)
    (id : NodeId) (equals : Token) (value : Expr) :
    Expr.places Γ (.assign id target equals value) =
      value.places Γ ++ ⟨Γ, .expr (.assign id target equals value)⟩ :: target.places Γ := by
  rw [Expr.places, h]

/-- The nodes of an expression that may be absent. -/
def Expr.places? (Γ : Nesting) (e : Option Expr) : List Place :=
  e.toList.flatMap (·.places Γ)

theorem Expr.places?_some (Γ : Nesting) (e : Expr) : Expr.places? Γ (some e) = e.places Γ := by
  simp [Expr.places?]

mutual

def Stmt.places (Γ : Nesting) : Stmt → List Place
  | .block id body =>
    ⟨Γ, .stmt (.block id body)⟩ :: placesOfBody ({ opener := .block id } :: Γ) body
  | .expression id e => ⟨Γ, .stmt (.expression id e)⟩ :: e.places Γ
  | .print id e => ⟨Γ, .stmt (.print id e)⟩ :: e.places Γ
  | .varDecl id name initializer =>
    ⟨Γ, .stmt (.varDecl id name initializer)⟩ :: Expr.places? (Γ.mark name.lexeme false) initializer
  | .branch id condition thenBranch elseBranch =>
    ⟨Γ, .stmt (.branch id condition thenBranch elseBranch)⟩ ::
      (condition.places Γ ++ Stmt.places Γ thenBranch ++
        match elseBranch with
        | none => []
        | some elseBranch => Stmt.places (Γ.after thenBranch) elseBranch)
  | .loop id condition body =>
    ⟨Γ, .stmt (.loop id condition body)⟩ :: (condition.places Γ ++ Stmt.places Γ body)
  | .function f =>
    ⟨Γ, .stmt (.function f)⟩ :: placesInFunction (Γ.declareReady f.name.lexeme) f
  | .ret id keyword value => ⟨Γ, .stmt (.ret id keyword value)⟩ :: Expr.places? Γ value
  | .classDecl id name superclass methods =>
    ⟨Γ, .stmt (.classDecl id name superclass methods)⟩ ::
      (Expr.places? (Γ.declareReady name.lexeme) (superclass.map .var) ++
        placesOfMethods (Γ.inMethods id name superclass methods) methods)

/-- The nodes inside of a function or method. -/
def placesInFunction (Γ : Nesting) : FunctionDecl → List Place
  | ⟨id, name, params, body⟩ => placesOfBody (Frame.ofCall ⟨id, name, params, body⟩ :: Γ) body

def placesOfBody (Γ : Nesting) : List Stmt → List Place
  | [] => []
  | s :: ss => s.places Γ ++ placesOfBody (Γ.after s) ss

def placesOfMethods (Γ : Nesting) : List FunctionDecl → List Place
  | [] => []
  | f :: fs => ⟨Γ, .method f⟩ :: (placesInFunction Γ f ++ placesOfMethods Γ fs)

end

theorem placesInFunction_eq (Γ : Nesting) (f : FunctionDecl) :
    placesInFunction Γ f = placesOfBody (Frame.ofCall f :: Γ) f.body := by
  cases f
  rfl

/-- The nodes of a program. -/
def Program.places (p : Program) : List Place := placesOfBody [] p

end Lox
