import Lox.Proofs.Run.Invariants

/-!
# Renamed programs

A renaming gives every name a new one, different names different ones, and leaves three names alone:
`this`, `super` and `init` (`Renaming`).  Applied to a program it changes the names of variables,
declarations, parameters, properties and methods.  Keywords, operators, brackets and the identities of the
nodes stay what they are, and so do all lines.
-/

namespace Lox

structure Renaming where
  map : String → String
  injective : ∀ {x y}, map x = map y → x = y
  this : map "this" = "this"
  super : map "super" = "super"
  init : map FunctionDecl.initializerName = FunctionDecl.initializerName

instance : CoeFun Renaming fun _ => String → String := ⟨Renaming.map⟩

namespace Renaming

variable (ρ : Renaming)

theorem eq_iff {x y : String} : ρ x = ρ y ↔ x = y := ⟨ρ.injective, congrArg ρ⟩

/-- Nothing else is named `init`. -/
theorem eq_init_iff {x : String} :
    ρ x = FunctionDecl.initializerName ↔ x = FunctionDecl.initializerName := by
  rw [← ρ.eq_iff (x := x), ρ.init]

end Renaming

/-! ### Trees -/

def Token.rename (ρ : Renaming) (t : Token) : Token := { t with lexeme := ρ t.lexeme }

def VarRef.rename (ρ : Renaming) (ref : VarRef) : VarRef := ⟨ref.id, ref.name.rename ρ⟩

mutual

def Expr.rename (ρ : Renaming) : Expr → Expr
  | .literal id value => .literal id value
  | .var ref => .var (ref.rename ρ)
  | .assign id target equals value => .assign id (target.rename ρ) equals (value.rename ρ)
  | .binary id left operator right => .binary id (left.rename ρ) operator (right.rename ρ)
  | .logical id left operator right => .logical id (left.rename ρ) operator (right.rename ρ)
  | .unary id operator operand => .unary id operator (operand.rename ρ)
  | .grouping id inner => .grouping id (inner.rename ρ)
  | .call id callee paren arguments =>
    .call id (callee.rename ρ) paren (Expr.renameAll ρ arguments)
  | .get id object name => .get id (object.rename ρ) (name.rename ρ)
  | .set id object name value => .set id (object.rename ρ) (name.rename ρ) (value.rename ρ)
  | .this id keyword => .this id keyword
  | .super id keyword method => .super id keyword (method.rename ρ)

def Expr.renameAll (ρ : Renaming) : List Expr → List Expr
  | [] => []
  | e :: es => e.rename ρ :: Expr.renameAll ρ es

end

mutual

def Stmt.rename (ρ : Renaming) : Stmt → Stmt
  | .block id body => .block id (Stmt.renameAll ρ body)
  | .expression id e => .expression id (e.rename ρ)
  | .print id e => .print id (e.rename ρ)
  | .varDecl id name initializer =>
    .varDecl id (name.rename ρ) (initializer.map (Expr.rename ρ))
  | .branch id condition thenBranch none =>
    .branch id (condition.rename ρ) (thenBranch.rename ρ) none
  | .branch id condition thenBranch (some elseBranch) =>
    .branch id (condition.rename ρ) (thenBranch.rename ρ) (some (elseBranch.rename ρ))
  | .loop id condition body => .loop id (condition.rename ρ) (body.rename ρ)
  | .function f => .function (f.rename ρ)
  | .ret id keyword value => .ret id keyword (value.map (Expr.rename ρ))
  | .classDecl id name superclass methods =>
    .classDecl id (name.rename ρ) (superclass.map (VarRef.rename ρ)) (FunctionDecl.renameAll ρ methods)

def FunctionDecl.rename (ρ : Renaming) : FunctionDecl → FunctionDecl
  | ⟨id, name, params, body⟩ =>
    ⟨id, name.rename ρ, params.map (Token.rename ρ), Stmt.renameAll ρ body⟩

def Stmt.renameAll (ρ : Renaming) : List Stmt → List Stmt
  | [] => []
  | s :: ss => s.rename ρ :: Stmt.renameAll ρ ss

def FunctionDecl.renameAll (ρ : Renaming) : List FunctionDecl → List FunctionDecl
  | [] => []
  | f :: fs => f.rename ρ :: FunctionDecl.renameAll ρ fs

end

def Program.rename (ρ : Renaming) (p : Program) : Program := Stmt.renameAll ρ p

section

variable {ρ : Renaming}

/-- A token whose text is left alone is left alone. -/
theorem Token.rename_eq_self {t : Token} (h : ρ t.lexeme = t.lexeme) : t.rename ρ = t :=
  congrArg (fun lexeme => { t with lexeme }) h

theorem Token.lexeme_rename (t : Token) : (t.rename ρ).lexeme = ρ t.lexeme := rfl

theorem Token.line_rename (t : Token) : (t.rename ρ).line = t.line := rfl

theorem Expr.renameAll_eq_map (es : List Expr) : Expr.renameAll ρ es = es.map (Expr.rename ρ) := by
  induction es with
  | nil => rfl
  | cons e es ih => rw [Expr.renameAll, ih, List.map_cons]

theorem Stmt.renameAll_eq_map (ss : List Stmt) : Stmt.renameAll ρ ss = ss.map (Stmt.rename ρ) := by
  induction ss with
  | nil => rfl
  | cons s ss ih => rw [Stmt.renameAll, ih, List.map_cons]

theorem Expr.asVariable?_rename (e : Expr) :
    (e.rename ρ).asVariable? = e.asVariable?.map (VarRef.rename ρ) := by
  cases e <;> rfl

namespace FunctionDecl

variable (f : FunctionDecl)

theorem name_rename : (f.rename ρ).name = f.name.rename ρ := by
  cases f
  rfl

theorem params_rename : (f.rename ρ).params = f.params.map (Token.rename ρ) := by
  cases f
  rfl

theorem body_rename : (f.rename ρ).body = Stmt.renameAll ρ f.body := by
  cases f
  rfl

theorem arity_rename : (f.rename ρ).arity = f.arity := by
  rw [arity, params_rename, List.length_map, arity]

end FunctionDecl

end

/-! ### Parts with plain names -/

namespace Part

/-- A `this` or a `super` is written so. -/
def PlainKeyword : Part → Prop
  | expr (.this _ keyword) => keyword.lexeme = "this"
  | expr (.super _ keyword _) => keyword.lexeme = "super"
  | _ => True

instance : DecidablePred PlainKeyword := fun t => by
  unfold PlainKeyword
  split <;> infer_instance

/-- A `this` or a `super` is written so, and what is assigned is a variable. -/
structure Renamable (t : Part) : Prop where
  keyword : t.PlainKeyword
  target : ∀ id target equals value, t = expr (.assign id target equals value) →
    target.asVariable?.isSome

end Part

/-- In a program without errors only variables are assigned. -/
theorem Program.renamable {p : Program} (he : p.resolve.hasErrors = false)
    (h : (Part.program p).All Part.PlainKeyword) : (Part.program p).All Part.Renamable := by
  intro a t ha
  refine ⟨h a t ha, ?_⟩
  rintro id target equals value rfl
  by_contra hnone
  obtain ⟨Γ, hP⟩ := Program.exists_place? (p := p) ha
  have hviolations := Program.violations_eq_nil he (Part.mem_places_of_place? hP rfl)
  simp [Place.violations, Part.violations, Option.not_isSome_iff_eq_none.1 hnone] at hviolations

end Lox
