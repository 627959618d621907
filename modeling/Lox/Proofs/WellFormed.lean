import Lox.Number.Text
import Lox.Resolver
import Lox.Proofs.Part

/-!
# Well-formed programs

What the grammar of the language promises of a tree, node by node: declarations stand in blocks and
bodies and not alone as branches, the keywords `this` and `super` are used as such and as nothing
else, and operators and integer literals are ones that can be evaluated.
-/

namespace Lox

/-- Declarations introduce a name into the scope they stand in. -/
def Stmt.isDeclaration : Stmt → Bool
  | .varDecl .. => true
  | .function _ => true
  | .classDecl .. => true
  | _ => false

/-- A name that is no keyword of a class. -/
def Token.isPlainName (name : Token) : Prop := name.lexeme ≠ "this" ∧ name.lexeme ≠ "super"

/-- The operators that take one operand. -/
def TokenKind.isUnary : TokenKind → Bool
  | .bang => true
  | .minus => true
  | _ => false

/-- The operators that take two operands, apart from the logical ones. -/
def TokenKind.isBinary : TokenKind → Bool
  | .equalEqual => true
  | .bangEqual => true
  | .plus => true
  | .minus => true
  | .star => true
  | .slash => true
  | .greater => true
  | .greaterEqual => true
  | .less => true
  | .lessEqual => true
  | _ => false

/-- A whole number is the value of an integer literal if a double is near to it. -/
def Literal.inRange : Literal → Bool
  | .integer i => (Number.ofInt? i).isSome
  | _ => true

def FunctionDecl.PlainNames (f : FunctionDecl) : Prop := ∀ name ∈ f.params, name.isPlainName

/-- The keywords of classes are used as such, and name nothing else. -/
def Part.WellNamed : Part → Prop
  | stmt (.varDecl _ name _) => name.isPlainName
  | stmt (.function f) => f.name.isPlainName ∧ f.PlainNames
  | stmt (.classDecl _ name _ _) => name.isPlainName
  | method f => f.PlainNames
  | expr (.var ref) => ref.name.isPlainName
  | expr (.assign _ target _ _) => ∀ ref ∈ target.asVariable?, ref.name.isPlainName
  | expr (.this _ keyword) => keyword.lexeme = "this"
  | expr (.super _ keyword _) => keyword.lexeme = "super"
  | _ => True

/-- Declarations stand where they introduce their name, and keywords of classes are no names. -/
def Part.WellScoped : Part → Prop
  | stmt (.branch _ _ thenBranch elseBranch) =>
    thenBranch.isDeclaration = false ∧ ∀ s ∈ elseBranch, s.isDeclaration = false
  | stmt (.loop _ _ body) => body.isDeclaration = false
  | stmt (.varDecl _ name _) => name.isPlainName
  | stmt (.function f) => f.name.isPlainName ∧ f.PlainNames
  | stmt (.classDecl _ name _ _) => name.isPlainName
  | method f => f.PlainNames
  | expr (.var ref) => ref.name.isPlainName
  | expr (.assign _ target _ _) => ∀ ref ∈ target.asVariable?, ref.name.isPlainName
  | expr (.this _ keyword) => keyword.lexeme = "this"
  | expr (.super _ keyword _) => keyword.lexeme = "super"
  | _ => True

/-- Branches and loops. -/
def Part.branches : Part → Bool
  | stmt (.branch ..) => true
  | stmt (.loop ..) => true
  | _ => false

/-- Operators and integer literals are ones that can be evaluated. -/
def Part.Evaluable : Part → Prop
  | expr (.literal _ value) => value.inRange
  | expr (.binary _ _ operator _) => operator.kind.isBinary
  | expr (.unary _ operator _) => operator.kind.isUnary
  | _ => True

/-- What the grammar promises of a node. -/
structure Part.WellFormed (t : Part) : Prop where
  wellScoped : t.WellScoped
  evaluable : t.Evaluable

def Program.WellScoped (p : Program) : Prop := ∀ a t, p.part? a = some t → t.WellScoped

def Program.WellNamed (p : Program) : Prop := ∀ a t, p.part? a = some t → t.WellNamed

/-- A program is well-formed if all its nodes are. -/
def Program.WellFormed (p : Program) : Prop := ∀ a t, p.part? a = some t → t.WellFormed

theorem Program.WellFormed.wellScoped {p : Program} (h : p.WellFormed) : p.WellScoped :=
  fun a t ht => (h a t ht).wellScoped

namespace Part

theorem WellScoped.wellNamed {t : Part} (h : t.WellScoped) : t.WellNamed := by
  unfold WellNamed
  split <;> first | exact h | trivial

/-- Branches and loops apart, all that is asked of a node's scope is asked of its names. -/
theorem wellNamed_iff {t : Part} (h : t.branches = false) : t.WellNamed ↔ t.WellScoped := by
  refine ⟨fun hw => ?_, WellScoped.wellNamed⟩
  unfold WellScoped
  split <;> first | exact hw | trivial

theorem WellNamed.declares?_ne {t : Part} (h : t.WellNamed) {x : String}
    (hd : t.declares? = some x) : x ≠ "this" ∧ x ≠ "super" := by
  unfold declares? at hd
  split at hd <;> cases hd
  · exact h
  · exact h.1
  · exact h

theorem WellNamed.params_ne {t : Part} (h : t.WellNamed) {x : String} (hx : x ∈ t.params) :
    x ≠ "this" ∧ x ≠ "super" := by
  unfold params at hx
  split at hx
  · obtain ⟨name, hname, rfl⟩ := List.mem_map.1 hx
    exact h.2 name hname
  · obtain ⟨name, hname, rfl⟩ := List.mem_map.1 hx
    exact h name hname
  · cases hx

end Part

theorem Program.WellScoped.wellNamed {p : Program} (h : p.WellScoped) : p.WellNamed :=
  fun a t ht => (h a t ht).wellNamed

/-- How much is asked of the nodes of a program: all that the grammar promises of their scopes; or
that declarations may stand alone as branches and loop bodies all the same; or nothing. -/
inductive Discipline
  | strict | named | loose

/-- What a discipline asks of a program. -/
def Program.Obeys (p : Program) : Discipline → Prop
  | .strict => p.WellScoped
  | .named => p.WellNamed
  | .loose => True

/-- The part of an assumption that a discipline leaves where good names are needed. -/
def Discipline.ifNamed (clean : Prop) : Discipline → Prop
  | .strict => clean
  | .named => clean
  | .loose => False

/-- The part of an assumption that a discipline leaves where all of the grammar is needed. -/
def Discipline.ifStrict (clean : Prop) : Discipline → Prop
  | .strict => clean
  | .named => False
  | .loose => False

end Lox
