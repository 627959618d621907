import Mathlib.Data.List.Forall2
import Lox.Proofs.Scoping.Nesting

/-!
# What a walk of the resolver does

The resolver's stack of scopes is the nesting of the node it has come to, and what the walk over a
statement adds to the table and to the errors is what the nodes of the statement contribute, each
at its own nesting and in the order of `Stmt.places`.  So the walk as a whole is a fold over the
nodes of the program (`Program.resolve_table`, `Program.resolve_errors`), with no state left in it
but the table.
-/

namespace Lox

namespace Place

/-- The errors of the node at a place. -/
def violations (P : Place) : List StaticError := P.part.violations P.nesting

def entry? (P : Place) : Option Nat := P.part.entry? P.nesting

/-- Records the distance of the node at a place, if it has one. -/
def record (table : Resolution) (P : Place) : Resolution :=
  match P.part.id?, P.entry? with
  | some id, some d => table.insert id d
  | _, _ => table

end Place

namespace Resolver

/-- The stack of scopes is the nesting: the same names in each scope, and the same of them ready. -/
def ScopesAre (scopes : List StaticScope) (Γ : Nesting) : Prop :=
  List.Forall₂ (fun scope f => ∀ x : String, scope[x]? = f.ready? x) scopes Γ

namespace ScopesAre

variable {scopes : List StaticScope} {Γ : Nesting}

theorem length_eq (h : ScopesAre scopes Γ) : scopes.length = Γ.length := List.Forall₂.length_eq h

theorem tail (h : ScopesAre scopes Γ) : ScopesAre scopes.tail Γ.tail := by
  cases h with
  | nil => exact .nil
  | cons _ h => exact h

theorem cons {scope : StaticScope} {f : Frame} (hf : ∀ x : String, scope[x]? = f.ready? x)
    (h : ScopesAre scopes Γ) : ScopesAre (scope :: scopes) (f :: Γ) :=
  List.Forall₂.cons hf h

theorem contains_eq {scope : StaticScope} {f : Frame} (hf : ∀ x : String, scope[x]? = f.ready? x)
    (x : String) : scope.contains x = f.has x := by
  rw [Frame.has, ← hf, Std.ExtTreeMap.contains_eq_isSome_getElem?]

theorem findIdx?_contains (h : ScopesAre scopes Γ) (x : String) :
    scopes.findIdx? (·.contains x) = Γ.distance? x := by
  unfold Nesting.distance?
  induction h with
  | nil => rfl
  | cons hf _ ih => rw [List.findIdx?_cons, List.findIdx?_cons, contains_eq hf, ih]

/-- A new scope has no names. -/
theorem empty_ready? (o : Opener) (x : String) :
    (∅ : StaticScope)[x]? = Frame.ready? { opener := o } x := by
  simp [Frame.ready?]

/-- A scope that was made for one name has it and no other. -/
theorem singleton_ready? (o : Opener) (y x : String) :
    ({(y, true)} : StaticScope)[x]? = Frame.ready? { opener := o, marks := [(y, true)] } x := by
  show ((∅ : StaticScope).insert y true)[x]? = _
  rw [Std.ExtTreeMap.getElem?_insert]
  refine Eq.trans ?_ (Frame.ready?_mark { opener := o } y x true).symm
  by_cases h : x = y
  · simp [h]
  · simp [h, Ne.symm h]

end ScopesAre

variable {r : Resolver} {Γ : Nesting}

theorem scopesAre_mark (h : ScopesAre r.scopes Γ) (x : String) (b : Bool) :
    ScopesAre (r.mark x b).scopes (Γ.mark x b) := by
  obtain ⟨scopes, table, errors, fk, ck⟩ := r
  cases h with
  | nil => exact .nil
  | @cons scope f outer Γ hf ht =>
    refine .cons (fun y => ?_) ht
    rw [Std.ExtTreeMap.getElem?_insert, Frame.ready?_mark]
    by_cases hy : y = x
    · simp [hy]
    · simpa [hy, Ne.symm hy] using hf y

@[simp] theorem mark_table (r : Resolver) (x : String) (b : Bool) :
    (r.mark x b).table = r.table := by
  unfold mark
  split <;> rfl

@[simp] theorem mark_errors (r : Resolver) (x : String) (b : Bool) :
    (r.mark x b).errors = r.errors := by
  unfold mark
  split <;> rfl

@[simp] theorem mark_functionKind (r : Resolver) (x : String) (b : Bool) :
    (r.mark x b).functionKind = r.functionKind := by
  unfold mark
  split <;> rfl

@[simp] theorem mark_classKind (r : Resolver) (x : String) (b : Bool) :
    (r.mark x b).classKind = r.classKind := by
  unfold mark
  split <;> rfl

theorem isDeclaredHere_eq (h : ScopesAre r.scopes Γ) (x : String) :
    r.isDeclaredHere x = Γ.hasHere x := by
  obtain ⟨scopes, table, errors, fk, ck⟩ := r
  cases h with
  | nil => rfl
  | cons hf _ => exact ScopesAre.contains_eq hf x

theorem isInInitializer_eq (h : ScopesAre r.scopes Γ) (x : String) :
    r.isInInitializer x = Γ.isPending x := by
  obtain ⟨scopes, table, errors, fk, ck⟩ := r
  cases h with
  | nil => rfl
  | cons hf _ => exact congrArg (· == some false) (hf x)

/-! ### Walks and what they add -/

/-- A walk over some nodes leads from `r` to `r'`, where the nesting is `Γ`: it records what the
nodes contribute and reports the rules they break, and the kinds of the enclosing function and class
are what they were. -/
structure Walk (r : Resolver) (ps : List Place) (r' : Resolver) (Γ : Nesting) : Prop where
  scopes : ScopesAre r'.scopes Γ
  table : r'.table = ps.foldl Place.record r.table
  errors : r'.errors = r.errors ++ ps.flatMap Place.violations
  functionKind : r'.functionKind = r.functionKind
  classKind : r'.classKind = r.classKind

/-- The resolver has come to a node of this nesting. -/
structure At (r : Resolver) (Γ : Nesting) : Prop where
  scopes : ScopesAre r.scopes Γ
  functionKind : r.functionKind = .none ↔ Γ.inFunction = false
  classKind : r.classKind = Γ.classKind

namespace Walk

variable {r' r'' : Resolver} {ps qs : List Place} {Δ : Nesting}

theorem refl (h : ScopesAre r.scopes Γ) : Walk r [] r Γ := ⟨h, rfl, by simp, rfl, rfl⟩

theorem append (h : Walk r ps r' Γ) (h' : Walk r' qs r'' Δ) : Walk r (ps ++ qs) r'' Δ where
  scopes := h'.scopes
  table := by rw [h'.table, h.table, List.foldl_append]
  errors := by rw [h'.errors, h.errors, List.flatMap_append, List.append_assoc]
  functionKind := h'.functionKind.trans h.functionKind
  classKind := h'.classKind.trans h.classKind

/-- After a walk the resolver is at the next node, if the scopes there are opened by the same. -/
theorem at_next (h : Walk r ps r' Δ) (ha : r.At Γ)
    (ho : Δ.map (·.opener) = Γ.map (·.opener)) : r'.At Δ where
  scopes := h.scopes
  functionKind := by
    rw [h.functionKind, ha.functionKind, Nesting.inFunction_congr ho]
  classKind := by
    rw [h.classKind, ha.classKind, Nesting.classKind_congr ho]

theorem at_same (h : Walk r ps r' Γ) (ha : r.At Γ) : r'.At Γ := h.at_next ha rfl

/-- A node that has no entry can be put in front, with the errors it reports. -/
theorem cons {P : Place} (h : Walk r' ps r'' Γ) (ht : r'.table = r.table)
    (he : r'.errors = r.errors ++ P.violations) (hf : r'.functionKind = r.functionKind)
    (hc : r'.classKind = r.classKind) (hP : P.entry? = none) : Walk r (P :: ps) r'' Γ where
  scopes := h.scopes
  table := by
    rw [h.table, ht, List.foldl_cons]
    unfold Place.record
    rw [hP]
    cases P.part.id? <;> rfl
  errors := by rw [h.errors, he, List.flatMap_cons, List.append_assoc]
  functionKind := h.functionKind.trans hf
  classKind := h.classKind.trans hc

/-- A node that has no entry and breaks no rule. -/
theorem cons_plain {P : Place} (h : Walk r ps r' Γ) (he : P.entry? = none)
    (hv : P.violations = []) : Walk r (P :: ps) r' Γ :=
  h.cons rfl (by rw [hv, List.append_nil]) rfl rfl he

end Walk

/-! ### Declarations -/

theorem declare_walk (h : ScopesAre r.scopes Γ) (name : Token) :
    (r.declare name).errors = r.errors ++ Γ.redeclared name ∧ (r.declare name).table = r.table ∧
      (r.declare name).functionKind = r.functionKind ∧ (r.declare name).classKind = r.classKind ∧
      ScopesAre (r.declare name).scopes (Γ.mark name.lexeme false) := by
  unfold declare Nesting.redeclared
  rw [isDeclaredHere_eq h]
  cases Γ.hasHere name.lexeme with
  | false => simpa using scopesAre_mark h name.lexeme false
  | true => simpa [addError] using scopesAre_mark (r := r.addError _ name) h name.lexeme false

theorem declareReady_walk (h : ScopesAre r.scopes Γ) (name : Token) :
    (r.declareReady name).errors = r.errors ++ Γ.redeclared name ∧
      (r.declareReady name).table = r.table ∧
      (r.declareReady name).functionKind = r.functionKind ∧
      (r.declareReady name).classKind = r.classKind ∧
      ScopesAre (r.declareReady name).scopes (Γ.declareReady name.lexeme) := by
  obtain ⟨h1, h2, h3, h4, h5⟩ := declare_walk h name
  have hs := scopesAre_mark h5 name.lexeme true
  simp only [declareReady, define, mark_errors, mark_table, mark_functionKind, mark_classKind]
  exact ⟨h1, h2, h3, h4, hs⟩

/-- The parameters of a call are declared in its new scope. -/
theorem foldl_declareReady_walk : ∀ (params : List Token) (r : Resolver) (f : Frame),
    ScopesAre r.scopes (f :: Γ) →
    (params.foldl declareReady r).errors = r.errors ++ f.redeclaredParams params ∧
      (params.foldl declareReady r).table = r.table ∧
      (params.foldl declareReady r).functionKind = r.functionKind ∧
      (params.foldl declareReady r).classKind = r.classKind ∧
      ScopesAre (params.foldl declareReady r).scopes
        (params.foldl (fun frame p => frame.markReady p.lexeme) f :: Γ)
  | [], r, f, h => ⟨by simp [Frame.redeclaredParams], rfl, rfl, rfl, h⟩
  | p :: ps, r, f, h => by
    obtain ⟨h1, h2, h3, h4, h5⟩ := declareReady_walk h p
    obtain ⟨k1, k2, k3, k4, k5⟩ := foldl_declareReady_walk ps (r.declareReady p) _ h5
    refine ⟨?_, k2.trans h2, k3.trans h3, k4.trans h4, k5⟩
    rw [List.foldl_cons, k1, h1, List.append_assoc]
    rfl

/-! ### Uses -/

theorem resolveName_of_distance (h : ScopesAre r.scopes Γ) (id : NodeId) (name : Token) :
    r.resolveName id name = { r with table := match Γ.distance? name.lexeme with
      | some d => r.table.insert id d
      | none => r.table } := by
  unfold resolveName distance?
  rw [ScopesAre.findIdx?_contains h]
  cases Γ.distance? name.lexeme <;> rfl

/-- A node that looks up a name and breaks no rule. -/
theorem resolveName_walk {P : Place} (h : ScopesAre r.scopes Γ) {id : NodeId} {name : Token}
    (hid : P.part.id? = some id) (he : P.entry? = Γ.distance? name.lexeme)
    (hv : P.violations = []) : Walk r [P] (r.resolveName id name) Γ := by
  rw [resolveName_of_distance h]
  refine ⟨h, ?_, by simp [hv], rfl, rfl⟩
  rw [List.foldl_cons, List.foldl_nil, Place.record, hid, he]
  cases Γ.distance? name.lexeme <;> rfl

/-- An error that is reported before a name is looked up. -/
theorem addError_resolveName_walk {P : Place} (h : ScopesAre r.scopes Γ) {id : NodeId}
    {name token : Token} {cause : StaticCause} (hid : P.part.id? = some id)
    (he : P.entry? = Γ.distance? name.lexeme) (hv : P.violations = [⟨cause, token⟩]) :
    Walk r [P] ((r.addError cause token).resolveName id name) Γ := by
  rw [resolveName_of_distance (r := r.addError cause token) h]
  refine ⟨h, ?_, by simp [hv, addError], rfl, rfl⟩
  rw [List.foldl_cons, List.foldl_nil, Place.record, hid, he]
  cases Γ.distance? name.lexeme <;> rfl

theorem resolveVar_walk (h : ScopesAre r.scopes Γ) (ref : VarRef) :
    Walk r [⟨Γ, .expr (.var ref)⟩] (r.resolveVar ref) Γ := by
  unfold resolveVar
  rw [isInInitializer_eq h]
  cases hp : Γ.isPending ref.name.lexeme with
  | false =>
    exact resolveName_walk h rfl rfl (by simp [Place.violations, Part.violations, hp])
  | true =>
    exact addError_resolveName_walk h rfl rfl (by simp [Place.violations, Part.violations, hp])

theorem resolveThis_walk (h : r.At Γ) (id : NodeId) (keyword : Token) :
    Walk r [⟨Γ, .expr (.this id keyword)⟩] (r.resolveExpr (.this id keyword)) Γ := by
  have hk := h.classKind
  simp only [resolveExpr]
  cases hc : Γ.classKind with
  | none =>
    rw [hc] at hk
    rw [hk]
    refine ⟨h.scopes, ?_, ?_, rfl, rfl⟩
    · simp [Place.record, Place.entry?, Part.entry?, hc, addError]
    · simp [Place.violations, Part.violations, hc, addError]
  | plain =>
    rw [hc] at hk
    rw [hk]
    refine resolveName_walk h.scopes rfl ?_ ?_
    · simp [Place.entry?, Part.entry?, hc]
    · simp [Place.violations, Part.violations, hc]
  | subclass =>
    rw [hc] at hk
    rw [hk]
    refine resolveName_walk h.scopes rfl ?_ ?_
    · simp [Place.entry?, Part.entry?, hc]
    · simp [Place.violations, Part.violations, hc]

theorem resolveSuper_walk (h : r.At Γ) (id : NodeId) (keyword method : Token) :
    Walk r [⟨Γ, .expr (.super id keyword method)⟩] (r.resolveExpr (.super id keyword method)) Γ := by
  have hk := h.classKind
  simp only [resolveExpr]
  cases hc : Γ.classKind with
  | none =>
    rw [hc] at hk
    rw [hk]
    exact addError_resolveName_walk h.scopes rfl rfl (by simp [Place.violations, Part.violations, hc])
  | plain =>
    rw [hc] at hk
    rw [hk]
    exact addError_resolveName_walk h.scopes rfl rfl (by simp [Place.violations, Part.violations, hc])
  | subclass =>
    rw [hc] at hk
    rw [hk]
    exact resolveName_walk h.scopes rfl rfl (by simp [Place.violations, Part.violations, hc])

/-! ### Expressions -/

/-- An assignment to a variable, after its value. -/
theorem resolveTarget_walk (h : ScopesAre r.scopes Γ) (id : NodeId) (ref : VarRef) (equals : Token)
    (value : Expr) :
    Walk r [⟨Γ, .expr (.assign id (.var ref) equals value)⟩] (r.resolveName id ref.name) Γ :=
  resolveName_walk h rfl rfl rfl

theorem addError_invalidTarget_walk (h : ScopesAre r.scopes Γ) (id : NodeId) {target : Expr}
    (ht : target.asVariable? = none) (equals : Token) (value : Expr) :
    Walk r [⟨Γ, .expr (.assign id target equals value)⟩]
      (r.addError .invalidAssignmentTarget equals) Γ where
  scopes := h
  table := by
    simp only [List.foldl_cons, List.foldl_nil, Place.record, Place.entry?, Part.entry?,
      Part.looksUp?, ht, Option.map_none, Option.bind_none]
    rfl
  errors := by simp [Place.violations, Part.violations, ht, addError]
  functionKind := rfl
  classKind := rfl

theorem resolveExpr_assign_of_none {target : Expr} (h : target.asVariable? = none) (r : Resolver)
    (id : NodeId) (equals : Token) (value : Expr) :
    r.resolveExpr (.assign id target equals value) =
      ((r.resolveExpr value).addError .invalidAssignmentTarget equals).resolveExpr target := by
  cases target with
  | var ref => simp [Expr.asVariable?] at h
  | _ => rfl

mutual

theorem resolveExpr_walk : ∀ (e : Expr) {r : Resolver} {Γ : Nesting}, r.At Γ →
    Walk r (e.places Γ) (r.resolveExpr e) Γ
  | .literal .., _, _, h => (Walk.refl h.scopes).cons_plain rfl rfl
  | .var ref, _, _, h => resolveVar_walk h.scopes ref
  | .assign id target equals value, r, Γ, h => by
    have hv := resolveExpr_walk value h
    cases ht : target.asVariable? with
    | some ref =>
      obtain rfl := Expr.eq_var_of_asVariable? ht
      exact hv.append (resolveTarget_walk hv.scopes id ref equals value)
    | none =>
      have he := hv.append (addError_invalidTarget_walk hv.scopes id ht equals value)
      have hw := he.append (resolveExpr_walk target (he.at_same h))
      rw [resolveExpr_assign_of_none ht, Expr.places_assign_of_none ht]
      simpa using hw
  | .binary _ left _ right, _, _, h => by
    have hl := resolveExpr_walk left h
    exact (hl.append (resolveExpr_walk right (hl.at_same h))).cons_plain rfl rfl
  | .logical _ left _ right, _, _, h => by
    have hl := resolveExpr_walk left h
    exact (hl.append (resolveExpr_walk right (hl.at_same h))).cons_plain rfl rfl
  | .unary _ _ operand, _, _, h => (resolveExpr_walk operand h).cons_plain rfl rfl
  | .grouping _ inner, _, _, h => (resolveExpr_walk inner h).cons_plain rfl rfl
  | .call _ callee _ arguments, _, _, h => by
    have hc := resolveExpr_walk callee h
    exact (hc.append (resolveExprs_walk arguments (hc.at_same h))).cons_plain rfl rfl
  | .get _ object _, _, _, h => (resolveExpr_walk object h).cons_plain rfl rfl
  | .set _ object _ value, _, _, h => by
    have hv := resolveExpr_walk value h
    exact (hv.append (resolveExpr_walk object (hv.at_same h))).cons_plain rfl rfl
  | .this id keyword, _, _, h => resolveThis_walk h id keyword
  | .super id keyword method, _, _, h => resolveSuper_walk h id keyword method

theorem resolveExprs_walk : ∀ (es : List Expr) {r : Resolver} {Γ : Nesting}, r.At Γ →
    Walk r (placesOfExprs Γ es) (r.resolveExprs es) Γ
  | [], _, _, h => Walk.refl h.scopes
  | e :: es, _, _, h => by
    have he := resolveExpr_walk e h
    exact he.append (resolveExprs_walk es (he.at_same h))

end

theorem resolveExpr?_walk (e : Option Expr) (h : r.At Γ) :
    Walk r (Expr.places? Γ e) (r.resolveExpr? e) Γ := by
  cases e with
  | none => exact Walk.refl h.scopes
  | some e =>
    rw [Expr.places?_some]
    exact resolveExpr_walk e h

/-! ### Statements -/

theorem At.declared (h : r.At Γ) (name : Token) : (r.declare name).At (Γ.mark name.lexeme false) where
  scopes := (declare_walk h.scopes name).2.2.2.2
  functionKind := by
    rw [(declare_walk h.scopes name).2.2.1, h.functionKind,
      Nesting.inFunction_congr (Nesting.openers_mark Γ _ _)]
  classKind := by
    rw [(declare_walk h.scopes name).2.2.2.1, h.classKind,
      Nesting.classKind_congr (Nesting.openers_mark Γ _ _)]

theorem At.declaredReady (h : r.At Γ) (name : Token) :
    (r.declareReady name).At (Γ.declareReady name.lexeme) where
  scopes := (declareReady_walk h.scopes name).2.2.2.2
  functionKind := by
    rw [(declareReady_walk h.scopes name).2.2.1, h.functionKind,
      Nesting.inFunction_congr (Nesting.openers_declareReady Γ _)]
  classKind := by
    rw [(declareReady_walk h.scopes name).2.2.2.1, h.classKind,
      Nesting.classKind_congr (Nesting.openers_declareReady Γ _)]

theorem At.inBlock (h : r.At Γ) (id : NodeId) :
    (r.openScope ∅).At ({ opener := .block id } :: Γ) where
  scopes := .cons (ScopesAre.empty_ready? _) h.scopes
  functionKind := h.functionKind
  classKind := h.classKind

/-- The resolver in the methods of a class. -/
theorem At.inThis (h : ScopesAre r.scopes Γ) (hf : r.functionKind = .none ↔ Γ.inFunction = false)
    (id : NodeId) (methods : List FunctionDecl) (subclass : Bool)
    (hc : r.classKind = if subclass then .subclass else .plain) :
    (r.openScope {("this", true)}).At (Frame.ofThis id methods subclass :: Γ) where
  scopes := .cons (ScopesAre.singleton_ready? (.this id (methods.map (·.id)) subclass) "this") h
  functionKind := hf
  classKind := by
    show r.classKind = _
    rw [hc]
    cases subclass <;> rfl

/-- The resolver in the scope of a function, when the parameters are declared. -/
def enteredFunction (r : Resolver) (kind : FunctionKind) (f : FunctionDecl) : Resolver :=
  f.params.foldl declareReady ({ r with functionKind := kind }.openScope ∅)

theorem enteredFunction_walk (h : ScopesAre r.scopes Γ) (kind : FunctionKind) (f : FunctionDecl) :
    (r.enteredFunction kind f).errors = r.errors ++ f.redeclaredParams ∧
      (r.enteredFunction kind f).table = r.table ∧
      (r.enteredFunction kind f).functionKind = kind ∧
      (r.enteredFunction kind f).classKind = r.classKind ∧
      ScopesAre (r.enteredFunction kind f).scopes (Frame.ofCall f :: Γ) := by
  have hs : ScopesAre ({ r with functionKind := kind }.openScope ∅).scopes
      ({ opener := .function f.id } :: Γ) :=
    .cons (ScopesAre.empty_ready? (.function f.id)) h
  exact foldl_declareReady_walk f.params _ _ hs

theorem At.inCall (h : r.At Γ) {kind : FunctionKind} (hkind : kind ≠ .none) (f : FunctionDecl) :
    (r.enteredFunction kind f).At (Frame.ofCall f :: Γ) := by
  obtain ⟨-, -, hf, hc, hs⟩ := enteredFunction_walk h.scopes kind f
  refine ⟨hs, ?_, ?_⟩
  · rw [hf, Nesting.inFunction_ofCall]
    simp [hkind]
  · rw [hc, Nesting.classKind_ofCall]
    exact h.classKind

/-- The walk over a superclass, after the complaint about a class that inherits from itself. -/
theorem resolveSuperclass_walk (h : ScopesAre r.scopes Γ) (kind : ClassKind) (name : Token)
    (ref : VarRef) :
    Walk { r with
        errors := r.errors ++
          if ref.name.lexeme = name.lexeme then [⟨.selfInheritance, ref.name⟩] else []
        classKind := kind }
      (Expr.places? Γ (some (.var ref)))
      ({ (if ref.name.lexeme = name.lexeme then r.addError .selfInheritance ref.name else r) with
          classKind := kind }.resolveVar ref) Γ := by
  rw [Expr.places?_some]
  split
  · exact resolveVar_walk (r := { r.addError .selfInheritance ref.name with classKind := kind }) h ref
  · rw [List.append_nil]
    exact resolveVar_walk (r := { r with classKind := kind }) h ref

theorem methodKind_ne_none (f : FunctionDecl) : methodKind f ≠ .none := by
  unfold methodKind
  split <;> simp

mutual

theorem resolveStmt_walk : ∀ (s : Stmt) {r : Resolver} {Γ : Nesting}, r.At Γ →
    Walk r (s.places Γ) (r.resolveStmt s) (Γ.after s)
  | .block id body, _, Γ, h => by
    have hb := resolveStmts_walk body (h.inBlock id)
    refine Walk.cons_plain ⟨?_, hb.table, hb.errors, hb.functionKind, hb.classKind⟩ rfl rfl
    have hs := hb.scopes.tail
    rw [Nesting.tail_afterAll] at hs
    exact hs
  | .expression _ e, _, _, h => (resolveExpr_walk e h).cons_plain rfl rfl
  | .print _ e, _, _, h => (resolveExpr_walk e h).cons_plain rfl rfl
  | .varDecl _ name initializer, r, Γ, h => by
    obtain ⟨he, ht, hf, hc, -⟩ := declare_walk h.scopes name
    have hi := resolveExpr?_walk initializer (h.declared name)
    refine Walk.cons ⟨scopesAre_mark hi.scopes _ true, ?_, ?_, ?_, ?_⟩ ht he hf hc rfl
    · exact (mark_table _ _ _).trans hi.table
    · exact (mark_errors _ _ _).trans hi.errors
    · exact (mark_functionKind _ _ _).trans hi.functionKind
    · exact (mark_classKind _ _ _).trans hi.classKind
  | .branch id condition thenBranch none, _, _, h => by
    have hc := resolveExpr_walk condition h
    have ht := resolveStmt_walk thenBranch (hc.at_same h)
    rw [Stmt.places, List.append_nil]
    exact (hc.append ht).cons_plain rfl rfl
  | .branch _ condition thenBranch (some elseBranch), _, Γ, h => by
    have hc := resolveExpr_walk condition h
    have ht := resolveStmt_walk thenBranch (hc.at_same h)
    have ha := ht.at_next (hc.at_same h) (Nesting.openers_after Γ thenBranch)
    exact ((hc.append ht).append (resolveStmt_walk elseBranch ha)).cons_plain rfl rfl
  | .loop _ condition body, _, _, h => by
    have hc := resolveExpr_walk condition h
    exact (hc.append (resolveStmt_walk body (hc.at_same h))).cons_plain rfl rfl
  | .function f, r, Γ, h => by
    obtain ⟨he, ht, hf, hc, -⟩ := declareReady_walk h.scopes f.name
    obtain ⟨hs, htable, herrors, hfk, hck⟩ :=
      resolveFunction_walk f (show FunctionKind.function ≠ .none by simp) (h.declaredReady f.name)
    refine ⟨hs, ?_, ?_, hfk.trans hf, hck.trans hc⟩
    · exact htable.trans (by rw [ht]; rfl)
    · refine herrors.trans ?_
      rw [he]
      simp [Stmt.places, Place.violations, Part.violations]
  | .ret _ keyword value, r, Γ, h => by
    have hv : ∀ r', r'.At Γ → Walk r' (Expr.places? Γ value) (r'.resolveExpr? value) Γ :=
      fun r' h' => resolveExpr?_walk value h'
    have hk := h.functionKind
    simp only [resolveStmt, Stmt.places]
    by_cases hn : r.functionKind = .none
    · rw [if_pos hn]
      refine (hv (r.addError .topLevelReturn keyword) ⟨h.scopes, h.functionKind, h.classKind⟩).cons
        rfl ?_ rfl rfl rfl
      simp [addError, Place.violations, Part.violations, hk.1 hn]
    · rw [if_neg hn]
      refine (hv r h).cons_plain rfl ?_
      have : Γ.inFunction = true := by simpa using fun hi => hn (hk.2 hi)
      simp [Place.violations, Part.violations, this]
  | .classDecl id name none methods, r, Γ, h => by
    obtain ⟨he, ht, hf, hc, hs⟩ :=
      declareReady_walk (r := { r with classKind := .plain }) h.scopes name
    have hfk : ({ r with classKind := .plain }.declareReady name).functionKind = .none ↔
        (Γ.declareReady name.lexeme).inFunction = false := by
      rw [hf, Nesting.inFunction_congr (Nesting.openers_declareReady Γ _)]
      exact h.functionKind
    have hm := resolveMethods_walk methods (At.inThis hs hfk id methods false hc)
    have hw : Walk { r with errors := r.errors ++ Γ.redeclared name }
        (placesOfMethods (Γ.inMethods id name none methods) methods)
        (r.resolveStmt (.classDecl id name none methods)) (Γ.declareReady name.lexeme) :=
      ⟨hm.scopes.tail, hm.table.trans (congrArg (List.foldl Place.record · _) ht),
        hm.errors.trans (congrArg (· ++ _) he), hm.functionKind.trans hf, rfl⟩
    refine hw.cons rfl ?_ rfl rfl rfl
    simp [Place.violations, Part.violations]
  | .classDecl id name (some ref) methods, r, Γ, h => by
    obtain ⟨he, ht, hf, -, hs⟩ :=
      declareReady_walk (r := { r with classKind := .plain }) h.scopes name
    have hv := resolveSuperclass_walk hs .subclass name ref
    have hsuper := ScopesAre.cons (ScopesAre.singleton_ready? (.super id) "super") hv.scopes
    have hfk : r.functionKind = .none ↔ (Γ.declareReady name.lexeme).inFunction = false := by
      rw [Nesting.inFunction_congr (Nesting.openers_declareReady Γ _)]
      exact h.functionKind
    rw [← hf, ← hv.functionKind] at hfk
    have hm := resolveMethods_walk methods
      (At.inThis (r := Resolver.openScope _ _) hsuper hfk id methods true hv.classKind)
    have hw : Walk { r with errors := r.errors ++ (Γ.redeclared name ++
          if ref.name.lexeme = name.lexeme then [⟨.selfInheritance, ref.name⟩] else []) }
        (Expr.places? (Γ.declareReady name.lexeme) (some (.var ref)) ++
          placesOfMethods (Γ.inMethods id name (some ref) methods) methods)
        (r.resolveStmt (.classDecl id name (some ref) methods)) (Γ.declareReady name.lexeme) := by
      refine ⟨hm.scopes.tail.tail, hm.table.trans ?_, hm.errors.trans ?_,
        hm.functionKind.trans (hv.functionKind.trans hf), rfl⟩
      · rw [List.foldl_append]
        exact congrArg (List.foldl Place.record · _)
          (hv.table.trans (congrArg (List.foldl Place.record · _) ht))
      · rw [List.flatMap_append, ← List.append_assoc]
        refine congrArg (· ++ _) (hv.errors.trans ?_)
        rw [← List.append_assoc]
        exact congrArg (· ++ _ ++ _) he
    exact hw.cons rfl rfl rfl rfl rfl

/-- The walk over a function or method, before which the doubled parameters are reported. -/
theorem resolveFunction_walk : ∀ (f : FunctionDecl) {r : Resolver} {Γ : Nesting}
    {kind : FunctionKind}, kind ≠ .none → r.At Γ →
    Walk { r with errors := r.errors ++ f.redeclaredParams } (placesInFunction Γ f)
      (r.resolveFunction kind f) Γ
  | ⟨id, name, params, body⟩, r, Γ, kind, hkind, h => by
    obtain ⟨he, ht, -, hc, -⟩ := enteredFunction_walk h.scopes kind ⟨id, name, params, body⟩
    have hb := resolveStmts_walk body (h.inCall hkind ⟨id, name, params, body⟩)
    have hs := hb.scopes.tail
    rw [Nesting.tail_afterAll] at hs
    refine ⟨hs, hb.table.trans ?_, hb.errors.trans ?_, rfl, hb.classKind.trans hc⟩
    · rw [ht]
      rfl
    · rw [he]
      rfl

theorem resolveStmts_walk : ∀ (ss : List Stmt) {r : Resolver} {Γ : Nesting}, r.At Γ →
    Walk r (placesOfBody Γ ss) (r.resolveStmts ss) (Γ.afterAll ss)
  | [], _, _, h => Walk.refl h.scopes
  | s :: ss, _, Γ, h => by
    have hs := resolveStmt_walk s h
    exact hs.append (resolveStmts_walk ss (hs.at_next h (Nesting.openers_after Γ s)))

theorem resolveMethods_walk : ∀ (fs : List FunctionDecl) {r : Resolver} {Γ : Nesting}, r.At Γ →
    Walk r (placesOfMethods Γ fs) (r.resolveMethods fs) Γ
  | [], _, _, h => Walk.refl h.scopes
  | f :: fs, r, Γ, h => by
    have hf := resolveFunction_walk f (methodKind_ne_none f) h
    have hm := Walk.cons (r := r) (P := ⟨Γ, .method f⟩) hf rfl rfl rfl rfl rfl
    exact hm.append (resolveMethods_walk fs (hm.at_same h))

end

theorem start_at : ({} : Resolver).At [] where
  scopes := .nil
  functionKind := by simp [Nesting.inFunction]
  classKind := rfl

end Resolver

namespace Program

theorem resolve_walk (p : Program) : Resolver.Walk {} p.places p.resolve (Nesting.afterAll [] p) :=
  Resolver.resolveStmts_walk p Resolver.start_at

/-- The table of a program is made of the entries of its nodes. -/
theorem resolve_table (p : Program) : p.resolve.table = p.places.foldl Place.record ∅ :=
  p.resolve_walk.table

/-- The errors of a program are those of its nodes. -/
theorem resolve_errors (p : Program) : p.resolve.errors = p.places.flatMap Place.violations := by
  rw [p.resolve_walk.errors]
  exact List.nil_append _

/-- In a program without errors no node breaks a rule. -/
theorem violations_eq_nil {p : Program} (h : p.resolve.hasErrors = false) {P : Place}
    (hP : P ∈ p.places) : P.violations = [] := by
  rw [Resolver.hasErrors, Bool.not_eq_false', List.isEmpty_iff, resolve_errors,
    List.flatMap_eq_nil_iff] at h
  exact h P hP

end Program

end Lox
