import Lox.Proofs.Renaming.Syntax

/-!
# Resolving a renamed program

The resolver compares names with each other, and with `this`, `super` and `init`, and does nothing else with
them.  So its walks over a program and over the renamed one go the same way (`Resolver.Renamed`): their
scopes have the same entries under other names, and they make the same table and report the same errors, at
tokens of the same lines.
-/

namespace Lox

namespace Renaming

/-- A map has under the new names what another one has under the old ones. -/
def Carries (ρ : Renaming) {α : Type} (m m' : Std.ExtTreeMap String α) : Prop :=
  ∀ x : String, m'[ρ x]? = m[x]?

variable {ρ : Renaming} {α : Type} {m m' : Std.ExtTreeMap String α}

theorem carries_empty : ρ.Carries (∅ : Std.ExtTreeMap String α) ∅ := fun x => by simp

namespace Carries

theorem insert (h : ρ.Carries m m') (x : String) (a : α) :
    ρ.Carries (m.insert x a) (m'.insert (ρ x) a) := by
  intro y
  simp only [Std.ExtTreeMap.getElem?_insert, Std.LawfulEqCmp.compare_eq_iff_eq, ρ.eq_iff, h y]

theorem contains (h : ρ.Carries m m') (x : String) : m'.contains (ρ x) = m.contains x := by
  rw [Std.ExtTreeMap.contains_eq_isSome_getElem?, Std.ExtTreeMap.contains_eq_isSome_getElem?, h x]

end Carries

/-- One entry whose name is left alone. -/
theorem carries_singleton {x : String} (hx : ρ x = x) (a : α) :
    ρ.Carries ({(x, a)} : Std.ExtTreeMap String α) {(x, a)} := by
  have h := (carries_empty (ρ := ρ) (α := α)).insert x a
  rwa [hx] at h

end Renaming

/-- What is wrong, and in which line. -/
def StaticError.place (e : StaticError) : StaticCause × Int := (e.cause, e.token.line)

/-- The code of a diagnostic and its line. -/
def Diagnostic.place (d : Diagnostic) : String × Int := (d.code, d.line)

namespace Resolver

/-- Two walks have come equally far, one over a program and one over the renamed program. -/
structure Renamed (ρ : Renaming) (r r' : Resolver) : Prop where
  scopes : List.Forall₂ ρ.Carries r.scopes r'.scopes
  table : r'.table = r.table
  errors : r'.errors.map (·.place) = r.errors.map (·.place)
  functionKind : r'.functionKind = r.functionKind
  classKind : r'.classKind = r.classKind

variable {ρ : Renaming} {r r' : Resolver}

theorem renamed_start : Renamed ρ {} {} := ⟨.nil, rfl, rfl, rfl, rfl⟩

theorem methodKind_rename (f : FunctionDecl) : methodKind (f.rename ρ) = methodKind f := by
  simp only [methodKind, FunctionDecl.name_rename, Token.lexeme_rename, ρ.eq_init_iff]

namespace Renamed

/-! ### Scopes -/

theorem addError (h : Renamed ρ r r') (cause : StaticCause) {t t' : Token} (ht : t'.line = t.line) :
    Renamed ρ (r.addError cause t) (r'.addError cause t') where
  scopes := h.scopes
  table := h.table
  errors := by
    simp only [Resolver.addError, List.map_append, h.errors]
    simp [StaticError.place, ht]
  functionKind := h.functionKind
  classKind := h.classKind

theorem openScope (h : Renamed ρ r r') {scope scope' : StaticScope} (hs : ρ.Carries scope scope') :
    Renamed ρ (r.openScope scope) (r'.openScope scope') :=
  { h with scopes := .cons hs h.scopes }

theorem closeScope (h : Renamed ρ r r') : Renamed ρ r.closeScope r'.closeScope := by
  obtain ⟨scopes, _, _, _, _⟩ := r
  obtain ⟨scopes', _, _, _, _⟩ := r'
  cases h.scopes with
  | nil => exact h
  | cons _ hrest => exact { h with scopes := hrest }

theorem inFunction (h : Renamed ρ r r') (kind : FunctionKind) :
    Renamed ρ { r with functionKind := kind } { r' with functionKind := kind } :=
  { h with functionKind := rfl }

theorem inClass (h : Renamed ρ r r') (kind : ClassKind) :
    Renamed ρ { r with classKind := kind } { r' with classKind := kind } :=
  { h with classKind := rfl }

theorem mark (h : Renamed ρ r r') (x : String) (ready : Bool) :
    Renamed ρ (r.mark x ready) (r'.mark (ρ x) ready) := by
  obtain ⟨scopes, _, _, _, _⟩ := r
  obtain ⟨scopes', _, _, _, _⟩ := r'
  cases h.scopes with
  | nil => exact h
  | cons hs hrest => exact { h with scopes := .cons (hs.insert x ready) hrest }

theorem isDeclaredHere (h : Renamed ρ r r') (x : String) :
    r'.isDeclaredHere (ρ x) = r.isDeclaredHere x := by
  obtain ⟨scopes, _, _, _, _⟩ := r
  obtain ⟨scopes', _, _, _, _⟩ := r'
  cases h.scopes with
  | nil => rfl
  | cons hs _ => exact hs.contains x

theorem isInInitializer (h : Renamed ρ r r') (x : String) :
    r'.isInInitializer (ρ x) = r.isInInitializer x := by
  obtain ⟨scopes, _, _, _, _⟩ := r
  obtain ⟨scopes', _, _, _, _⟩ := r'
  cases h.scopes with
  | nil => rfl
  | cons hs _ => exact congrArg (· == some false) (hs x)

theorem declare (h : Renamed ρ r r') (name : Token) :
    Renamed ρ (r.declare name) (r'.declare (name.rename ρ)) := by
  unfold Resolver.declare
  rw [name.lexeme_rename, h.isDeclaredHere]
  split
  · exact (h.addError .duplicateDeclaration name.line_rename).mark name.lexeme false
  · exact h.mark name.lexeme false

theorem define (h : Renamed ρ r r') (name : Token) :
    Renamed ρ (r.define name) (r'.define (name.rename ρ)) :=
  h.mark name.lexeme true

theorem declareReady (h : Renamed ρ r r') (name : Token) :
    Renamed ρ (r.declareReady name) (r'.declareReady (name.rename ρ)) :=
  (h.declare name).define name

theorem declareAll (h : Renamed ρ r r') (params : List Token) :
    Renamed ρ (params.foldl Resolver.declareReady r)
      ((params.map (Token.rename ρ)).foldl Resolver.declareReady r') := by
  induction params generalizing r r' with
  | nil => exact h
  | cons name names ih => exact ih (h.declareReady name)

/-! ### Names -/

theorem distance? (h : Renamed ρ r r') (x : String) : r'.distance? (ρ x) = r.distance? x := by
  obtain ⟨scopes, _, _, _, _⟩ := r
  obtain ⟨scopes', _, _, _, _⟩ := r'
  have hscopes : List.Forall₂ ρ.Carries scopes scopes' := h.scopes
  show scopes'.findIdx? (·.contains (ρ x)) = scopes.findIdx? (·.contains x)
  clear h
  induction hscopes with
  | nil => rfl
  | cons hs _ ih => simp only [List.findIdx?_cons, hs.contains, ih]

theorem resolveName (h : Renamed ρ r r') (id : NodeId) (name : Token) :
    Renamed ρ (r.resolveName id name) (r'.resolveName id (name.rename ρ)) := by
  unfold Resolver.resolveName
  rw [name.lexeme_rename, h.distance?]
  cases r.distance? name.lexeme with
  | none => exact h
  | some d => exact { h with table := congrArg (·.insert id d) h.table }

/-- A keyword is looked up under its own name. -/
theorem resolveKeyword (h : Renamed ρ r r') (id : NodeId) {keyword : Token}
    (hk : ρ keyword.lexeme = keyword.lexeme) :
    Renamed ρ (r.resolveName id keyword) (r'.resolveName id keyword) := by
  have hname := h.resolveName id keyword
  rwa [Token.rename_eq_self hk] at hname

theorem resolveVar (h : Renamed ρ r r') (ref : VarRef) :
    Renamed ρ (r.resolveVar ref) (r'.resolveVar (ref.rename ρ)) := by
  unfold Resolver.resolveVar
  rw [show (ref.rename ρ).name.lexeme = ρ ref.name.lexeme from rfl, h.isInInitializer]
  split
  · exact (h.addError .selfInitializer ref.name.line_rename).resolveName ref.id ref.name
  · exact h.resolveName ref.id ref.name

end Renamed

/-! ### The walk -/

theorem renamed_this (h : Renamed ρ r r') (id : NodeId) {keyword : Token}
    (hk : keyword.lexeme = "this") :
    Renamed ρ (r.resolveExpr (.this id keyword)) (r'.resolveExpr (.this id keyword)) := by
  have hkeyword : ρ keyword.lexeme = keyword.lexeme := by rw [hk, ρ.this]
  rw [resolveExpr, resolveExpr, h.classKind]
  cases r.classKind with
  | none => exact h.addError .thisOutsideClass rfl
  | plain => exact h.resolveKeyword id hkeyword
  | subclass => exact h.resolveKeyword id hkeyword

theorem renamed_super (h : Renamed ρ r r') (id : NodeId) {keyword : Token} (method : Token)
    (hk : keyword.lexeme = "super") :
    Renamed ρ (r.resolveExpr (.super id keyword method))
      (r'.resolveExpr (.super id keyword (method.rename ρ))) := by
  have hkeyword : ρ keyword.lexeme = keyword.lexeme := by rw [hk, ρ.super]
  rw [resolveExpr, resolveExpr, h.classKind]
  cases r.classKind with
  | none => exact (h.addError .superOutsideClass rfl).resolveKeyword id hkeyword
  | plain => exact (h.addError .superWithoutSuperclass rfl).resolveKeyword id hkeyword
  | subclass => exact h.resolveKeyword id hkeyword

mutual

theorem renamed_expr : ∀ (e : Expr) {r r' : Resolver}, (Part.expr e).All Part.PlainKeyword →
    Renamed ρ r r' → Renamed ρ (r.resolveExpr e) (r'.resolveExpr (e.rename ρ))
  | .literal .., _, _, _, h => h
  | .var ref, _, _, _, h => h.resolveVar ref
  | .assign id target equals value, _, _, hk, h => by
    cases ht : target.asVariable? with
    | some ref =>
      obtain rfl := Expr.eq_var_of_asVariable? ht
      exact (renamed_expr value (hk.of_mem (by simp [Part.children, Expr.children, ht])) h).resolveName
        id ref.name
    | none =>
      have ht' : (target.rename ρ).asVariable? = none := by rw [Expr.asVariable?_rename, ht]; rfl
      have hv := renamed_expr value (hk.of_mem (by simp [Part.children, Expr.children, ht])) h
      rw [resolveExpr_assign_of_none ht, Expr.rename, resolveExpr_assign_of_none ht']
      exact renamed_expr target (hk.of_mem (by simp [Part.children, Expr.children, ht]))
        (hv.addError .invalidAssignmentTarget rfl)
  | .binary _ left _ right, _, _, hk, h =>
    renamed_expr right (hk.of_mem (by simp [Part.children, Expr.children]))
      (renamed_expr left (hk.of_mem List.mem_cons_self) h)
  | .logical _ left _ right, _, _, hk, h =>
    renamed_expr right (hk.of_mem (by simp [Part.children, Expr.children]))
      (renamed_expr left (hk.of_mem List.mem_cons_self) h)
  | .unary _ _ operand, _, _, hk, h => renamed_expr operand (hk.of_mem List.mem_cons_self) h
  | .grouping _ inner, _, _, hk, h => renamed_expr inner (hk.of_mem List.mem_cons_self) h
  | .call _ callee _ arguments, _, _, hk, h =>
    renamed_exprs arguments (fun e he => hk.of_mem (List.mem_cons_of_mem _ (List.mem_map_of_mem he)))
      (renamed_expr callee (hk.of_mem List.mem_cons_self) h)
  | .get _ object _, _, _, hk, h => renamed_expr object (hk.of_mem List.mem_cons_self) h
  | .set _ object _ value, _, _, hk, h =>
    renamed_expr object (hk.of_mem List.mem_cons_self)
      (renamed_expr value (hk.of_mem (by simp [Part.children, Expr.children])) h)
  | .this id keyword, _, _, hk, h => renamed_this h id hk.self
  | .super id keyword method, _, _, hk, h => renamed_super h id method hk.self

theorem renamed_exprs : ∀ (es : List Expr) {r r' : Resolver},
    (∀ e ∈ es, (Part.expr e).All Part.PlainKeyword) → Renamed ρ r r' →
    Renamed ρ (r.resolveExprs es) (r'.resolveExprs (Expr.renameAll ρ es))
  | [], _, _, _, h => h
  | e :: es, _, _, hk, h =>
    renamed_exprs es (fun e he => hk e (List.mem_cons_of_mem _ he))
      (renamed_expr e (hk e List.mem_cons_self) h)

end

theorem renamed_expr? {e : Option Expr} (hk : ∀ e' ∈ e, (Part.expr e').All Part.PlainKeyword)
    (h : Renamed ρ r r') : Renamed ρ (r.resolveExpr? e) (r'.resolveExpr? (e.map (Expr.rename ρ))) := by
  cases e with
  | none => exact h
  | some e => exact renamed_expr e (hk e rfl) h

theorem renamed_enterSuperclass (h : Renamed ρ r r') (name : Token) (superclass : Option VarRef) :
    Renamed ρ (r.enterSuperclass name superclass)
      (r'.enterSuperclass (name.rename ρ) (superclass.map (VarRef.rename ρ))) := by
  cases superclass with
  | none => exact h
  | some ref =>
    have hsuper : ρ.Carries ({("super", true)} : StaticScope) {("super", true)} :=
      Renaming.carries_singleton ρ.super true
    simp only [Option.map_some, enterSuperclass, VarRef.rename, Token.rename, ρ.eq_iff]
    split
    · exact (((h.addError .selfInheritance ref.name.line_rename).inClass .subclass).resolveVar ref).openScope hsuper
    · exact ((h.inClass .subclass).resolveVar ref).openScope hsuper

mutual

theorem renamed_stmt : ∀ (s : Stmt) {r r' : Resolver}, (Part.stmt s).All Part.PlainKeyword →
    Renamed ρ r r' → Renamed ρ (r.resolveStmt s) (r'.resolveStmt (s.rename ρ))
  | .block _ body, _, _, hk, h =>
    (renamed_stmts body (fun s hs => hk.of_mem (List.mem_map_of_mem hs))
      (h.openScope Renaming.carries_empty)).closeScope
  | .expression _ e, _, _, hk, h => renamed_expr e (hk.of_mem List.mem_cons_self) h
  | .print _ e, _, _, hk, h => renamed_expr e (hk.of_mem List.mem_cons_self) h
  | .varDecl _ name initializer, _, _, hk, h =>
    (renamed_expr? (fun e he => hk.of_mem (List.mem_map_of_mem (Option.mem_toList.2 he)))
      (h.declare name)).define name
  | .branch _ condition thenBranch none, _, _, hk, h =>
    renamed_stmt thenBranch (hk.of_mem (by simp [Part.children]))
      (renamed_expr condition (hk.of_mem List.mem_cons_self) h)
  | .branch _ condition thenBranch (some elseBranch), _, _, hk, h =>
    renamed_stmt elseBranch (hk.of_mem (by simp [Part.children]))
      (renamed_stmt thenBranch (hk.of_mem (by simp [Part.children]))
        (renamed_expr condition (hk.of_mem List.mem_cons_self) h))
  | .loop _ condition body, _, _, hk, h =>
    renamed_stmt body (hk.of_mem (by simp [Part.children]))
      (renamed_expr condition (hk.of_mem List.mem_cons_self) h)
  | .function f, _, _, hk, h => by
    have hf := renamed_function f .function (hk.method fun _ => trivial) (h.declareReady f.name)
    rwa [← FunctionDecl.name_rename] at hf
  | .ret _ keyword value, r, r', hk, h => by
    have hv : ∀ e ∈ value, (Part.expr e).All Part.PlainKeyword := fun e he =>
      hk.of_mem (List.mem_map_of_mem (Option.mem_toList.2 he))
    simp only [Stmt.rename, resolveStmt, h.functionKind]
    split
    · exact renamed_expr? hv (h.addError .topLevelReturn rfl)
    · exact renamed_expr? hv h
  | .classDecl _ name superclass methods, r, r', hk, h => by
    have hm : ∀ f ∈ methods, (Part.method f).All Part.PlainKeyword := fun f hf =>
      hk.of_mem (List.mem_append_right _ (List.mem_map_of_mem hf))
    have hthis : ρ.Carries ({("this", true)} : StaticScope) {("this", true)} :=
      Renaming.carries_singleton ρ.this true
    have hentered := renamed_enterSuperclass ((h.inClass .plain).declareReady name) name superclass
    have hwalked := (renamed_methods methods hm (hentered.openScope hthis)).closeScope
    simp only [Stmt.rename, resolveStmt, h.classKind, Option.isSome_map]
    split
    · exact hwalked.closeScope.inClass r.classKind
    · exact hwalked.inClass r.classKind

theorem renamed_function : ∀ (f : FunctionDecl) (kind : FunctionKind) {r r' : Resolver},
    (Part.method f).All Part.PlainKeyword → Renamed ρ r r' →
    Renamed ρ (r.resolveFunction kind f) (r'.resolveFunction kind (f.rename ρ))
  | ⟨_, _, params, body⟩, kind, r, r', hk, h => by
    have hentered := ((h.inFunction kind).openScope Renaming.carries_empty).declareAll params
    have hb := renamed_stmts body (fun s hs => hk.of_mem (List.mem_map_of_mem hs)) hentered
    simp only [FunctionDecl.rename, resolveFunction, h.functionKind]
    exact hb.closeScope.inFunction r.functionKind

theorem renamed_stmts : ∀ (ss : List Stmt) {r r' : Resolver},
    (∀ s ∈ ss, (Part.stmt s).All Part.PlainKeyword) → Renamed ρ r r' →
    Renamed ρ (r.resolveStmts ss) (r'.resolveStmts (Stmt.renameAll ρ ss))
  | [], _, _, _, h => h
  | s :: ss, _, _, hk, h =>
    renamed_stmts ss (fun s hs => hk s (List.mem_cons_of_mem _ hs))
      (renamed_stmt s (hk s List.mem_cons_self) h)

theorem renamed_methods : ∀ (fs : List FunctionDecl) {r r' : Resolver},
    (∀ f ∈ fs, (Part.method f).All Part.PlainKeyword) → Renamed ρ r r' →
    Renamed ρ (r.resolveMethods fs) (r'.resolveMethods (FunctionDecl.renameAll ρ fs))
  | [], _, _, _, h => h
  | f :: fs, _, _, hk, h => by
    have hf := renamed_function f (methodKind f) (hk f List.mem_cons_self) h
    rw [FunctionDecl.renameAll, resolveMethods, resolveMethods, methodKind_rename]
    exact renamed_methods fs (fun f hf => hk f (List.mem_cons_of_mem _ hf)) hf

end

end Resolver

namespace Program

variable {ρ : Renaming} {p : Program}

/-- Renaming changes nothing that the resolver finds but the names in the errors. -/
theorem resolve_renamed (hp : (Part.program p).All Part.PlainKeyword) :
    Resolver.Renamed ρ p.resolve (p.rename ρ).resolve :=
  Resolver.renamed_stmts p (fun _ hs => hp.of_mem (List.mem_map_of_mem hs)) Resolver.renamed_start

theorem diagnostics_rename (hp : (Part.program p).All Part.PlainKeyword) :
    (p.rename ρ).resolve.diagnostics.map (·.place) = p.resolve.diagnostics.map (·.place) := by
  have h := congrArg (List.map fun e : StaticCause × Int => (e.1.code, e.2))
    (resolve_renamed (ρ := ρ) hp).errors
  rw [List.map_map, List.map_map] at h
  rw [Resolver.diagnostics, Resolver.diagnostics, List.map_map, List.map_map]
  exact h

theorem hasErrors_rename (hp : (Part.program p).All Part.PlainKeyword) :
    (p.rename ρ).resolve.hasErrors = p.resolve.hasErrors := by
  have h := congrArg List.isEmpty (resolve_renamed (ρ := ρ) hp).errors
  rw [List.isEmpty_map, List.isEmpty_map] at h
  rw [Resolver.hasErrors, Resolver.hasErrors, h]

end Program

end Lox
