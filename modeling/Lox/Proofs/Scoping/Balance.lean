import Lox.Proofs.Scoping.Declarations
import Lox.Proofs.Scoping.Walk

/-!
# Walks of the resolver are balanced

A walk over a statement or an expression may start in any state: on any stack of scopes, with any
table and any errors, inside of any kind of function and class.  What it leaves behind is told
without running it.

* The stack has the height it had, and its scopes are the ones it had; only the innermost one gains
  the names the statement declares there (`Stmt.declared`), all of them ready.
* The table is the one before with some distances recorded.  Each belongs to a node of the part that
  is walked over, and is smaller than the number of scopes that are open at that node.
* Errors are appended, and the kinds of the enclosing function and class are those from before.

None of it depends on whether errors are reported on the way.  So a resolver has an empty stack after
a program, whatever it resolved before.
-/

namespace Lox

/-- The names a statement declares in the scope it stands in, in the order of their declarations.
What a block or a body declares lies in a scope of its own. -/
def Stmt.declared : Stmt → List String
  | .varDecl _ name _ => [name.lexeme]
  | .branch _ _ thenBranch elseBranch =>
    match elseBranch with
    | none => declared thenBranch
    | some elseBranch => declared thenBranch ++ declared elseBranch
  | .loop _ _ body => declared body
  | .function f => [f.name.lexeme]
  | .classDecl _ name _ _ => [name.lexeme]
  | _ => []

namespace Part

/-- How many scopes a part opens around an address inside of it. -/
def depth (t : Part) (a : Address) : Nat := (t.regions [] a).length

theorem length_regions (here there : Address) (t : Part) (a : Address) :
    (t.regions here a).length = (t.regions there a).length := by
  induction a generalizing here there t with
  | nil => rfl
  | cons i a ih =>
    rw [regions, regions, List.length_append, List.length_append, List.length_map, List.length_map]
    cases t.children[i]? with
    | none => rfl
    | some c => exact congrArg (· + _) (ih _ _ c)

theorem depth_cons {t c : Part} {i : Nat} (h : t.children[i]? = some c) (a : Address) :
    t.depth (i :: a) = c.depth a + (t.opens i).length := by
  unfold depth
  rw [regions_cons [] a h, List.length_append, List.length_map, length_regions ([] ++ [i]) []]

theorem mem_declared_iff : ∀ (s : Stmt) (x : String), x ∈ s.declared ↔ (stmt s).DeclaresHere x
  | .varDecl .., x => by
    rw [declaresHere_closed x fun _ _ hc _ => expr_of_children _ rfl hc]
    simp [Stmt.declared, declares?, eq_comm]
  | .function _, x => by
    rw [declaresHere_closed x fun _ _ _ ho => by cases ho]
    simp [Stmt.declared, declares?, eq_comm]
  | .classDecl _ _ superclass _, x => by
    rw [declaresHere_closed x fun i c hc ho => ?_]
    · simp [Stmt.declared, declares?, eq_comm]
    · cases superclass with
      | none => cases ho
      | some ref =>
        cases i with
        | zero =>
          cases hc
          exact ⟨_, rfl⟩
        | succ i => cases ho
  | .branch _ _ thenBranch none, x => by
    simp [declaresHere_branch, Stmt.declared, mem_declared_iff thenBranch]
  | .branch _ _ thenBranch (some elseBranch), x => by
    simp [declaresHere_branch, Stmt.declared, mem_declared_iff thenBranch,
      mem_declared_iff elseBranch]
  | .loop _ _ body, x => by rw [declaresHere_loop, Stmt.declared, mem_declared_iff body]
  | .block .., x => by
    rw [declaresHere_closed x fun _ _ _ ho => by cases ho]
    simp [Stmt.declared, declares?]
  | .expression _ e, x => by
    rw [declaresHere_closed x fun _ _ hc _ => expr_of_children [e] rfl hc]
    simp [Stmt.declared, declares?]
  | .print _ e, x => by
    rw [declaresHere_closed x fun _ _ hc _ => expr_of_children [e] rfl hc]
    simp [Stmt.declared, declares?]
  | .ret .., x => by
    rw [declaresHere_closed x fun _ _ hc _ => expr_of_children _ rfl hc]
    simp [Stmt.declared, declares?]

/-- A distance that may be recorded for a node of a part, when `k` scopes are open around the part:
it leads to one of the scopes that are open at the node. -/
def Records (t : Part) (k : Nat) (id : NodeId) (d : Nat) : Prop :=
  ∃ a u, t.at? a = some u ∧ u.id? = some id ∧ d < k + t.depth a

variable {t c : Part} {k k' d : Nat} {id : NodeId}

theorem Records.self (hid : t.id? = some id) (hd : d < k) : t.Records k id d :=
  ⟨[], t, rfl, hid, Nat.lt_of_lt_of_le hd (Nat.le_add_right _ _)⟩

theorem Records.of_child {i : Nat} (hc : t.children[i]? = some c)
    (hk : k' = k + (t.opens i).length) (h : c.Records k' id d) : t.Records k id d := by
  obtain ⟨a, u, ha, hu, hd⟩ := h
  refine ⟨i :: a, u, ?_, hu, ?_⟩
  · rw [at?_cons, hc]
    exact ha
  · rw [depth_cons hc]
    omega

/-- A distance that may be recorded for a node of one of several parts that stand side by side. -/
def RecordsAmong (cs : List Part) (k : Nat) (id : NodeId) (d : Nat) : Prop :=
  ∃ c ∈ cs, c.Records k id d

theorem RecordsAmong.of_children {cs : List Part} (h : RecordsAmong cs k' id d)
    (hc : ∀ c ∈ cs, ∃ i, t.children[i]? = some c ∧ k' = k + (t.opens i).length) :
    t.Records k id d := by
  obtain ⟨c, hmem, hd⟩ := h
  obtain ⟨i, hi, hk⟩ := hc c hmem
  exact hd.of_child hi hk

theorem Records.hasNode (h : t.Records k id d) : t.HasNode id := by
  obtain ⟨a, u, ha, hu, -⟩ := h
  exact ⟨a, u, ha, hu⟩

/-- A function has the same nodes, at the same depths, as a declaration and as a method. -/
theorem Records.of_method {f : FunctionDecl} (h : (method f).Records k id d) :
    (stmt (.function f)).Records k id d := by
  obtain ⟨a, u, ha, hu, hd⟩ := h
  cases a with
  | nil =>
    cases ha
    exact Records.self hu hd
  | cons i a => exact ⟨i :: a, u, ha, hu, hd⟩

end Part

namespace Resolver

/-! ### Names and distances that are added -/

/-- A stack of scopes after names are added to the innermost one, ready for reading. -/
def addReady (names : List String) : List StaticScope → List StaticScope
  | [] => []
  | scope :: outer => names.foldl (fun s x => s.insert x true) scope :: outer

@[simp] theorem addReady_nil (scopes : List StaticScope) : addReady [] scopes = scopes := by
  cases scopes <;> rfl

theorem addReady_append (xs ys : List String) (scopes : List StaticScope) :
    addReady (xs ++ ys) scopes = addReady ys (addReady xs scopes) := by
  cases scopes with
  | nil => rfl
  | cons scope outer => simp [addReady, List.foldl_append]

@[simp] theorem length_addReady (names : List String) (scopes : List StaticScope) :
    (addReady names scopes).length = scopes.length := by
  cases scopes <;> rfl

@[simp] theorem tail_addReady (names : List String) (scopes : List StaticScope) :
    (addReady names scopes).tail = scopes.tail := by
  cases scopes <;> rfl

theorem getElem?_foldl_insert (names : List String) (scope : StaticScope) (x : String) :
    (names.foldl (fun s x => s.insert x true) scope)[x]? =
      if x ∈ names then some true else scope[x]? := by
  induction names generalizing scope with
  | nil => simp
  | cons y names ih =>
    rw [List.foldl_cons, ih, Std.ExtTreeMap.getElem?_insert]
    by_cases hy : y = x
    · simp [hy]
    · simp [hy, Ne.symm hy]

/-- A name that is marked twice has the second mark. -/
theorem mark_true_of_mark_false {r r' : Resolver} {x : String}
    (h : r'.scopes = (r.mark x false).scopes) : (r'.mark x true).scopes = addReady [x] r.scopes := by
  obtain ⟨scopes, table, errors, fk, ck⟩ := r
  obtain ⟨scopes', table', errors', fk', ck'⟩ := r'
  cases scopes with
  | nil =>
    obtain rfl : scopes' = [] := h
    rfl
  | cons scope outer =>
    obtain rfl : scopes' = scope.insert x false :: outer := h
    show (scope.insert x false).insert x true :: outer = [scope.insert x true] ++ outer
    rw [List.singleton_append]
    congr 1
    refine Std.ExtTreeMap.ext_getElem? fun y => ?_
    rw [Std.ExtTreeMap.getElem?_insert, Std.ExtTreeMap.getElem?_insert,
      Std.ExtTreeMap.getElem?_insert]
    split <;> rfl

/-- A table after more distances are recorded, in the order in which they are listed. -/
def recordAll (table : Resolution) (news : List (NodeId × Nat)) : Resolution :=
  news.foldl (fun table e => table.insert e.1 e.2) table

theorem mem_recordAll {table : Resolution} {id : NodeId} (h : id ∈ table)
    (news : List (NodeId × Nat)) : id ∈ recordAll table news := by
  induction news generalizing table with
  | nil => exact h
  | cons e news ih => exact ih (Std.ExtTreeMap.mem_insert.2 (.inr h))

theorem getElem?_recordAll {news : List (NodeId × Nat)} {id : NodeId} (h : ∀ e ∈ news, e.1 ≠ id)
    (table : Resolution) : (recordAll table news)[id]? = table[id]? := by
  induction news generalizing table with
  | nil => rfl
  | cons e news ih =>
    show (recordAll (table.insert e.1 e.2) news)[id]? = _
    rw [ih (fun e' he' => h e' (List.mem_cons_of_mem _ he')), Std.ExtTreeMap.getElem?_insert]
    simp [h e List.mem_cons_self]

/-! ### Balance -/

/-- What a walk from `r` to `r'` leaves behind: `names` are added to the innermost scope, and the
distances it records are of the kind `E`. -/
structure Balanced (r : Resolver) (names : List String) (E : NodeId → Nat → Prop)
    (r' : Resolver) : Prop where
  scopes : r'.scopes = addReady names r.scopes
  table : ∃ news, r'.table = recordAll r.table news ∧ ∀ e ∈ news, E e.1 e.2
  errors : r.errors <+: r'.errors
  functionKind : r'.functionKind = r.functionKind
  classKind : r'.classKind = r.classKind

namespace Balanced

variable {r r' r'' : Resolver} {xs ys : List String} {E F : NodeId → Nat → Prop}

theorem refl (r : Resolver) (E : NodeId → Nat → Prop) : Balanced r [] E r :=
  ⟨(addReady_nil _).symm, ⟨[], rfl, by simp⟩, List.prefix_rfl, rfl, rfl⟩

theorem append (h : Balanced r xs E r') (h' : Balanced r' ys E r'') :
    Balanced r (xs ++ ys) E r'' where
  scopes := by rw [h'.scopes, h.scopes, addReady_append]
  table := by
    obtain ⟨news, ht, hE⟩ := h.table
    obtain ⟨news', ht', hE'⟩ := h'.table
    refine ⟨news ++ news', ?_, fun e he => (List.mem_append.1 he).elim (hE e) (hE' e)⟩
    rw [ht', ht, recordAll, recordAll, recordAll, List.foldl_append]
  errors := h.errors.trans h'.errors
  functionKind := h'.functionKind.trans h.functionKind
  classKind := h'.classKind.trans h.classKind

theorem mono (h : Balanced r xs E r') (hEF : ∀ id d, E id d → F id d) : Balanced r xs F r' where
  scopes := h.scopes
  table := by
    obtain ⟨news, ht, hE⟩ := h.table
    exact ⟨news, ht, fun e he => hEF _ _ (hE e he)⟩
  errors := h.errors
  functionKind := h.functionKind
  classKind := h.classKind

theorem length_eq (h : Balanced r xs E r') : r'.scopes.length = r.scopes.length := by
  rw [h.scopes, length_addReady]

/-- What is recorded in a child is recorded in its parent. -/
theorem of_child {t c : Part} {i k k' : Nat} (h : Balanced r xs (c.Records k') r')
    (hc : t.children[i]? = some c) (hk : k' = k + (t.opens i).length) :
    Balanced r xs (t.Records k) r' :=
  h.mono fun _ _ => Part.Records.of_child hc hk

theorem of_children {t : Part} {cs : List Part} {k k' : Nat}
    (h : Balanced r xs (Part.RecordsAmong cs k') r')
    (hc : ∀ c ∈ cs, ∃ i, t.children[i]? = some c ∧ k' = k + (t.opens i).length) :
    Balanced r xs (t.Records k) r' :=
  h.mono fun _ _ hd => hd.of_children hc

/-- A walk over one part and then over the parts that come after it. -/
theorem cons {c : Part} {cs : List Part} {k : Nat} (h : Balanced r xs (c.Records k) r')
    (h' : Balanced r' ys (Part.RecordsAmong cs k) r'') :
    Balanced r (xs ++ ys) (Part.RecordsAmong (c :: cs) k) r'' := by
  refine append (h.mono fun id d hd => ⟨c, List.mem_cons_self, hd⟩) (h'.mono fun id d hd => ?_)
  obtain ⟨c', hc', hd⟩ := hd
  exact ⟨c', List.mem_cons_of_mem _ hc', hd⟩

theorem addError (r : Resolver) (cause : StaticCause) (token : Token) :
    Balanced r [] E (r.addError cause token) :=
  ⟨(addReady_nil _).symm, ⟨[], rfl, by simp⟩, List.prefix_append _ _, rfl, rfl⟩

/-- An error that is reported only in some cases. -/
theorem addError_if (r : Resolver) (b : Prop) [Decidable b] (cause : StaticCause) (token : Token) :
    Balanced r [] E (if b then r.addError cause token else r) := by
  by_cases hb : b
  · rw [if_pos hb]
    exact addError r cause token
  · rw [if_neg hb]
    exact refl r E

/-- A scope that is opened around a walk and closed after it. -/
theorem inScope {scope : StaticScope} (h : Balanced (r.openScope scope) xs E r') :
    Balanced r [] E r'.closeScope where
  scopes := by
    show r'.scopes.tail = _
    rw [h.scopes, tail_addReady, addReady_nil]
    rfl
  table := h.table
  errors := h.errors
  functionKind := h.functionKind
  classKind := h.classKind

/-- A kind of function that is set around a walk and restored after it. -/
theorem inFunction {kind : FunctionKind} (h : Balanced { r with functionKind := kind } xs E r') :
    Balanced r xs E { r' with functionKind := r.functionKind } :=
  ⟨h.scopes, h.table, h.errors, rfl, h.classKind⟩

/-- A kind of class that is set around a walk and restored after it. -/
theorem inClass {kind : ClassKind} (h : Balanced { r with classKind := kind } xs E r') :
    Balanced r xs E { r' with classKind := r.classKind } :=
  ⟨h.scopes, h.table, h.errors, h.functionKind, rfl⟩

/-- A name that is declared before a walk and defined after it. -/
theorem declared {name : Token} (h : Balanced (r.declare name) [] E r') :
    Balanced r [name.lexeme] E (r'.define name) := by
  have hd : Balanced r [] E (if r.isDeclaredHere name.lexeme then
      r.addError .duplicateDeclaration name else r) := addError_if r _ _ _
  have hs : (if r.isDeclaredHere name.lexeme then r.addError .duplicateDeclaration name
      else r).scopes = r.scopes := by rw [hd.scopes, addReady_nil]
  refine ⟨?_, ?_, ?_, ?_, ?_⟩
  · rw [define, mark_true_of_mark_false (h.scopes.trans (addReady_nil _)), hs]
  · obtain ⟨news, ht, hE⟩ := h.table
    refine ⟨news, ?_, hE⟩
    rw [define, mark_table, ht, declare, mark_table]
    split <;> rfl
  · rw [define, mark_errors]
    refine List.IsPrefix.trans ?_ h.errors
    rw [declare, mark_errors]
    exact hd.errors
  · rw [define, mark_functionKind, h.functionKind, declare, mark_functionKind]
    exact hd.functionKind
  · rw [define, mark_classKind, h.classKind, declare, mark_classKind]
    exact hd.classKind

end Balanced

variable {r r' : Resolver} {E : NodeId → Nat → Prop}

theorem declareReady_balanced (r : Resolver) (name : Token) :
    Balanced r [name.lexeme] E (r.declareReady name) :=
  (Balanced.refl _ E).declared

theorem foldl_declareReady_balanced (params : List Token) (r : Resolver) :
    Balanced r (params.map (·.lexeme)) E (params.foldl declareReady r) := by
  induction params generalizing r with
  | nil => exact Balanced.refl r E
  | cons p params ih => exact (declareReady_balanced r p).append (ih (r.declareReady p))

/-- A lookup finds a scope that is on the stack. -/
theorem resolveName_balanced (r : Resolver) {t : Part} {id : NodeId} (hid : t.id? = some id)
    (name : Token) : Balanced r [] (t.Records r.scopes.length) (r.resolveName id name) := by
  unfold resolveName
  cases hd : r.distance? name.lexeme with
  | none => exact Balanced.refl r _
  | some d =>
    have hlt : d < r.scopes.length := (List.findIdx?_eq_some_iff_findIdx_eq.1 hd).1
    refine ⟨(addReady_nil _).symm, ⟨[(id, d)], rfl, ?_⟩, List.prefix_rfl, rfl, rfl⟩
    intro e he
    obtain rfl := List.mem_singleton.1 he
    exact Part.Records.self hid hlt

theorem resolveVar_balanced (r : Resolver) (ref : VarRef) :
    Balanced r [] ((Part.expr (.var ref)).Records r.scopes.length) (r.resolveVar ref) := by
  have he := Balanced.addError_if (E := (Part.expr (.var ref)).Records r.scopes.length) r
    (r.isInInitializer ref.name.lexeme) .selfInitializer ref.name
  have hn := resolveName_balanced (if r.isInInitializer ref.name.lexeme then
    r.addError .selfInitializer ref.name else r) (t := .expr (.var ref)) rfl ref.name
  rw [he.length_eq] at hn
  exact he.append hn

theorem length_enterSuperclass (r : Resolver) (name : Token) (ref : VarRef) :
    (r.enterSuperclass name (some ref)).scopes.length = r.scopes.length + 1 := by
  have he := Balanced.addError_if (E := fun _ _ => True) r (ref.name.lexeme = name.lexeme)
    .selfInheritance ref.name
  exact congrArg (· + 1) ((resolveVar_balanced _ ref).length_eq.trans he.length_eq)

/-- What is walked over inside of a subclass, and the walk over the superclass before it. -/
theorem enterSuperclass_balanced {name : Token} {ref : VarRef}
    (hE : ∀ id d, (Part.expr (.var ref)).Records r.scopes.length id d → E id d)
    (h : Balanced (r.enterSuperclass name (some ref)) [] E r') :
    Balanced r [] E { r'.closeScope with classKind := r.classKind } := by
  have he := Balanced.addError_if (E := E) r (ref.name.lexeme = name.lexeme) .selfInheritance ref.name
  have hv := resolveVar_balanced { (if ref.name.lexeme = name.lexeme then
    r.addError .selfInheritance ref.name else r) with classKind := .subclass } ref
  have hw := (hv.mono fun id d hd => hE id d (he.length_eq ▸ hd)).append h.inScope
  have hc := he.append hw.inClass
  rwa [he.classKind] at hc

/-! ### The walk -/

/-- The children of a part that opens the same scopes around all of them. -/
theorem mem_children {t c : Part} {cs : List Part} {k k' : Nat} (hc : c ∈ cs)
    (ht : t.children = cs) (hk : ∀ i, k' = k + (t.opens i).length) :
    ∃ i, t.children[i]? = some c ∧ k' = k + (t.opens i).length := by
  obtain ⟨i, hi⟩ := List.getElem?_of_mem hc
  exact ⟨i, by rw [ht, hi], hk i⟩

theorem length_mark (r : Resolver) (x : String) (b : Bool) :
    (r.mark x b).scopes.length = r.scopes.length := by
  unfold mark
  split
  · rfl
  · next h => simp [h]

theorem length_declare (r : Resolver) (name : Token) :
    (r.declare name).scopes.length = r.scopes.length := by
  rw [declare, length_mark]
  split <;> rfl

mutual

theorem resolveExpr_balanced : ∀ (e : Expr) (r : Resolver),
    Balanced r [] ((Part.expr e).Records r.scopes.length) (r.resolveExpr e)
  | .literal .., r => Balanced.refl r _
  | .var ref, r => resolveVar_balanced r ref
  | .assign id target equals value, r => by
    have hv := resolveExpr_balanced value r
    have hlen := hv.length_eq
    cases ht : target.asVariable? with
    | some ref =>
      obtain rfl := Expr.eq_var_of_asVariable? ht
      have hn := resolveName_balanced (r.resolveExpr value)
        (t := .expr (.assign id (.var ref) equals value)) rfl ref.name
      rw [hlen] at hn
      exact (hv.of_child (i := 0) rfl rfl).append hn
    | none =>
      have hc : (Part.expr (.assign id target equals value)).children =
          [.expr value, .expr target] := by
        simp [Part.children, Expr.children, ht]
      have hw := resolveExpr_balanced target
        ((r.resolveExpr value).addError .invalidAssignmentTarget equals)
      rw [resolveExpr_assign_of_none ht]
      refine (hv.of_child (i := 0) (by rw [hc]; rfl) rfl).append ?_
      refine (Balanced.addError _ _ _).append (hw.of_child (i := 1) (by rw [hc]; rfl) hlen)
  | .binary _ left _ right, r => by
    have hl := resolveExpr_balanced left r
    have hr := resolveExpr_balanced right (r.resolveExpr left)
    exact (hl.of_child (i := 0) rfl rfl).append (hr.of_child (i := 1) rfl hl.length_eq)
  | .logical _ left _ right, r => by
    have hl := resolveExpr_balanced left r
    have hr := resolveExpr_balanced right (r.resolveExpr left)
    exact (hl.of_child (i := 0) rfl rfl).append (hr.of_child (i := 1) rfl hl.length_eq)
  | .unary _ _ operand, r => (resolveExpr_balanced operand r).of_child (i := 0) rfl rfl
  | .grouping _ inner, r => (resolveExpr_balanced inner r).of_child (i := 0) rfl rfl
  | .call id callee paren arguments, r => by
    have hc := resolveExpr_balanced callee r
    have ha := resolveExprs_balanced arguments (r.resolveExpr callee)
    refine (hc.of_child (i := 0) rfl rfl).append (ha.of_children fun c hmem => ?_)
    obtain ⟨i, hi⟩ := List.getElem?_of_mem hmem
    exact ⟨i + 1, hi, hc.length_eq⟩
  | .get _ object _, r => (resolveExpr_balanced object r).of_child (i := 0) rfl rfl
  | .set _ object _ value, r => by
    have hv := resolveExpr_balanced value r
    have ho := resolveExpr_balanced object (r.resolveExpr value)
    exact (hv.of_child (i := 1) rfl rfl).append (ho.of_child (i := 0) rfl hv.length_eq)
  | .this id keyword, r => by
    simp only [resolveExpr]
    split
    · exact Balanced.addError r _ _
    · exact resolveName_balanced r rfl keyword
  | .super id keyword method, r => by
    have hn : ∀ cause, Balanced r [] ((Part.expr (.super id keyword method)).Records r.scopes.length)
        ((r.addError cause keyword).resolveName id keyword) := fun cause =>
      (Balanced.addError r cause keyword).append (resolveName_balanced _ rfl keyword)
    simp only [resolveExpr]
    split
    · exact hn _
    · exact hn _
    · exact resolveName_balanced r rfl keyword

theorem resolveExprs_balanced : ∀ (es : List Expr) (r : Resolver),
    Balanced r [] (Part.RecordsAmong (es.map .expr) r.scopes.length) (r.resolveExprs es)
  | [], r => Balanced.refl r _
  | e :: es, r => by
    have he := resolveExpr_balanced e r
    have hs := resolveExprs_balanced es (r.resolveExpr e)
    rw [he.length_eq] at hs
    exact he.cons hs

end

theorem resolveExpr?_balanced (e : Option Expr) (r : Resolver) :
    Balanced r [] (Part.RecordsAmong (e.toList.map .expr) r.scopes.length) (r.resolveExpr? e) := by
  cases e with
  | none => exact Balanced.refl r _
  | some e => exact resolveExprs_balanced [e] r

mutual

theorem resolveStmt_balanced : ∀ (s : Stmt) (r : Resolver),
    Balanced r s.declared ((Part.stmt s).Records r.scopes.length) (r.resolveStmt s)
  | .block id body, r => by
    have hb := resolveStmts_balanced body (r.openScope ∅)
    exact (hb.of_children fun c hc => mem_children hc rfl fun _ => rfl).inScope
  | .expression _ e, r => (resolveExpr_balanced e r).of_child (i := 0) rfl rfl
  | .print _ e, r => (resolveExpr_balanced e r).of_child (i := 0) rfl rfl
  | .varDecl id name initializer, r => by
    have hi := resolveExpr?_balanced initializer (r.declare name)
    rw [length_declare] at hi
    refine (hi.of_children fun c hc => mem_children hc rfl fun _ => rfl).declared
  | .branch id condition thenBranch none, r => by
    have hc := resolveExpr_balanced condition r
    have ht := resolveStmt_balanced thenBranch (r.resolveExpr condition)
    exact (hc.of_child (i := 0) rfl rfl).append (ht.of_child (i := 1) rfl hc.length_eq)
  | .branch id condition thenBranch (some elseBranch), r => by
    have hc := resolveExpr_balanced condition r
    have ht := resolveStmt_balanced thenBranch (r.resolveExpr condition)
    have he := resolveStmt_balanced elseBranch ((r.resolveExpr condition).resolveStmt thenBranch)
    have hct := (hc.of_child (t := .stmt (.branch id condition thenBranch (some elseBranch)))
      (i := 0) rfl rfl).append (ht.of_child (i := 1) rfl hc.length_eq)
    exact hct.append (he.of_child (i := 2) rfl hct.length_eq)
  | .loop _ condition body, r => by
    have hc := resolveExpr_balanced condition r
    have hb := resolveStmt_balanced body (r.resolveExpr condition)
    exact (hc.of_child (i := 0) rfl rfl).append (hb.of_child (i := 1) rfl hc.length_eq)
  | .function f, r => by
    have hd := declareReady_balanced (E := (Part.stmt (.function f)).Records r.scopes.length) r f.name
    have hf := resolveFunction_balanced f (r.declareReady f.name) .function
    rw [hd.length_eq] at hf
    exact hd.append (hf.mono fun _ _ => Part.Records.of_method)
  | .ret id keyword value, r => by
    have he := Balanced.addError_if (E := (Part.stmt (.ret id keyword value)).Records r.scopes.length)
      r (r.functionKind = .none) .topLevelReturn keyword
    have hv := resolveExpr?_balanced value
      (if r.functionKind = .none then r.addError .topLevelReturn keyword else r)
    rw [he.length_eq] at hv
    exact he.append (hv.of_children fun c hc => mem_children hc rfl fun _ => rfl)
  | .classDecl id name none methods, r => by
    have hd := declareReady_balanced { r with classKind := .plain } name
      (E := (Part.stmt (.classDecl id name none methods)).Records r.scopes.length)
    have hm := resolveMethods_balanced methods
      (({ r with classKind := .plain }.declareReady name).openScope {("this", true)})
    refine (hd.append (Balanced.inScope (hm.of_children fun c hc => ?_))).inClass
    exact mem_children hc rfl fun _ => congrArg (· + 1) hd.length_eq
  | .classDecl id name (some ref) methods, r => by
    have hd := declareReady_balanced { r with classKind := .plain } name
      (E := (Part.stmt (.classDecl id name (some ref) methods)).Records r.scopes.length)
    have hlen := hd.length_eq
    have hm := resolveMethods_balanced methods ((({ r with classKind := .plain }.declareReady
      name).enterSuperclass name (some ref)).openScope {("this", true)})
    refine (hd.append (enterSuperclass_balanced ?_ (Balanced.inScope
      (hm.of_children fun c hc => ?_)))).inClass
    · exact fun _ _ => Part.Records.of_child (i := 0) rfl hlen
    · obtain ⟨i, hi⟩ := List.getElem?_of_mem hc
      refine ⟨i + 1, hi, ?_⟩
      exact congrArg (· + 1) ((length_enterSuperclass _ name ref).trans (congrArg (· + 1) hlen))

theorem resolveFunction_balanced : ∀ (f : FunctionDecl) (r : Resolver) (kind : FunctionKind),
    Balanced r [] ((Part.method f).Records r.scopes.length) (r.resolveFunction kind f)
  | ⟨id, name, params, body⟩, r, kind => by
    have hp := foldl_declareReady_balanced (E := (Part.method ⟨id, name, params, body⟩).Records
      r.scopes.length) params ({ r with functionKind := kind }.openScope ∅)
    have hb := resolveStmts_balanced body (enteredFunction r kind ⟨id, name, params, body⟩)
    have hlen : (enteredFunction r kind ⟨id, name, params, body⟩).scopes.length =
      r.scopes.length + 1 := hp.length_eq
    rw [hlen] at hb
    exact ((hp.append (hb.of_children fun c hc => mem_children hc rfl fun _ => rfl)).inScope).inFunction

theorem resolveStmts_balanced : ∀ (ss : List Stmt) (r : Resolver),
    Balanced r (ss.flatMap Stmt.declared) (Part.RecordsAmong (ss.map .stmt) r.scopes.length)
      (r.resolveStmts ss)
  | [], r => Balanced.refl r _
  | s :: ss, r => by
    have hs := resolveStmt_balanced s r
    have hss := resolveStmts_balanced ss (r.resolveStmt s)
    rw [hs.length_eq] at hss
    exact hs.cons hss

theorem resolveMethods_balanced : ∀ (fs : List FunctionDecl) (r : Resolver),
    Balanced r [] (Part.RecordsAmong (fs.map .method) r.scopes.length) (r.resolveMethods fs)
  | [], r => Balanced.refl r _
  | f :: fs, r => by
    have hf := resolveFunction_balanced f r (methodKind f)
    have hfs := resolveMethods_balanced fs (r.resolveFunction (methodKind f) f)
    rw [hf.length_eq] at hfs
    exact hf.cons hfs

end

/-! ### What a walk leaves behind -/

/-- A walk over a part that leads from `r` to `r'` leaves nothing behind but names in the innermost
scope, distances and errors. -/
structure LeavesNoTrace (t : Part) (r r' : Resolver) : Prop where
  height : r'.scopes.length = r.scopes.length
  outer : r'.scopes.tail = r.scopes.tail
  /-- What the part declares in the innermost scope is ready there. -/
  ready : ∀ scope ∈ r'.scopes.head?, ∀ x, t.DeclaresHere x → scope[x]? = some true
  /-- All other names of the innermost scope are those from before, as ready as before. -/
  same : ∀ scope ∈ r.scopes.head?, ∀ scope' ∈ r'.scopes.head?, ∀ x : String, ¬ t.DeclaresHere x →
    scope'[x]? = scope[x]?
  functionKind : r'.functionKind = r.functionKind
  classKind : r'.classKind = r.classKind
  /-- Every distance that is new belongs to a node of the part and leads to a scope that is open at
  this node. -/
  recorded : ∃ news : List (NodeId × Nat), r'.table = recordAll r.table news ∧
    ∀ e ∈ news, t.Records r.scopes.length e.1 e.2
  kept : ∀ id, id ∈ r.table → id ∈ r'.table
  untouched : ∀ id, ¬ t.HasNode id → r'.table[id]? = r.table[id]?
  errors : ∃ more, r'.errors = r.errors ++ more

theorem Balanced.leavesNoTrace {t : Part} {names : List String}
    (h : Balanced r names (t.Records r.scopes.length) r')
    (hn : ∀ x, x ∈ names ↔ t.DeclaresHere x) : LeavesNoTrace t r r' where
  height := h.length_eq
  outer := by rw [h.scopes, tail_addReady]
  ready := by
    intro scope hs x hx
    rw [h.scopes] at hs
    cases hr : r.scopes with
    | nil => simp [hr, addReady] at hs
    | cons before outer =>
      rw [hr] at hs
      cases hs
      rw [getElem?_foldl_insert, if_pos ((hn x).2 hx)]
  same := by
    intro scope hs scope' hs' x hx
    rw [h.scopes] at hs'
    cases hr : r.scopes with
    | nil => simp [hr] at hs
    | cons before outer =>
      rw [hr] at hs hs'
      cases hs
      cases hs'
      rw [getElem?_foldl_insert, if_neg (mt (hn x).1 hx)]
  functionKind := h.functionKind
  classKind := h.classKind
  recorded := h.table
  kept := by
    obtain ⟨news, ht, -⟩ := h.table
    intro id hid
    rw [ht]
    exact mem_recordAll hid news
  untouched := by
    obtain ⟨news, ht, hE⟩ := h.table
    intro id hid
    rw [ht]
    refine getElem?_recordAll (fun e he heq => hid ?_) r.table
    exact heq ▸ (hE e he).hasNode
  errors := by
    obtain ⟨more, hmore⟩ := h.errors
    exact ⟨more, hmore.symm⟩

/-- A walk over a statement or an expression is balanced, from whatever state it starts; and a
resolver that resolves one program after the other has an empty stack after each, and is in the state
of one that resolved this program only. -/
theorem walk_leavesNoTrace :
    (∀ (s : Stmt) (r : Resolver), LeavesNoTrace (.stmt s) r (r.resolveStmt s)) ∧
      (∀ (e : Expr) (r : Resolver), LeavesNoTrace (.expr e) r (r.resolveExpr e)) ∧
      ∀ (r : Resolver) (earlier : List Program) (p : Program),
        ((earlier ++ [p]).foldl resolve r).scopes = [] ∧
          (earlier ++ [p]).foldl resolve r = p.resolve := by
  refine ⟨fun s r => ?_, fun e r => ?_, fun r earlier p => ?_⟩
  · exact (resolveStmt_balanced s r).leavesNoTrace (Part.mem_declared_iff s)
  · refine (resolveExpr_balanced e r).leavesNoTrace fun x => ?_
    simpa using Part.not_declaresHere_expr e x
  · rw [List.foldl_append]
    refine ⟨?_, rfl⟩
    exact (resolveStmts_balanced p {}).scopes

end Resolver

end Lox
