import Lox.Proofs.Run.Accumulation
import Lox.Proofs.Run.Construction
import Lox.Proofs.Run.Faults
import Lox.Proofs.Run.Results
import Lox.Proofs.Scoping.Rules

/-!
# The nodes that errors point at

An error of a running program is reported at a token, and each code has nodes that name such a token
(`Part.designated`): the operator for `E401`, the variable for `E402`, the property for `E403` and `E407`,
the closing parenthesis of a call for `E404`, `E405` and `E408`, the superclass for `E406`.  An error that
ends a run of a session points at a node that was visited and raised it, of a program that the session was
given (`Session.failed_blames`), be it one whose functions were left over by an earlier run.

There is one more kind of node.  A `this` is read as a variable is, by the text of its token; if that is
not `this`, nothing needs to be bound to it, and the error is reported at the keyword.
-/

namespace Lox

/-! ### Designated tokens -/

/-- The tokens that errors at a node are reported at, each with the code of the error. -/
def Part.designated : Part → List (String × Token)
  | .expr (.unary _ operator _) => [("E401", operator)]
  | .expr (.binary _ _ operator _) => [("E401", operator)]
  | .expr (.var ref) => [("E402", ref.name)]
  | .expr (.assign _ (.var ref) _ _) => [("E402", ref.name)]
  | .expr (.get _ _ name) => [("E407", name), ("E403", name)]
  | .expr (.set _ _ name _) => [("E407", name)]
  | .expr (.super _ _ property) => [("E403", property)]
  | .expr (.call _ _ paren _) => [("E404", paren), ("E405", paren), ("E408", paren)]
  | .stmt (.classDecl _ _ (some ref) _) => [("E406", ref.name)]
  | _ => []

/-- A `this` that is written otherwise is looked up as a variable of the other name. -/
def Part.Misnames (t : Part) (token : Token) : Prop :=
  ∃ id, t = .expr (.this id token) ∧ token.lexeme ≠ "this"

/-- An error that arises in a store points at a node: its token is one that the node designates for it,
and the diagnostic tells where that is.  A variable that is undefined is bound nowhere. -/
structure Part.Blamed (t : Part) (ctx : Context) (e : RuntimeError) (st : Store) : Prop where
  designated : (e.diagnostic.code, e.token) ∈ t.designated ∨
    e.diagnostic.code = "E402" ∧ t.Misnames e.token
  line : e.diagnostic.line = e.token.line
  lexeme : e.diagnostic.lexeme =
    if e.token.kind = .endOfInput then none else some e.token.lexeme
  unbound : e.diagnostic.code = "E402" → st.contains ctx.globals e.token.lexeme = false ∧
    ∃ id, t.id? = some id ∧ ctx.table[id]? = none

/-- Only a variable that is undefined has the code. -/
theorem Part.Blamed.of_other {t : Part} {ctx : Context} {e : RuntimeError} {st : Store}
    (hd : (e.diagnostic.code, e.token) ∈ t.designated) (hcode : e.cause ≠ .undefinedVariable) :
    t.Blamed ctx e st where
  designated := .inl hd
  line := rfl
  lexeme := rfl
  unbound h := by
    change e.cause.code = "E402" at h
    exfalso
    revert h hcode
    cases e.cause <;> simp [RuntimeCause.code]

/-! ### What is not found -/

theorem Store.contains_of_get? {st : Store} {e : ScopeId} {x : String} (h : st.get? e x = none) :
    st.contains e x = false := by
  unfold contains
  cases ho : st.owner? e x with
  | none => rfl
  | some o =>
    have hbound := isSome_of_owner? ho
    rw [get?, ho, Option.bind_some] at h
    rw [h] at hbound
    cases hbound

section

variable {ctx : Context} {n : Nat} {id : NodeId} {name : Token} {t : Part} {s : RunState}
  {e : RuntimeError} {st : Store}

/-- A variable whose look-up is an error is not in the table, and not among the globals. -/
theorem Run.lookUp_error (h : Run.lookUp ctx id name s = .raised (.error e) s) :
    e = ⟨.undefinedVariable, name⟩ ∧ ctx.table[id]? = none ∧
      s.store.contains ctx.globals name.lexeme = false := by
  cases hd : ctx.table[id]? with
  | some d =>
    rw [Run.lookUp_of_local hd] at h
    cases hg : s.store.getAt s.scope d name.lexeme <;> rw [hg] at h <;> cases h
  | none =>
    cases hg : s.store.get? ctx.globals name.lexeme with
    | some v =>
      rw [Run.lookUp_of_global hd hg] at h
      cases h
    | none =>
      rw [Run.lookUp_of_undefined hd hg] at h
      cases h
      exact ⟨rfl, rfl, Store.contains_of_get? hg⟩

theorem Run.assignedScope_error (h : Run.assignedScope ctx id name s = .raised (.error e) s) :
    e = ⟨.undefinedVariable, name⟩ ∧ ctx.table[id]? = none ∧
      s.store.contains ctx.globals name.lexeme = false := by
  cases hd : ctx.table[id]? with
  | some d =>
    rw [Run.assignedScope_of_local hd] at h
    cases hg : s.store.scopeAt s.scope d <;> rw [hg] at h <;> cases h
  | none =>
    cases ho : s.store.owner? ctx.globals name.lexeme with
    | some o =>
      rw [Run.assignedScope_of_global hd ho] at h
      cases h
    | none =>
      rw [Run.assignedScope_of_undefined hd ho] at h
      cases h
      exact ⟨rfl, rfl, by rw [Store.contains, ho]; rfl⟩

/-- A node that is not in the table misses a variable. -/
theorem Part.Blamed.of_undefined (hid : t.id? = some id)
    (hd : ("E402", name) ∈ t.designated ∨ t.Misnames name)
    (h : e = ⟨.undefinedVariable, name⟩ ∧ ctx.table[id]? = none ∧
      st.contains ctx.globals name.lexeme = false) : t.Blamed ctx e st := by
  obtain ⟨rfl, htable, hglobal⟩ := h
  exact ⟨hd.imp_right fun hm => ⟨rfl, hm⟩, rfl, rfl, fun _ => ⟨hglobal, id, hid, htable⟩⟩

/-- A class declaration finds the name that it has bound. -/
theorem RunState.Grounded.isSome_owner? {g : ScopeId} (hs : s.Grounded g) {x : String}
    {superclass : Option ClassId} {scope : ScopeId}
    (he : (s.store.define s.scope x .nil).methodScope s.scope superclass = (scope, st))
    (methods : List FunctionDecl) :
    ((st.makeClass x superclass methods scope).2.owner? s.scope x).isSome := by
  obtain ⟨_, hscope⟩ := Option.isSome_iff_exists.1 hs.scope
  have hbound : (s.store.define s.scope x .nil).binds s.scope x :=
    isSome_read?_define (Store.lt_of_scope? hscope) x .nil
  have hfound : (s.store.define s.scope x .nil).contains s.scope x := by
    rw [Store.contains, Store.owner?_of_binds hbound]
    rfl
  have hp := Store.PersistsIn.methodScope (s.store.define s.scope x .nil) s.scope superclass
  rw [he] at hp
  exact (hp.trans (.makeClass st x superclass methods scope)).observed.contains _ _ hfound

/-! ### Where errors arise -/

/-- What a node obeys in a program without static errors: it assigns variables only, and a `this` that
is written so is in the table. -/
structure Part.Vetted (table : Resolution) (t : Part) : Prop where
  target : ∀ id target equals value, t = .expr (.assign id target equals value) →
    target.asVariable?.isSome
  this : ∀ id keyword, t = .expr (.this id keyword) → keyword.lexeme = "this" → (table[id]?).isSome

/-- A call that is refused is reported at its closing parenthesis. -/
theorem Refuses.blamed {callee : Expr} {paren : Token} {arguments : List Expr} {s' : RunState}
    (h : Refuses ctx n callee paren arguments s e s') :
    (Part.expr (.call id callee paren arguments)).Blamed ctx e st := by
  cases h with
  | notCallable => exact .of_other List.mem_cons_self nofun
  | arity => exact .of_other (List.mem_cons_of_mem _ List.mem_cons_self) nofun
  | overflow =>
    exact .of_other (List.mem_cons_of_mem _ (List.mem_cons_of_mem _ List.mem_cons_self)) nofun

/-- Wherever an error arises, it points at the node that raises it. -/
theorem Raises.blamed {g : ScopeId} (h : Raises ctx n t s (.error e) st) (hs : s.Grounded g)
    (ht : t.Vetted ctx.table) : t.Blamed ctx e st := by
  cases h with
  | literal h => cases Literal.evaluate_error h
  | var h => exact .of_undefined rfl (.inl List.mem_cons_self) (Run.lookUp_error h)
  | @this id keyword _ _ h =>
    have hmissed := Run.lookUp_error h
    refine .of_undefined rfl (.inr ⟨id, rfl, fun hthis => ?_⟩) hmissed
    have hsome := ht.this id keyword rfl hthis
    rw [hmissed.2.1] at hsome
    cases hsome
  | @assigned id target equals value _ _ _ _ hv h =>
    obtain ⟨ref, href⟩ := Option.isSome_iff_exists.1 (ht.target id target equals value rfl)
    obtain rfl := Expr.eq_var_of_asVariable? href
    exact .of_undefined rfl (.inl List.mem_cons_self) (Run.assignedScope_error h)
  | binary hl hr h =>
    rcases Token.applyBinary_error h with h | h | h <;> cases h
    · exact .of_other List.mem_cons_self nofun
    · exact .of_other List.mem_cons_self nofun
  | unary hv h =>
    rcases Token.applyUnary_error h with h | h <;> cases h
    exact .of_other List.mem_cons_self nofun
  | refused h => exact h.blamed
  | propertyOnNonInstance => exact .of_other List.mem_cons_self nofun
  | undefinedProperty => exact .of_other (List.mem_cons_of_mem _ List.mem_cons_self) nofun
  | fieldOnNonInstance => exact .of_other List.mem_cons_self nofun
  | super h =>
    rcases Run.superMethod_raised h with h | h | ⟨f, h⟩ | h <;> cases h
    exact .of_other List.mem_cons_self nofun
  | superclassNotClass => exact .of_other List.mem_cons_self nofun
  | @classUnnamed _ _ _ methods _ _ _ _ _ hc he ho =>
    have hfound := (hs.inherited hc).1.isSome_owner? he methods
    rw [ho] at hfound
    cases hfound

end

/-! ### Programs without static errors -/

/-- Inside of a class the name `this` is found. -/
theorem Nesting.isSome_distance?_this {Γ : Nesting} (hm : Γ.ClassMarks) (hc : Γ.classKind ≠ .none) :
    (Γ.distance? "this").isSome := by
  rw [Ne, classKind_eq_none_iff] at hc
  push Not at hc
  obtain ⟨f, hf, ho⟩ := hc
  rw [distance?, List.findIdx?_isSome, List.any_eq_true]
  exact ⟨f, hf, by rw [Frame.has, hm.ready?_this hf ho]; rfl⟩

namespace Program

variable {p : Program} {a : Address} {t : Part}

/-- A `this` that is written so is recorded. -/
theorem recorded_this (he : p.resolve.hasErrors = false) {id : NodeId} {keyword : Token}
    (ha : p.part? a = some (.expr (.this id keyword))) (hk : keyword.lexeme = "this") :
    (p.resolve.table[id]?).isSome := by
  obtain ⟨Γ, hP⟩ := exists_place? ha
  have hmem := mem_places_iff.2 ⟨rfl, a, hP⟩
  have hclass : Γ.classKind ≠ .none := by
    intro hnone
    have hviolations := violations_eq_nil he hmem
    simp [Place.violations, Part.violations, hnone] at hviolations
  have hfound := Nesting.isSome_distance?_this (regular_of_place? hP).1.classes hclass
  rw [resolve_table]
  refine isSome_of_record (.inl ⟨_, hmem, rfl, ?_⟩)
  cases hkind : Γ.classKind with
  | none => exact absurd hkind hclass
  | plain => simpa [Place.entry?, Part.entry?, hkind, hk] using hfound
  | subclass => simpa [Place.entry?, Part.entry?, hkind, hk] using hfound

/-- What the nodes of a program obey that breaks no static rule. -/
theorem vetted (he : p.resolve.hasErrors = false) (ha : p.part? a = some t) :
    t.Vetted p.resolve.table where
  target := by
    rintro id target equals value rfl
    by_contra hnone
    obtain ⟨Γ, hP⟩ := exists_place? ha
    have hviolations := violations_eq_nil he (mem_places_iff.2 ⟨rfl, a, hP⟩)
    simp [Place.violations, Part.violations, Option.not_isSome_iff_eq_none.1 hnone] at hviolations
  this := by
    rintro id keyword rfl hk
    exact recorded_this he ha hk

end Program

/-- They obey it with the table of several programs too. -/
theorem IsTableOf.vetted {table : Resolution} {ps : List Program} (h : IsTableOf table ps) {p : Program}
    (hp : p ∈ ps) (he : p.resolve.hasErrors = false) {a : Address} {t : Part}
    (ha : p.part? a = some t) : t.Vetted table where
  target := (Program.vetted he ha).target
  this id keyword ht hk := by
    obtain ⟨d, hd⟩ := Option.isSome_iff_exists.1 ((Program.vetted he ha).this id keyword ht hk)
    exact h.complete p hp id d hd

/-! ### Where visited nodes come from -/

/-- A part of a program; the body of a function is run as that of a method. -/
inductive Part.ComesFrom (p : Program) : Part → Prop
  | part {a : Address} {t : Part} (ha : p.part? a = some t) : ComesFrom p t
  | body {a : Address} {f : FunctionDecl} (ha : p.part? a = some (.stmt (.function f))) :
      ComesFrom p (.method f)

/-- The functions that are left over by programs are parts of them. -/
theorem Session.Given.visited {registry : NativeRegistry} {config : Config} {ps : List Program}
    {p : Program} {s : Session} (h : Session.Given registry config ps s)
    (he : p.resolve.hasErrors = false) {n m : Nat} {t : Part} {s₁ : RunState}
    (hv : (s.interpretation p n).Visits m t s₁) :
    ∃ q ∈ ps ++ [p], q.resolve.hasErrors = false ∧ t.ComesFrom q := by
  obtain ⟨Es, hE, hps⟩ := h.exists_history
  let P : Part → Prop := fun t => ∃ q ∈ ps ++ [p], q.resolve.hasErrors = false ∧ t.ComesFrom q
  have hpreserved := preserved_bodies (P := P) (by
    rintro f ⟨q, hq, hqe, hf⟩
    cases hf with
    | part ha => exact ⟨q, hq, hqe, .body ha⟩)
  have hall : ∀ q ∈ ps ++ [p], q.resolve.hasErrors = false → (Part.program q).All P :=
    fun q hq hqe a t ha => ⟨q, hq, hqe, .part ha⟩
  have hstart : s.interpreter.store.Functions fun f => (Part.method f).All P :=
    hpreserved.history (fun i hi => Interpreter.functions_of_create hi _) hE
      fun q hq => hall q (List.mem_append_left _ (hps q hq).1) (hps q hq).2
  exact (hpreserved.visits (J := s.interpretation p n) (hall p (by simp) he) hstart hv).1.self

/-! ### Runs that fail -/

/-- A fault that ends the run of a program was raised at a node that was visited. -/
theorem Interpretation.exists_raises {I : Interpretation} {report : Report} {i : Interpreter}
    {s : RunState} {fault : Fault} (h : I.EndedIn report i s) (ho : I.ending = .raised fault s) :
    ∃ m t s₁, I.Visits (m + 1) t s₁ ∧ Raises I.context m t s₁ fault i.store := by
  have hraised : (Action.throughout (execute I.context I.fuel) I.program I.ready.start).store =
      .raised fault s.store := by
    change I.ending.store = _
    rw [ho]
    rfl
  obtain ⟨k, st, hk, s₀, hb, hev⟩ := Program.outcome_raised_iff.1 hraised
  cases hev with
  | raise hv hr =>
    rw [h.store]
    exact ⟨_, _, _, .mk h.fits hb hk hv, hr⟩

namespace Session

variable {registry : NativeRegistry} {config : Config} {ps : List Program} {p : Program}
  {fuel : Nat} {s s' : Session}

/-- The interpreter that a run leaves knows the globals and the table with which it was run. -/
theorem context_of_run {r : RunResult} (hr : s.run fuel p = some (r, s'))
    (he : p.resolve.hasErrors = false) :
    s'.interpreter.context = (s.interpretation p fuel).context := by
  rcases run_cases hr with ⟨he', -⟩ | ⟨-, report, -, hres⟩
  · cases he.symm.trans he'
  · generalize s'.interpreter = i at hres
    cases Episode.ended_of_result? hres <;> rfl

/-- A run fails at a node of a program that breaks no static rule: the node is visited, it raises the error
in the store that is left, and the error points at it. -/
structure FailsAt (s : Session) (p : Program) (n : Nat) (e : RuntimeError) (s' : Session) (q : Program)
    (t : Part) : Prop where
  accepted : q.resolve.hasErrors = false
  part : ∃ a, q.part? a = some t
  raised : ∃ m s₁, (s.interpretation p n).Visits (m + 1) t s₁ ∧
    Raises s'.interpreter.context m t s₁ (.error e) s'.interpreter.store
  blamed : t.Blamed s'.interpreter.context e s'.interpreter.store

/-- An error that ends a run points at the node that failed, which is one of a program that was given to
the session so far. -/
theorem failed_blames {output : List String} {e : RuntimeError} (h : Given registry config ps s)
    (hr : s.run fuel p = some (.failed output e, s')) :
    ∃ q ∈ ps ++ [p], ∃ t, s.FailsAt p fuel e s' q t := by
  rcases run_cases hr with ⟨-, hno, -⟩ | ⟨he, ⟨ending, lines⟩, hreport, hres⟩
  · cases hno
  have hcontext := context_of_run hr he
  have htable : IsTableOf s'.interpreter.table (Program.accepted (ps ++ [p])) := (h.run hr).isTableOf
  have hres : (s.interpretation p fuel).result? = some (⟨ending, lines⟩, s'.interpreter) := hres
  obtain rfl : ending = .failed e := by
    cases ending <;> cases hreport
    rfl
  rcases Interpretation.result_cases hres with ⟨-, hrefused, -⟩ | ⟨s₀, hend⟩
  · cases hrefused
  rcases hend.reported with ⟨-, hcompleted⟩ | ⟨fault, ho, hfault⟩
  · cases hcompleted
  obtain rfl : fault = .error e := by
    cases fault <;> cases hfault
    rfl
  -- the fault that ended the run was raised at a node, in a grounded state
  obtain ⟨m, t, s₁, hv, hraises⟩ := Interpretation.exists_raises hend ho
  obtain ⟨Es, hE, -⟩ := h.exists_history
  have hgrounded : s₁.Grounded s.interpreter.globals :=
    Interpretation.Visits.grounded (I := s.interpretation p fuel) hE.reachable hv
  obtain ⟨q, hq, hqe, hfrom⟩ := h.visited he hv
  obtain ⟨a, ha⟩ : ∃ a, q.part? a = some t := by
    cases hfrom with
    | part ha => exact ⟨_, ha⟩
    | body => cases hraises
  have hvetted : t.Vetted s'.interpreter.table :=
    htable.vetted (Program.mem_accepted.2 ⟨hq, hqe⟩) hqe ha
  rw [← hcontext] at hraises
  exact ⟨q, hq, t, hqe, ⟨a, ha⟩, ⟨m, s₁, hv, hraises⟩, hraises.blamed hgrounded hvetted⟩

end Session

/-- A function that negates its argument. -/
def Program.negation : Program :=
  [.function ⟨0, ⟨.identifier, "f", .nil, 1⟩, [⟨.identifier, "x", .nil, 1⟩],
    [.ret 1 ⟨.kwReturn, "return", .nil, 2⟩
      (some (.unary 2 ⟨.minus, "-", .nil, 2⟩ (.var ⟨3, ⟨.identifier, "x", .nil, 2⟩⟩)))]⟩]

/-- A call of it with a string. -/
def Program.negatedText : Program :=
  [.expression 10 (.call 11 (.var ⟨12, ⟨.identifier, "f", .nil, 1⟩⟩) ⟨.rightParen, ")", .nil, 1⟩
    [.literal 13 (.string "a")])]

/-- The error points into the program that declared the function. -/
theorem Session.negatedText_blames :
    ∃ s output e s', Session.Given {} { natives := [] } [.negation] s ∧
      s.run 9 .negatedText = some (.failed output e, s') ∧
      e = ⟨.numberOperand, ⟨.minus, "-", .nil, 2⟩⟩ ∧
      ∃ q ∈ [Program.negation] ++ [.negatedText], ∃ t, s.FailsAt .negatedText 9 e s' q t := by
  have hnew : ∃ s, Session.create {} { natives := [] } = .ok s ∧
      ((s.run 9 .negation).bind fun r => (r.2.run 9 .negatedText).map (·.1)) =
        some (.failed [] ⟨.numberOperand, ⟨.minus, "-", .nil, 2⟩⟩) := ⟨_, rfl, by decide +kernel⟩
  obtain ⟨s₀, hcreate, hruns⟩ := hnew
  obtain ⟨⟨result₁, s⟩, hfirst, hsecond⟩ := Option.bind_eq_some_iff.1 hruns
  obtain ⟨⟨result, s'⟩, hrun, rfl⟩ := Option.map_eq_some_iff.1 hsecond
  have hgiven : Session.Given {} { natives := [] } [.negation] s := .run (.create hcreate) hfirst
  exact ⟨s, _, _, s', hgiven, hrun, rfl, Session.failed_blames hgiven hrun⟩

/-- A method that prints a `this` which is written as another name. -/
def Program.misnamedThis : Program :=
  [.classDecl 0 ⟨.identifier, "A", .nil, 1⟩ none
    [⟨1, ⟨.identifier, "m", .nil, 1⟩, [], [.print 2 (.this 3 ⟨.kwThis, "foo", .nil, 2⟩)]⟩],
   .expression 4 (.call 5 (.get 6 (.call 7 (.var ⟨8, ⟨.identifier, "A", .nil, 3⟩⟩)
    ⟨.rightParen, ")", .nil, 3⟩ []) ⟨.identifier, "m", .nil, 3⟩) ⟨.rightParen, ")", .nil, 3⟩ [])]

/-- So not every error is reported at a token that some node designates for it. -/
theorem Session.misnamedThis_undesignated :
    ¬ ∀ registry config ps p fuel output e (s s' : Session), Session.Given registry config ps s →
      (∀ q ∈ ps ++ [p], q.resolve.hasErrors = false) →
      s.run fuel p = some (.failed output e, s') →
      ∃ q ∈ ps ++ [p], ∃ a t, q.part? a = some t ∧ (e.diagnostic.code, e.token) ∈ t.designated := by
  intro h
  have hnew : ∃ s, Session.create {} { natives := [] } = .ok s ∧ (s.run 9 .misnamedThis).map (·.1) =
      some (.failed [] ⟨.undefinedVariable, ⟨.kwThis, "foo", .nil, 2⟩⟩) := ⟨_, rfl, by decide +kernel⟩
  obtain ⟨s, hcreate, hrun⟩ := hnew
  obtain ⟨⟨result, s'⟩, hrun, rfl⟩ := Option.map_eq_some_iff.1 hrun
  have hclean : ∀ q ∈ [] ++ [Program.misnamedThis], q.resolve.hasErrors = false := by
    intro q hq
    obtain rfl := List.mem_singleton.1 hq
    decide
  obtain ⟨q, hq, a, t, ha, hd⟩ := h _ _ [] _ _ _ _ s s' (.create hcreate) hclean hrun
  obtain rfl := List.mem_singleton.1 hq
  have hnone : ∀ at? ∈ (Part.program .misnamedThis).within 6,
      ("E402", ⟨.kwThis, "foo", .nil, 2⟩) ∉ at?.2.designated := by decide
  exact hnone (a, t) (Part.mem_within (by decide) ha) hd

end Lox
