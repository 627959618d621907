import Lox.Proofs.Run.Interpretations
import Lox.Proofs.Run.Limit

/-!
# The lines of a run

A line is printed where a `print` statement is visited and its expression has a value (`Prints`); its
number is how many lines there were until then.  A run leaves the lines alone that were there when it
began, and the others are those that were printed at the nodes it visited (`runs_logged`).
-/

namespace Lox

/-- Line number `i`, counted from the beginning of the run, is printed while a part is run in a state. -/
inductive Prints (ctx : Context) (n : Nat) (t : Part) (s : RunState) : Nat → String → Prop
  | mk {m : Nat} {id : NodeId} {e : Expr} {s₁ s₂ : RunState} {v : Value}
      (hv : Visits ctx n t s (m + 1) (.stmt (.print id e)) s₁) (he : evaluate ctx m e s₁ = .ok v s₂) :
      Prints ctx n t s s₂.printed.size (s₂.store.display v)

theorem Prints.of_call {ctx : Context} {n : Nat} {t u : Part} {s s' : RunState} {i : Nat}
    {line : String} (hc : Calls ctx n t s u s') (h : Prints ctx n u s' i line) :
    Prints ctx (n + 1) t s i line := by
  cases h with
  | mk hv he => exact .mk (.step hc hv) he

variable {α β : Type} {P Q : Nat → String → Prop} {s s' s'' : RunState}

/-- From one state of a run to a later one: the lines of the first stay, and the others, each with its
number, satisfy `P`. -/
structure Prolongs (P : Nat → String → Prop) (s s' : RunState) : Prop where
  kept : s.printed.toList <+: s'.printed.toList
  new : ∀ i line, s.printed.size ≤ i → s'.printed.toList[i]? = some line → P i line

/-- However a run that started in `s` ends, its lines are as claimed. -/
def Logs (P : Nat → String → Prop) (s : RunState) : Outcome RunState α → Prop
  | .ok _ s' => Prolongs P s s'
  | .raised _ s' => Prolongs P s s'
  | .outOfFuel => True

namespace Prolongs

theorem of_eq (h : s'.printed = s.printed) : Prolongs P s s' := by
  refine ⟨by simp [h], fun i line hi hline => ?_⟩
  obtain ⟨hlt, -⟩ := List.getElem?_eq_some_iff.1 hline
  rw [h, Array.length_toList] at hlt
  omega

theorem refl (s : RunState) : Prolongs P s s := .of_eq rfl

theorem mono (h : Prolongs P s s') (hPQ : ∀ i line, P i line → Q i line) : Prolongs Q s s' :=
  ⟨h.kept, fun i line hi hline => hPQ i line (h.new i line hi hline)⟩

/-- A line that was there at the intermediate state still has its number. -/
theorem trans (h : Prolongs P s s') (h' : Prolongs P s' s'') : Prolongs P s s'' := by
  refine ⟨h.kept.trans h'.kept, fun i line hi hline => ?_⟩
  by_cases hearlier : i < s'.printed.size
  · obtain ⟨rest, hrest⟩ := h'.kept
    rw [← hrest, List.getElem?_append_left (by simpa using hearlier)] at hline
    exact h.new i line hi hline
  · exact h'.new i line (Nat.le_of_not_lt hearlier) hline

/-- One more line. -/
theorem push {line : String} (h : P s.printed.size line) :
    Prolongs P s { s with printed := s.printed.push line } := by
  refine ⟨by simp, fun i line' hi hline => ?_⟩
  rw [Array.toList_push] at hline
  obtain ⟨hlt, -⟩ := List.getElem?_eq_some_iff.1 hline
  have hlast : i = s.printed.toList.length := by
    simp only [List.length_append, List.length_singleton, Array.length_toList] at hlt ⊢
    omega
  subst hlast
  rw [List.getElem?_concat_length] at hline
  cases hline
  simpa using h

end Prolongs

namespace Logs

variable {o : Outcome RunState α}

theorem ok (a : α) : Logs P s (.ok a s) := .refl s

theorem raised (fault : Fault) : Logs P s (.raised fault s : Outcome RunState α) := .refl s

theorem mono (h : Logs P s o) (hPQ : ∀ i line, P i line → Q i line) : Logs Q s o := by
  cases o with
  | ok a s' => exact Prolongs.mono h hPQ
  | raised fault s' => exact Prolongs.mono h hPQ
  | outOfFuel => trivial

theorem later (hs : Prolongs P s s') (h : Logs P s' o) : Logs P s o := by
  cases o with
  | ok a s'' => exact hs.trans h
  | raised fault s'' => exact hs.trans h
  | outOfFuel => trivial

theorem of_state? (h : Logs P s o) (ho : o.state? = some s') : Prolongs P s s' := by
  cases o <;> cases ho <;> exact h

/-- The lines that there are in the end start with those that there were in the beginning. -/
theorem startsWith (h : Logs P s o) : o.StartsWith s.printed := by
  cases o with
  | ok a s' => exact h.kept
  | raised fault s' => exact h.kept
  | outOfFuel => trivial

theorem bind {x : Run α} {f : α → Run β} (hx : Logs P s (x s))
    (hf : ∀ a s', x s = .ok a s' → Logs P s' (f a s')) : Logs P s ((x >>= f) s) := by
  rw [Action.bind_apply]
  cases h : x s with
  | ok a s' =>
    rw [h] at hx
    exact (hf a s' h).later hx
  | raised fault s' =>
    rw [h] at hx
    exact hx
  | outOfFuel => trivial

theorem inScope {x : Run α} {e : ScopeId} (h : Logs P { s with scope := e } (x { s with scope := e })) :
    Logs P s (Run.inScope e x s) := by
  unfold Run.inScope
  cases hx : x { s with scope := e } with
  | outOfFuel => trivial
  | _ =>
    rw [hx] at h
    exact ⟨h.kept, h.new⟩

theorem deeper {x : Run α}
    (h : Logs P { s with depth := s.depth + 1 } (x { s with depth := s.depth + 1 })) :
    Logs P s (Run.deeper x s) := by
  unfold Run.deeper
  cases hx : x { s with depth := s.depth + 1 } with
  | outOfFuel => trivial
  | _ =>
    rw [hx] at h
    exact ⟨h.kept, h.new⟩

theorem ofScope (x : Except ScopeFault α) : Logs P s (Run.ofScope x s) := by
  cases x with
  | ok a => exact .ok a
  | error fault => exact .raised _

theorem ofExcept (x : Except Fault α) : Logs P s (Action.ofExcept x s : Outcome RunState α) := by
  cases x with
  | ok a => exact .ok a
  | error fault => exact .raised _

/-! ### Lists -/

/-- A run over a list, if the empty one is as claimed, and with each run over some of the elements the
one over one element more. -/
theorem prefixes {as : List α} {x : List α → Run β} (hnil : Logs P s (x [] s))
    (hconcat : ∀ (i : Nat) a, as[i]? = some a → Logs P s (x (as.take i) s) →
      Logs P s (x (as.take i ++ [a]) s)) : Logs P s (x as s) := by
  have hall := List.take_induction (M := fun l => Logs P s (x l s)) hnil hconcat as.length
  rwa [List.take_length] at hall

theorem collect {f : α → Run β} {as : List α}
    (h : ∀ (i : Nat) a bs s', as[i]? = some a → Action.collect f (as.take i) s = .ok bs s' →
      Logs P s' (f a s')) : Logs P s (Action.collect f as s) := by
  refine prefixes (.ok []) fun i a ha hbefore => ?_
  rw [Action.collect_concat]
  exact hbefore.bind fun bs s₁ hbs => (h i a bs s₁ ha hbs).bind fun b s₂ _ => .ok _

theorem untilReturn {f : α → Run Completion} {as : List α}
    (h : ∀ (i : Nat) a s', as[i]? = some a → Action.untilReturn f (as.take i) s = .ok .normal s' →
      Logs P s' (f a s')) : Logs P s (Action.untilReturn f as s) := by
  refine prefixes (.ok _) fun i a ha hbefore => ?_
  rw [Action.untilReturn_concat]
  refine hbefore.bind fun c s₁ hc => ?_
  cases c with
  | normal => exact h i a s₁ ha hc
  | returned v => exact .ok _

theorem throughout {f : α → Run Completion} {as : List α}
    (h : ∀ (i : Nat) a s', as[i]? = some a → Action.throughout f (as.take i) s = .ok () s' →
      Logs P s' (f a s')) : Logs P s (Action.throughout f as s) := by
  refine prefixes (.ok ()) fun i a ha hbefore => ?_
  rw [Action.throughout_concat]
  exact hbefore.bind fun _ s₁ hs => (h i a s₁ ha hs).bind fun c s₂ _ => .ok ()

end Logs

/-! ### Operations that print nothing -/

theorem logs_lookUp (ctx : Context) (id : NodeId) (name : Token) :
    Logs P s (Run.lookUp ctx id name s) := by
  rcases Run.lookUp_cases ctx id name s with ⟨v, hv⟩ | ⟨fault, hraised⟩
  · rw [hv]
    exact .ok v
  · rw [hraised]
    exact .raised fault

theorem logs_assign (ctx : Context) (id : NodeId) (name : Token) (v : Value) :
    Logs P s (Run.assign ctx id name v s) := by
  unfold Run.assign
  rcases Run.assignedScope_cases ctx id name s with ⟨e, he⟩ | ⟨fault, hraised⟩
  · rw [Action.bind_apply, he]
    exact Prolongs.of_eq rfl
  · rw [Action.bind_apply, hraised]
    exact .raised fault

theorem logs_getProperty (i : InstanceId) (name : Token) : Logs P s (Run.getProperty i name s) := by
  unfold Run.getProperty
  rw [Run.ask_bind]
  cases s.store.member? i name.lexeme with
  | none => exact .raised _
  | some m =>
    cases m with
    | field v => exact .ok v
    | method f => exact Prolongs.of_eq rfl

theorem logs_superMethod (ctx : Context) (id : NodeId) (method : Token) :
    Logs P s (Run.superMethod ctx id method s) := by
  rcases Run.superMethod_cases ctx id method s with ⟨d, c, this, f, hd, hc, ht, hf⟩ | ⟨fault, hraised⟩
  · rw [Run.superMethod_of_found hd hc ht hf]
    exact Prolongs.of_eq rfl
  · rw [hraised]
    exact .raised fault

theorem logs_declareClass (name : Token) (superclass : Option ClassId) (methods : List FunctionDecl) :
    Logs P s (Run.declareClass name superclass methods s) := by
  cases he : (s.store.define s.scope name.lexeme .nil).methodScope s.scope superclass with
  | mk e st =>
    rw [Run.declareClass_apply he]
    cases (st.makeClass name.lexeme superclass methods e).2.owner? s.scope name.lexeme with
    | some owner => exact Prolongs.of_eq rfl
    | none => exact Prolongs.of_eq rfl

/-! ### Calls -/

section Calls

variable {runBody : List Stmt → Run Completion} {vs : List Value}

theorem logs_callFunction {f : FunctionObject}
    (hbody : ∀ scope s', Run.enterFunction f vs s = .ok scope s' →
      Logs P { s' with scope := scope } (runBody f.declaration.body { s' with scope := scope })) :
    Logs P s (Run.callFunction runBody f vs s) := by
  have henter : Logs P s (Run.enterFunction f vs s) := Prolongs.of_eq rfl
  refine henter.bind fun scope s₁ he => Logs.bind (.inScope (hbody scope s₁ he)) fun c s₂ _ => ?_
  cases f.isInitializer with
  | true => exact .ofScope _
  | false =>
    cases c with
    | normal => exact .ok _
    | returned v => exact .ok v

theorem logs_invoke {c : Callable}
    (hbody : ∀ f s', Starts vs c s f s' → Logs P s' (runBody f.declaration.body s')) :
    Logs P s (Run.invoke runBody c vs s) := by
  cases c with
  | native n => exact .ok _
  | function f => exact logs_callFunction fun scope s' he => hbody f _ (.function he)
  | cls c =>
    show Logs P s ((Run.alloc _ >>= _) s)
    rw [Run.alloc_bind, Run.ask_bind]
    cases hf : (s.store.newInstance c).2.initializer? c with
    | none => exact Prolongs.of_eq rfl
    | some f =>
      have hc : Constructs c s f _ _ := .mk rfl hf rfl
      show Logs P s ((Run.alloc _ >>= _) _)
      rw [Run.alloc_bind]
      have hmade : Prolongs P s { s with
          store := ((s.store.newInstance c).2.bind f (.inst (s.store.newInstance c).1)).2 } := .of_eq rfl
      exact Logs.later hmade (Logs.bind (logs_callFunction fun scope s' he =>
        hbody _ _ (.construct hc he)) fun v s' _ => .ok _)

theorem logs_call {ctx : Context} {paren : Token} {f : Value}
    (hbody : ∀ c, s.store.callable? f = some c → vs.length = s.store.arity c →
      s.depth < ctx.maxDepth → ∀ g s', Starts vs c { s with depth := s.depth + 1 } g s' →
        Logs P s' (runBody g.declaration.body s')) :
    Logs P s (Run.call ctx runBody paren f vs s) := by
  rcases Run.call_cases ctx runBody paren f vs s with ⟨e, he⟩ | ⟨c, hc, harity, hdepth, hcall⟩
  · rw [he]
    exact .raised _
  · rw [hcall]
    exact .deeper (logs_invoke (hbody c hc harity hdepth))

end Calls

/-! ### Whole runs -/

section Runs

variable {ctx : Context} {n : Nat}

/-- The lines of a run with so much fuel are those that are printed at the nodes it visits. -/
structure RunsLogged (ctx : Context) (n : Nat) : Prop where
  expr : ∀ e s, Logs (Prints ctx n (.expr e) s) s (evaluate ctx n e s)
  stmt : ∀ st s, Logs (Prints ctx n (.stmt st) s) s (execute ctx n st s)

/-- What is printed at a node that is called is printed while its caller is run. -/
theorem RunsLogged.called_expr (ih : RunsLogged ctx n) {t : Part} {e : Expr}
    (hc : Calls ctx n t s (.expr e) s') : Logs (Prints ctx (n + 1) t s) s' (evaluate ctx n e s') :=
  (ih.expr e s').mono fun _ _ h => .of_call hc h

theorem RunsLogged.called_stmt (ih : RunsLogged ctx n) {t : Part} {st : Stmt}
    (hc : Calls ctx n t s (.stmt st) s') : Logs (Prints ctx (n + 1) t s) s' (execute ctx n st s') :=
  (ih.stmt st s').mono fun _ _ h => .of_call hc h

/-- One step of the induction, for expressions. -/
theorem logs_evaluate (ih : RunsLogged ctx n) (e : Expr) (s : RunState) :
    Logs (Prints ctx (n + 1) (.expr e) s) s (evaluate ctx (n + 1) e s) := by
  cases e with
  | literal id value => exact .ofExcept _
  | var ref => exact logs_lookUp ctx ref.id ref.name
  | assign id target equals value =>
    refine (ih.called_expr .assigned).bind fun v s₁ _ => ?_
    exact (logs_assign ctx id (target.assignedName equals) v).bind fun _ _ _ => .ok v
  | binary id left operator right =>
    refine (ih.called_expr .binaryLeft).bind fun l s₁ hl => ?_
    exact (ih.called_expr (.binaryRight hl)).bind fun r s₂ _ => .ofExcept _
  | logical id left operator right =>
    refine (ih.called_expr .logicalLeft).bind fun l s₁ hl => ?_
    cases hd : operator.decidesLogical l with
    | true => exact .ok l
    | false => exact ih.called_expr (.logicalRight hl hd)
  | unary id operator operand =>
    exact (ih.called_expr .operand).bind fun v s₁ _ => .ofExcept _
  | grouping id inner => exact ih.called_expr .inner
  | call id callee paren arguments =>
    refine (ih.called_expr .callee).bind fun f s₁ hf => ?_
    refine (Logs.collect fun i e vs s' hi hvs => ih.called_expr (.argument hf hvs hi)).bind
      fun vs s₂ hvs => logs_call fun c hc harity hdepth g s' hs => ?_
    have ha : Applies ctx n callee arguments s c vs { s₂ with depth := s₂.depth + 1 } :=
      .mk hf hvs hc harity hdepth
    exact .untilReturn fun i st s₃ hi hb => ih.called_stmt (.body ha hs hb hi)
  | get id object name =>
    refine (ih.called_expr .getObject).bind fun v s₁ _ => ?_
    cases v with
    | inst i => exact logs_getProperty i name
    | _ => exact .raised _
  | set id object name value =>
    refine (ih.called_expr .setObject).bind fun v s₁ ho => ?_
    cases v with
    | inst i =>
      exact (ih.called_expr (.setValue ho)).bind fun w s₂ _ => Prolongs.of_eq rfl
    | _ => exact .raised _
  | this id keyword => exact logs_lookUp ctx id keyword
  | super id keyword method => exact logs_superMethod ctx id method

/-- One step of the induction, for statements. -/
theorem logs_execute (ih : RunsLogged ctx n) (st : Stmt) (s : RunState) :
    Logs (Prints ctx (n + 1) (.stmt st) s) s (execute ctx (n + 1) st s) := by
  cases st with
  | block id body =>
    have hmade : Prolongs (Prints ctx (n + 1) (.stmt (.block id body)) s) s
        { s with store := (s.store.newScope { enclosing := some s.scope }).2 } := .of_eq rfl
    refine Logs.later hmade (.inScope (.untilReturn fun i st s' hi hb => ?_))
    exact ih.called_stmt (.block rfl hb hi)
  | expression id e => exact (ih.called_expr .expression).bind fun v s₁ _ => .ok _
  | print id e =>
    refine (ih.called_expr .print).bind fun v s₁ he => Prolongs.push ?_
    exact .mk .here he
  | varDecl id name initializer =>
    cases initializer with
    | none => exact Prolongs.of_eq rfl
    | some e => exact (ih.called_expr .initializer).bind fun v s₁ _ => Prolongs.of_eq rfl
  | branch id condition thenBranch elseBranch =>
    refine (ih.called_expr .branchCondition).bind fun v s₁ he => ?_
    cases ht : v.truthy with
    | true => exact ih.called_stmt (.thenBranch he ht)
    | false =>
      cases elseBranch with
      | none => exact .ok _
      | some st => exact ih.called_stmt (.elseBranch he ht)
  | loop id condition body =>
    refine (ih.called_expr .loopCondition).bind fun v s₁ he => ?_
    cases ht : v.truthy with
    | true =>
      refine (ih.called_stmt (.loopBody he ht)).bind fun c s₂ hb => ?_
      cases c with
      | normal => exact ih.called_stmt (.loopAgain he ht hb)
      | returned w => exact .ok _
    | false => exact .ok _
  | function f => exact Prolongs.of_eq rfl
  | ret id keyword value =>
    cases value with
    | none => exact .ok _
    | some e => exact (ih.called_expr .returned).bind fun v s₁ _ => .ok _
  | classDecl id name superclass methods =>
    cases superclass with
    | none => exact (logs_declareClass name none methods).bind fun _ _ _ => .ok _
    | some ref =>
      refine (ih.called_expr .superclass).bind fun v s₁ _ => ?_
      cases v with
      | cls c => exact (logs_declareClass name (some c) methods).bind fun _ _ _ => .ok _
      | _ => exact .raised _

theorem runs_logged (ctx : Context) (n : Nat) : RunsLogged ctx n := by
  induction n with
  | zero => exact ⟨fun _ _ => trivial, fun _ _ => trivial⟩
  | succ n ih => exact ⟨logs_evaluate ih, logs_execute ih⟩

end Runs

end Lox
