import Lox.Proofs.Run.Balance
import Lox.Proofs.Run.Persistence

/-!
# How a call ends

A call whose callee has run its body to the end goes on with a value, in the scope and at the depth in which
it began, and with the store and the lines that the body has left.  The value is what the body returned, or
nil; that of an initializer is what its closure binds to `this`, and that of a class is the instance that was
made for the call.
-/

namespace Lox

/-- The second of two parts ends well only after the first. -/
theorem Action.bind_eq_ok {σ α β : Type} {x : Action σ α} {f : α → Action σ β} {b : β} {s s' : σ} :
    (x >>= f) s = .ok b s' ↔ ∃ a s₁, x s = .ok a s₁ ∧ f a s₁ = .ok b s' := by
  rw [Action.bind_apply]
  cases x s with
  | ok a s₁ => simp
  | raised fault s₁ => simp
  | outOfFuel => simp

/-- The value of a call, by the way its body completed. -/
def Completion.value : Completion → Value
  | .normal => .nil
  | .returned v => v

/-- What a function hands back when its body has completed and left a store. -/
def FunctionObject.handsBack (f : FunctionObject) (st : Store) (completion : Completion) :
    Except ScopeFault Value :=
  if f.isInitializer then st.getAt f.closure 0 "this" else .ok completion.value

variable {ctx : Context} {n : Nat} {s s₁ s₂ s₃ : RunState} {vs : List Value} {completion : Completion}

/-! ### What persists through a body -/

theorem evaluate_persists {e : Expr} {v : Value} (h : evaluate ctx n e s = .ok v s₁) :
    s.store.PersistsIn s₁.store := by
  obtain ⟨last, hlast, hend, -⟩ := Part.outcome_persists ctx n (.expr e) s
  change (evaluate ctx n e s).store.EndsWith last at hend
  rw [h] at hend
  cases hend
  exact hlast

theorem collect_persists {es : List Expr} (h : Action.collect (evaluate ctx n) es s = .ok vs s₁) :
    s.store.PersistsIn s₁.store := by
  induction es generalizing s vs with
  | nil =>
    cases h
    exact .refl _
  | cons e es ih =>
    obtain ⟨v, s', he, hrest⟩ := Action.bind_eq_ok.1 h
    obtain ⟨ws, s'', hes, hend⟩ := Action.bind_eq_ok.1 hrest
    cases hend
    exact (evaluate_persists he).trans (ih hes)

theorem execute_persists {st : Stmt} (h : execute ctx n st s = .ok completion s₁) :
    s.store.PersistsIn s₁.store := by
  obtain ⟨last, hlast, hend, -⟩ := Part.outcome_persists ctx n (.stmt st) s
  change (execute ctx n st s).store.EndsWith last at hend
  rw [h] at hend
  cases hend
  exact hlast

theorem untilReturn_persists {body : List Stmt}
    (h : Action.untilReturn (execute ctx n) body s = .ok completion s₁) :
    s.store.PersistsIn s₁.store := by
  induction body generalizing s with
  | nil =>
    cases h
    exact .refl _
  | cons st body ih =>
    obtain ⟨c, s', hst, hrest⟩ := Action.bind_eq_ok.1 h
    cases c with
    | normal => exact (execute_persists hst).trans (ih hrest)
    | returned v =>
      cases hrest
      exact execute_persists hst

/-! ### Functions and classes -/

section Bodies

variable {run : List Stmt → Run Completion} {f g : FunctionObject} {scope : ScopeId}

theorem Run.callFunction_of_body (he : Run.enterFunction f vs s = .ok scope s₁)
    (hb : run f.declaration.body { s₁ with scope := scope } = .ok completion s₂) :
    Run.callFunction run f vs s =
      Run.ofScope (f.handsBack s₂.store completion) { s₂ with scope := s.scope } := by
  have hscope : s₁.scope = s.scope := by
    cases he
    rfl
  unfold Run.callFunction FunctionObject.handsBack
  rw [Action.bind_apply, he]
  dsimp only
  rw [Action.bind_apply, Run.inScope, hb]
  dsimp only
  rw [hscope]
  cases f.isInitializer with
  | true => exact Run.ask_bind ..
  | false => cases completion <;> rfl

/-- A value that is bound to a scope goes on being bound to it. -/
theorem Store.PersistsIn.exists_getAt_zero {st st' : Store} (h : st.PersistsIn st') {e : ScopeId}
    {x : String} {v : Value} (hx : st.read? e x = some v) : ∃ w, st'.getAt e 0 x = .ok w := by
  refine h.observed.resolved e 0 x v ?_
  simp only [Store.getAt, Store.scopeAt_zero, hx]

/-- The closure of a function that was bound to an instance binds `this` to it. -/
theorem Constructs.read?_this {c : ClassId} (hc : Constructs c s f g s₁) :
    s₁.store.read? g.closure "this" = some (.inst ⟨s.store.instances.size⟩) := by
  cases hc with
  | mk hi hf hg =>
    cases hi
    cases hg
    exact Store.read?_of_scope? ((Store.scope?_newScope ..).trans (if_pos rfl)) _

theorem Constructs.scope_eq {c : ClassId} (hc : Constructs c s f g s₁) : s₁.scope = s.scope := by
  cases hc with
  | mk hi _ hg =>
    cases hi
    cases hg
    rfl

/-- Whatever the body did, `this` is still bound, and what it is bound to makes no difference. -/
theorem Run.construct_of_body {c : ClassId} (hc : Constructs c s f g s₁)
    (he : Run.enterFunction g vs s₁ = .ok scope s₂)
    (hb : run g.declaration.body { s₂ with scope := scope } = .ok completion s₃)
    (hp : s₂.store.PersistsIn s₃.store) :
    Run.construct run c vs s =
      .ok (.inst ⟨s.store.instances.size⟩) { s₃ with scope := s₁.scope } := by
  have hentered : s₁.store.PersistsIn s₂.store := by
    cases he
    exact .newScope ..
  obtain ⟨v, hv⟩ := (hentered.trans hp).exists_getAt_zero hc.read?_this
  rw [Run.construct_of_constructs hc, Action.bind_apply, Run.callFunction_of_body he hb,
    FunctionObject.handsBack, hv]
  cases g.isInitializer <;> rfl

end Bodies

/-! ### Calls -/

section Calls

variable {callee : Expr} {arguments : List Expr} {c : Callable} {f : FunctionObject}

theorem Applies.scope_eq (ha : Applies ctx n callee arguments s c vs s₁) : s₁.scope = s.scope := by
  cases ha with
  | mk hf hvs =>
    exact ((collect_balanced ..).scope_eq hvs).trans ((evaluate_balanced ..).scope_eq hf)

/-- Callee and arguments are evaluated before anything is called. -/
theorem evaluate_call_of_collected {v : Value} (hf : evaluate ctx n callee s = .ok v s₁)
    (hvs : Action.collect (evaluate ctx n) arguments s₁ = .ok vs s₂) (id : NodeId) (paren : Token) :
    evaluate ctx (n + 1) (.call id callee paren arguments) s =
      Run.call ctx (Action.untilReturn (execute ctx n)) paren v vs s₂ := by
  rw [evaluate, Action.bind_apply, hf]
  dsimp only
  rw [Action.bind_apply, hvs]

/-- A call that is not refused invokes the callee, one call deeper. -/
theorem Applies.evaluate_eq (ha : Applies ctx n callee arguments s c vs s₁) (id : NodeId)
    (paren : Token) : evaluate ctx (n + 1) (.call id callee paren arguments) s =
      Run.deeper (Run.invoke (Action.untilReturn (execute ctx n)) c vs)
        { s₁ with depth := s₁.depth - 1 } := by
  cases ha with
  | mk hf hvs hc harity hdepth =>
    rw [evaluate_call_of_collected hf hvs, Run.call_of_applies hc harity hdepth]
    rfl

/-- The callee has handed back a value, or has not found it, in the scope and at the depth of the call. -/
theorem Applies.evaluate_of_invoke (ha : Applies ctx n callee arguments s c vs s₁)
    {r : Except ScopeFault Value}
    (hr : Run.invoke (Action.untilReturn (execute ctx n)) c vs s₁ = Run.ofScope r s₃)
    (hscope : s₃.scope = s₁.scope) (hdepth : s₃.depth = s₁.depth) (id : NodeId) (paren : Token) :
    evaluate ctx (n + 1) (.call id callee paren arguments) s =
      Run.ofScope r { s₃ with scope := s.scope, depth := s.depth } := by
  have hdeeper : s₁.depth - 1 + 1 = s₁.depth := by
    have := ha.depth_eq.1
    omega
  have hback : s₃.depth - 1 = s.depth := by
    rw [hdepth, ha.depth_eq.1, Nat.add_sub_cancel]
  rw [ha.evaluate_eq, Run.deeper]
  dsimp only
  rw [hdeeper, hr, ← hback, ← ha.scope_eq, ← hscope]
  cases r <;> rfl

theorem Starts.depth_after (hs : Starts vs c s₁ f s₂)
    (hb : Action.untilReturn (execute ctx n) f.declaration.body s₂ = .ok completion s₃) :
    s₃.depth = s₁.depth :=
  ((untilReturn_balanced ..).depth_eq hb).trans hs.depth_eq

/-- A function hands back what its body leads to. -/
theorem Applies.evaluate_function (ha : Applies ctx n callee arguments s (.function f) vs s₁)
    (hs : Starts vs (.function f) s₁ f s₂)
    (hb : Action.untilReturn (execute ctx n) f.declaration.body s₂ = .ok completion s₃) (id : NodeId)
    (paren : Token) : evaluate ctx (n + 1) (.call id callee paren arguments) s =
      Run.ofScope (f.handsBack s₃.store completion)
        { s₃ with scope := s.scope, depth := s.depth } := by
  have hdepth := hs.depth_after hb
  cases hs with
  | function he => exact ha.evaluate_of_invoke (Run.callFunction_of_body he hb) rfl hdepth id paren

/-- A class hands back the instance that was made for the call. -/
theorem Applies.evaluate_construct {cls : ClassId}
    (ha : Applies ctx n callee arguments s (.cls cls) vs s₁) (hs : Starts vs (.cls cls) s₁ f s₂)
    (hb : Action.untilReturn (execute ctx n) f.declaration.body s₂ = .ok completion s₃) (id : NodeId)
    (paren : Token) : evaluate ctx (n + 1) (.call id callee paren arguments) s =
      .ok (.inst ⟨s₁.store.instances.size⟩) { s₃ with scope := s.scope, depth := s.depth } := by
  have hdepth := hs.depth_after hb
  cases hs with
  | construct hc he =>
    have hp := untilReturn_persists hb
    have hmade := Run.construct_of_body hc he hb hp
    rw [hc.scope_eq] at hmade
    exact ha.evaluate_of_invoke (r := .ok _) hmade rfl hdepth id paren

end Calls

/-! ### Calls that have ended -/

/-- How a run one call deeper ended there. -/
theorem Run.deeper_eq_ok {x : Run Value} {v : Value} (h : Run.deeper x s = .ok v s₁) :
    ∃ s₂, x { s with depth := s.depth + 1 } = .ok v s₂ ∧ s₁ = { s₂ with depth := s₂.depth - 1 } := by
  unfold Run.deeper at h
  cases hx : x { s with depth := s.depth + 1 } with
  | ok w s₂ =>
    rw [hx] at h
    cases h
    exact ⟨s₂, rfl, rfl⟩
  | raised fault s₂ =>
    rw [hx] at h
    cases h
  | outOfFuel =>
    rw [hx] at h
    cases h

/-- A function that has handed back a value has run its body to the end. -/
theorem Run.callFunction_eq_ok {run : List Stmt → Run Completion} {f : FunctionObject} {v : Value}
    (h : Run.callFunction run f vs s = .ok v s₃) : ∃ scope s₁ completion s₂,
      Run.enterFunction f vs s = .ok scope s₁ ∧
        run f.declaration.body { s₁ with scope := scope } = .ok completion s₂ ∧
          f.handsBack s₂.store completion = .ok v := by
  obtain ⟨scope, s₁, he, hrest⟩ := Action.bind_eq_ok.1 h
  obtain ⟨completion, s₂, hb, -⟩ := Action.bind_eq_ok.1 hrest
  obtain ⟨s₂, hb, -⟩ := Run.inScope_eq_ok hb
  refine ⟨scope, s₁, completion, s₂, he, hb, ?_⟩
  rw [Run.callFunction_of_body he hb] at h
  cases hv : f.handsBack s₂.store completion with
  | ok w =>
    rw [hv] at h
    cases h
    rfl
  | error fault =>
    rw [hv] at h
    cases h

/-- A class that has handed back a value has made an instance and, if it has an initializer, run the body
of that to the end. -/
theorem Run.construct_eq_ok {run : List Stmt → Run Completion} {c : ClassId} {v : Value}
    (h : Run.construct run c vs s = .ok v s₃) :
    s.store.initializer? c = none ∨
      ∃ f g s₁ scope s₂ completion s', Constructs c s f g s₁ ∧
        Run.enterFunction g vs s₁ = .ok scope s₂ ∧
          run g.declaration.body { s₂ with scope := scope } = .ok completion s' := by
  refine (Run.constructs_cases c s).imp_right ?_
  rintro ⟨f, g, s₀, hc⟩
  rw [Run.construct_of_constructs hc] at h
  obtain ⟨w, s₁, hcall, -⟩ := Action.bind_eq_ok.1 h
  obtain ⟨scope, s₂, completion, s', he, hb, -⟩ := Run.callFunction_eq_ok hcall
  exact ⟨f, g, s₀, scope, s₂, completion, s', hc, he, hb⟩

section

variable {callee : Expr} {arguments : List Expr} {id : NodeId} {paren : Token}

/-- A call that is refused is an error. -/
theorem Refuses.evaluate_eq {e : RuntimeError} (hr : Refuses ctx n callee paren arguments s e s₁)
    (id : NodeId) : evaluate ctx (n + 1) (.call id callee paren arguments) s = .raised (.error e) s₁ := by
  cases hr with
  | notCallable hf hvs hc =>
    rw [evaluate_call_of_collected hf hvs, Run.call_of_not_callable hc]
  | arity hf hvs hc harity =>
    rw [evaluate_call_of_collected hf hvs, Run.call_of_arity hc harity]
  | overflow hf hvs hc harity hdepth =>
    rw [evaluate_call_of_collected hf hvs, Run.call_of_overflow hc harity hdepth]

/-- When callee and arguments are known, the call is refused or goes ahead. -/
theorem refuses_or_applies {v : Value} (hf : evaluate ctx n callee s = .ok v s₁)
    (hvs : Action.collect (evaluate ctx n) arguments s₁ = .ok vs s₂) (paren : Token) :
    (∃ e, Refuses ctx n callee paren arguments s e s₂) ∨
      ∃ c, Applies ctx n callee arguments s c vs { s₂ with depth := s₂.depth + 1 } := by
  cases hc : s₂.store.callable? v with
  | none => exact .inl ⟨_, .notCallable hf hvs hc⟩
  | some c =>
    by_cases harity : (vs.length : Int) = s₂.store.arity c
    · by_cases hdepth : s₂.depth < ctx.maxDepth
      · exact .inr ⟨c, .mk hf hvs hc harity hdepth⟩
      · exact .inl ⟨_, .overflow hf hvs hc harity (Nat.le_of_not_lt hdepth)⟩
    · exact .inl ⟨_, .arity hf hvs hc harity⟩

/-- A call that has ended was not refused, and the callee has handed back its value. -/
theorem evaluate_call_eq_ok {v : Value} {s' : RunState}
    (h : evaluate ctx (n + 1) (.call id callee paren arguments) s = .ok v s') :
    ∃ c vs s₁ s₂, Applies ctx n callee arguments s c vs s₁ ∧
      Run.invoke (Action.untilReturn (execute ctx n)) c vs s₁ = .ok v s₂ ∧
        s' = { s₂ with depth := s₂.depth - 1 } := by
  have hparts := h
  rw [evaluate] at hparts
  obtain ⟨f, s₁, hf, hparts⟩ := Action.bind_eq_ok.1 hparts
  obtain ⟨vs, s₂, hvs, -⟩ := Action.bind_eq_ok.1 hparts
  rcases refuses_or_applies hf hvs paren with ⟨e, hr⟩ | ⟨c, ha⟩
  · cases h.symm.trans (hr.evaluate_eq id)
  · obtain ⟨s₃, hinvoke, hend⟩ := Run.deeper_eq_ok ((ha.evaluate_eq id paren).symm.trans h)
    exact ⟨c, vs, _, s₃, ha, hinvoke, hend⟩

end

end Lox
