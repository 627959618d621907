import Lox.Proofs.Run.Output

/-!
# How a run ends when a part of it does

While a part is run, others are run on the way.  Where one of them ends normally, the whole run goes on
with the lines there are then; where it ends by a fault, the whole run ends by this fault, and neither
the store nor the lines change any more (`Visits.leadsTo`).
-/

namespace Lox

variable {α β γ : Type} {s s' : RunState}

/-- How a part of a run ended, and how the whole run does. -/
def Outcome.LeadsTo : Outcome RunState α → Outcome RunState β → Prop
  | .ok _ s, o => o.StartsWith s.printed
  | .raised fault s, o => ∃ s', o = .raised fault s' ∧ s'.store = s.store ∧ s'.printed = s.printed
  | .outOfFuel, o => o = .outOfFuel

/-- Any line. -/
def anyLine (_ : Nat) (_ : String) : Prop := True

namespace Outcome.LeadsTo

variable {o : Outcome RunState α} {o' : Outcome RunState β} {o'' : Outcome RunState γ}

theorem refl (o : Outcome RunState α) : o.LeadsTo o := by
  cases o with
  | ok a s => exact List.prefix_rfl
  | raised fault s => exact ⟨s, rfl, rfl, rfl⟩
  | outOfFuel => rfl

theorem startsWith {lines : Array String} (h : o.LeadsTo o') (ho : o.StartsWith lines) :
    o'.StartsWith lines := by
  cases o with
  | ok a s => exact StartsWith.trans ho h
  | raised fault s =>
    obtain ⟨s', rfl, -, hprinted⟩ := h
    have hstart : lines.toList <+: s.printed.toList := ho
    rw [← hprinted] at hstart
    exact hstart
  | outOfFuel =>
    cases h
    trivial

theorem trans (h : o.LeadsTo o') (h' : o'.LeadsTo o'') : o.LeadsTo o'' := by
  cases o with
  | ok a s => exact h'.startsWith h
  | raised fault s =>
    obtain ⟨s', rfl, hstore, hprinted⟩ := h
    obtain ⟨s'', rfl, hstore', hprinted'⟩ := h'
    exact ⟨s'', rfl, hstore'.trans hstore, hprinted'.trans hprinted⟩
  | outOfFuel =>
    cases h
    exact h'

/-- The first of two parts. -/
theorem bind {x : Run α} {f : α → Run β}
    (hf : ∀ a s', x s = .ok a s' → Logs anyLine s' (f a s')) : (x s).LeadsTo ((x >>= f) s) := by
  rw [Action.bind_apply]
  cases hx : x s with
  | ok a s' => exact (hf a s' hx).startsWith
  | raised fault s' => exact ⟨s', rfl, rfl, rfl⟩
  | outOfFuel => rfl

/-- What comes after the first part. -/
theorem rest {x : Run α} {f : α → Run β} {a : α} (hx : x s = .ok a s') {r : Outcome RunState γ}
    (h : r.LeadsTo (f a s')) : r.LeadsTo ((x >>= f) s) := by
  rw [Action.bind_apply, hx]
  exact h

theorem inScope (e : ScopeId) (x : Run α) (s : RunState) :
    (x { s with scope := e }).LeadsTo (Run.inScope e x s) := by
  unfold Run.inScope
  cases x { s with scope := e } with
  | ok a s' => exact List.prefix_rfl
  | raised fault s' => exact ⟨_, rfl, rfl, rfl⟩
  | outOfFuel => rfl

theorem deeper (x : Run α) (s : RunState) :
    (x { s with depth := s.depth + 1 }).LeadsTo (Run.deeper x s) := by
  unfold Run.deeper
  cases x { s with depth := s.depth + 1 } with
  | ok a s' => exact List.prefix_rfl
  | raised fault s' => exact ⟨_, rfl, rfl, rfl⟩
  | outOfFuel => rfl

/-! ### Lists -/

/-- A run over some elements, and one over more of them. -/
theorem append (x : List α → Run β) (h : ∀ as a, (x as s).LeadsTo (x (as ++ [a]) s)) (as bs : List α) :
    (x as s).LeadsTo (x (as ++ bs) s) := by
  induction bs using List.reverseRecOn with
  | nil =>
    rw [List.append_nil]
    exact refl _
  | append_singleton bs b ih =>
    rw [← List.append_assoc]
    exact ih.trans (h (as ++ bs) b)

/-- The run for one of the elements, and that over all of them. -/
theorem element (x : List α → Run β) (h : ∀ as a, (x as s).LeadsTo (x (as ++ [a]) s)) {as : List α}
    {i : Nat} {a : α} (hi : as[i]? = some a) {r : Outcome RunState γ}
    (hr : r.LeadsTo (x (as.take i ++ [a]) s)) : r.LeadsTo (x as s) := by
  rw [← List.take_succ_of_getElem? hi] at hr
  have hall := append x h (as.take (i + 1)) (as.drop (i + 1))
  rw [List.take_append_drop] at hall
  exact hr.trans hall

theorem collect {f : α → Run β} (hf : ∀ a s, Logs anyLine s (f a s)) {as : List α} {i : Nat} {a : α}
    {bs : List β} (hi : as[i]? = some a) (hb : Action.collect f (as.take i) s = .ok bs s') :
    (f a s').LeadsTo (Action.collect f as s) := by
  refine element (Action.collect f) (fun as a => ?_) hi ?_
  · rw [Action.collect_concat]
    exact bind fun bs s₁ _ => (hf a s₁).bind fun b s₂ _ => .ok _
  · rw [Action.collect_concat]
    exact rest hb (bind fun b s₂ _ => .ok _)

theorem untilReturn {f : α → Run Completion} (hf : ∀ a s, Logs anyLine s (f a s)) {as : List α}
    {i : Nat} {a : α} (hi : as[i]? = some a)
    (hb : Action.untilReturn f (as.take i) s = .ok .normal s') :
    (f a s').LeadsTo (Action.untilReturn f as s) := by
  refine element (Action.untilReturn f) (fun as a => ?_) hi ?_
  · rw [Action.untilReturn_concat]
    refine bind fun c s₁ _ => ?_
    cases c with
    | normal => exact hf a s₁
    | returned v => exact .ok _
  · rw [Action.untilReturn_concat]
    exact rest hb (refl _)

theorem throughout {f : α → Run Completion} (hf : ∀ a s, Logs anyLine s (f a s)) {as : List α}
    {i : Nat} {a : α} (hi : as[i]? = some a) (hb : Action.throughout f (as.take i) s = .ok () s') :
    (f a s').LeadsTo (Action.throughout f as s) := by
  refine element (Action.throughout f) (fun as a => ?_) hi ?_
  · rw [Action.throughout_concat]
    exact bind fun _ s₁ _ => (hf a s₁).bind fun c s₂ _ => .ok ()
  · rw [Action.throughout_concat]
    exact rest hb (bind fun c s₂ _ => .ok ())

end Outcome.LeadsTo

/-! ### Nodes -/

/-- The end of a run, without its result. -/
def Outcome.void : Outcome RunState α → Outcome RunState Unit
  | .ok _ s => .ok () s
  | .raised fault s => .raised fault s
  | .outOfFuel => .outOfFuel

theorem Outcome.StartsWith.of_state? {lines : Array String} {o : Outcome RunState α}
    (h : o.StartsWith lines) (hend : o.state? = some s) : lines.toList <+: s.printed.toList := by
  cases o <;> cases hend <;> exact h

/-- How the run of a part ends, and in which state.  A program and a method are not run as such. -/
def Part.ending (ctx : Context) : Nat → Part → RunState → Outcome RunState Unit
  | n, .expr e, s => (evaluate ctx n e s).void
  | n, .stmt st, s => (execute ctx n st s).void
  | 0, _, _ => .outOfFuel
  | _ + 1, _, s => .ok () s

/-- The result of a part makes no difference to where it leads. -/
theorem Outcome.LeadsTo.of_void {o : Outcome RunState α} {o' : Outcome RunState β} (h : o.LeadsTo o') :
    o.void.LeadsTo o' := by
  cases o <;> exact h

theorem Outcome.LeadsTo.void {o : Outcome RunState α} {o' : Outcome RunState β} (h : o.LeadsTo o') :
    o.void.LeadsTo o'.void := by
  have hvoid : o'.LeadsTo o'.void := by
    cases o' with
    | ok b s => exact List.prefix_rfl
    | raised fault s => exact ⟨s, rfl, rfl, rfl⟩
    | outOfFuel => rfl
  exact h.of_void.trans hvoid

section Nodes

variable {ctx : Context} {n : Nat} {t u : Part}

theorem evaluate_logs (ctx : Context) (n : Nat) (e : Expr) (s : RunState) :
    Logs anyLine s (evaluate ctx n e s) :=
  ((runs_logged ctx n).expr e s).mono fun _ _ _ => trivial

theorem execute_logs (ctx : Context) (n : Nat) (st : Stmt) (s : RunState) :
    Logs anyLine s (execute ctx n st s) :=
  ((runs_logged ctx n).stmt st s).mono fun _ _ _ => trivial

theorem untilReturn_logs (ctx : Context) (n : Nat) (body : List Stmt) (s : RunState) :
    Logs anyLine s (Action.untilReturn (execute ctx n) body s) :=
  .untilReturn fun _ st s' _ _ => execute_logs ctx n st s'

/-- The body of a function that is called, and the call. -/
theorem Applies.leadsTo {id : NodeId} {callee : Expr} {paren : Token} {arguments : List Expr}
    {c : Callable} {vs : List Value} {s₁ s₂ : RunState} {f : FunctionObject}
    (ha : Applies ctx n callee arguments s c vs s₁) (hs : Starts vs c s₁ f s₂) :
    (Action.untilReturn (execute ctx n) f.declaration.body s₂).LeadsTo
      (evaluate ctx (n + 1) (.call id callee paren arguments) s) := by
  have hcalled : ∀ {g : FunctionObject} {s₃ s₄ : RunState} {scope : ScopeId},
      Run.enterFunction g vs s₃ = .ok scope s₄ →
      (Action.untilReturn (execute ctx n) g.declaration.body { s₄ with scope := scope }).LeadsTo
        (Run.callFunction (Action.untilReturn (execute ctx n)) g vs s₃) := by
    intro g s₃ s₄ scope he
    show Outcome.LeadsTo _ ((Run.enterFunction g vs >>= _) s₃)
    rw [Action.bind_apply, he]
    refine (Outcome.LeadsTo.inScope ..).trans ?_
    show Outcome.LeadsTo _ ((Run.inScope scope _ >>= _) s₄)
    refine .bind fun completion s₅ _ => ?_
    cases g.isInitializer with
    | true => exact .ofScope _
    | false =>
      cases completion with
      | normal => exact .ok _
      | returned v => exact .ok v
  have hinvoked : (Action.untilReturn (execute ctx n) f.declaration.body s₂).LeadsTo
      (Run.invoke (Action.untilReturn (execute ctx n)) c vs s₁) := by
    cases hs with
    | function he => exact hcalled he
    | construct hc he =>
      show Outcome.LeadsTo _ (Run.construct _ _ vs s₁)
      rw [Run.construct_of_constructs hc]
      exact (hcalled he).trans (.bind fun v s' _ => .ok _)
  cases ha with
  | mk hf hvs hc harity hdepth =>
    refine .rest hf (.rest hvs ?_)
    rw [Run.call_of_applies hc harity hdepth]
    exact hinvoked.trans (.deeper ..)

/-- A node that is called, and its caller. -/
theorem Calls.leadsTo (hc : Calls ctx n t s u s') :
    (u.ending ctx n s').LeadsTo (t.ending ctx (n + 1) s) := by
  cases hc with
  | @assigned id target equals value =>
    refine Outcome.LeadsTo.void (.bind fun v s₁ _ => ?_)
    exact (logs_assign ctx id (target.assignedName equals) v).bind fun _ _ _ => .ok v
  | binaryLeft =>
    refine Outcome.LeadsTo.void (.bind fun l s₁ _ => ?_)
    exact (evaluate_logs ctx n _ s₁).bind fun r s₂ _ => .ofExcept _
  | binaryRight hl =>
    exact Outcome.LeadsTo.void (.rest hl (.bind fun r s₂ _ => .ofExcept _))
  | @logicalLeft id left operator right =>
    refine Outcome.LeadsTo.void (.bind fun l s₁ _ => ?_)
    cases operator.decidesLogical l with
    | true => exact .ok l
    | false => exact evaluate_logs ctx n right s₁
  | logicalRight hl hd =>
    refine Outcome.LeadsTo.void (.rest hl ?_)
    rw [hd]
    exact .refl _
  | operand => exact Outcome.LeadsTo.void (.bind fun v s₁ _ => .ofExcept _)
  | inner => exact .refl _
  | @callee id callee paren arguments =>
    refine Outcome.LeadsTo.void (.bind fun f s₁ _ => ?_)
    refine (Logs.collect fun i e vs s₂ _ _ => evaluate_logs ctx n e s₂).bind fun vs s₂ _ => ?_
    exact logs_call fun c _ _ _ g s₃ _ => untilReturn_logs ctx n _ s₃
  | argument hf hvs hi =>
    refine Outcome.LeadsTo.void (.rest hf ?_)
    refine (Outcome.LeadsTo.collect (evaluate_logs ctx n) hi hvs).trans (.bind fun vs s₂ _ => ?_)
    exact logs_call fun c _ _ _ g s₃ _ => untilReturn_logs ctx n _ s₃
  | body ha hs hb hi =>
    have hstatement := Outcome.LeadsTo.untilReturn (execute_logs ctx n) hi hb
    exact Outcome.LeadsTo.void (hstatement.trans (ha.leadsTo hs))
  | @getObject id object name =>
    refine Outcome.LeadsTo.void (.bind fun v s₁ _ => ?_)
    cases v with
    | inst i => exact logs_getProperty i name
    | _ => exact .raised _
  | @setObject id object name value =>
    refine Outcome.LeadsTo.void (.bind fun v s₁ _ => ?_)
    cases v with
    | inst i => exact (evaluate_logs ctx n value s₁).bind fun w s₂ _ => Prolongs.of_eq rfl
    | _ => exact .raised _
  | setValue ho => exact Outcome.LeadsTo.void (.rest ho (.bind fun w s₂ _ => Prolongs.of_eq rfl))
  | block he hb hi =>
    have hstatement := Outcome.LeadsTo.untilReturn (execute_logs ctx n) hi hb
    cases he
    exact Outcome.LeadsTo.void (hstatement.trans (.inScope ..))
  | expression => exact Outcome.LeadsTo.void (.bind fun v s₁ _ => .ok _)
  | print => exact Outcome.LeadsTo.void (.bind fun v s₁ _ => Prolongs.push trivial)
  | initializer => exact Outcome.LeadsTo.void (.bind fun v s₁ _ => Prolongs.of_eq rfl)
  | @branchCondition id condition thenBranch elseBranch =>
    refine Outcome.LeadsTo.void (.bind fun v s₁ _ => ?_)
    cases v.truthy with
    | true => exact execute_logs ctx n thenBranch s₁
    | false =>
      cases elseBranch with
      | none => exact .ok _
      | some st => exact execute_logs ctx n st s₁
  | thenBranch he ht =>
    refine Outcome.LeadsTo.void (.rest he ?_)
    rw [ht]
    exact .refl _
  | elseBranch he ht =>
    refine Outcome.LeadsTo.void (.rest he ?_)
    rw [ht]
    exact .refl _
  | @loopCondition id condition body =>
    refine Outcome.LeadsTo.void (.bind fun v s₁ _ => ?_)
    cases v.truthy with
    | true =>
      refine Logs.bind (execute_logs ctx n body s₁) fun c s₂ _ => ?_
      cases c with
      | normal => exact execute_logs ctx n _ s₂
      | returned w => exact .ok _
    | false => exact .ok _
  | loopBody he ht =>
    refine Outcome.LeadsTo.void (.rest he ?_)
    rw [ht]
    refine Outcome.LeadsTo.bind fun c s₂ _ => ?_
    cases c with
    | normal => exact execute_logs ctx n _ s₂
    | returned w => exact .ok _
  | loopAgain he ht hb =>
    refine Outcome.LeadsTo.void (.rest he ?_)
    rw [ht]
    exact Outcome.LeadsTo.rest hb (.refl _)
  | returned => exact Outcome.LeadsTo.void (.bind fun v s₁ _ => .ok _)
  | @superclass id name ref methods =>
    refine Outcome.LeadsTo.void (.bind fun v s₁ _ => ?_)
    cases v with
    | cls c => exact (logs_declareClass name (some c) methods).bind fun _ _ _ => .ok _
    | _ => exact .raised _

/-- A node that is visited, and the node from which the run came there. -/
theorem Visits.leadsTo {m : Nat} (hv : Visits ctx n t s m u s') :
    (u.ending ctx m s').LeadsTo (t.ending ctx n s) := by
  induction hv with
  | here => exact .refl _
  | step hc _ ih => exact ih.trans hc.leadsTo

/-- A line that a node prints has its number in the end. -/
theorem Prints.leadsTo {i : Nat} {line : String} (h : Prints ctx n t s i line)
    {o : Outcome RunState α} (ho : (t.ending ctx n s).LeadsTo o) (hend : o.state? = some s') :
    s'.printed.toList[i]? = some line := by
  cases h with
  | @mk m id e s₁ s₂ v hv he =>
    have hprint : (Part.stmt (.print id e)).ending ctx (m + 1) s₁ =
        .ok () { s₂ with printed := s₂.printed.push (s₂.store.display v) } := by
      show ((evaluate ctx m e >>= _) s₁ : Outcome RunState Completion).void = _
      rw [Action.bind_apply, he]
      rfl
    have hstart := hv.leadsTo.trans ho
    rw [hprint] at hstart
    obtain ⟨rest, hrest⟩ := Outcome.StartsWith.of_state? hstart hend
    rw [← hrest, Array.toList_push, List.append_assoc, List.getElem?_append_right (by simp)]
    simp

end Nodes

/-! ### Programs -/

section Programs

variable {ctx : Context} {n k : Nat} {p : Program} {st : Stmt} {s₁ : RunState}

/-- A node that is visited while the statements of a program are run, and the run of them all. -/
theorem Visits.leadsTo_program {m : Nat} {u : Part} (hi : p[k]? = some st)
    (hb : Action.throughout (execute ctx n) (p.take k) s = .ok () s₁)
    (hv : Visits ctx n (.stmt st) s₁ m u s') :
    (u.ending ctx m s').LeadsTo (Action.throughout (execute ctx n) p s) := by
  have hstatement : (execute ctx n st s₁).LeadsTo (Action.throughout (execute ctx n) p s) :=
    .throughout (execute_logs ctx n) hi hb
  exact hv.leadsTo.trans hstatement.of_void

end Programs

end Lox
