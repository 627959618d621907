import Lox.Proofs.Run.Events

/-!
# Accounts of runs

A property of runs that speaks of what happens during a run, of the store it starts with and of its end
holds of every run if it holds of the single events, and of a sequence if it holds of both parts
(`Account`).  The evaluator is gone through once, to show that nothing happens in it but what `Changes`,
`Raises` and `Calls` list, and that all of this does happen (`Accounts.run`).
-/

namespace Lox

/-- How a run ends, as far as the store is concerned. -/
def Outcome.store {α : Type} : Outcome RunState α → Outcome Store Unit
  | .ok _ s => .ok () s.store
  | .raised fault s => .raised fault s.store
  | .outOfFuel => .outOfFuel

/-- How the run of a part ends.  A program and a method are not run as such. -/
def Part.outcome (ctx : Context) : Nat → Part → RunState → Outcome Store Unit
  | n, .expr e, s => (evaluate ctx n e s).store
  | n, .stmt st, s => (execute ctx n st s).store
  | 0, _, _ => .outOfFuel
  | _ + 1, _, s => .ok () s.store

/-- A property of what happens during a run, from a store to an end, that can be put together from the
parts of the run. -/
structure Account (Φ : (Event → Prop) → Store → Outcome Store Unit → Prop) : Prop where
  less : ∀ {M N st o}, (∀ ev, N ev → M ev) → Φ M st o → Φ N st o
  done : ∀ st, Φ (fun _ => False) st (.ok () st)
  next : ∀ {M N st st' o}, Φ M st (.ok () st') → Φ N st' o → Φ (fun ev => M ev ∨ N ev) st o

/-- One store comes after another: something that can be accounted for happens in between. -/
def Comes (Φ : (Event → Prop) → Store → Outcome Store Unit → Prop) (st st' : Store) : Prop :=
  ∃ M, Φ M st (.ok () st')

section Rules

variable {Φ : (Event → Prop) → Store → Outcome Store Unit → Prop} (acc : Account Φ) {α β : Type}
  {M N : Event → Prop} {st st' st'' : Store} {s s' : RunState} {o : Outcome Store Unit}

include acc

theorem Comes.refl (st : Store) : Comes Φ st st := ⟨_, acc.done st⟩

theorem Comes.trans (h : Comes Φ st st') (h' : Comes Φ st' st'') : Comes Φ st st'' := by
  obtain ⟨M, h⟩ := h
  obtain ⟨N, h'⟩ := h'
  exact ⟨_, acc.next h h'⟩

namespace Account

theorem after (h : Φ M st (.ok () st')) (h' : Φ N st' o) : Φ N st o :=
  acc.less (fun _ => .inr) (acc.next h h')

theorem nothing (h : ∀ ev, ¬ M ev) : Φ M st (.ok () st) :=
  acc.less (fun ev hev => h ev hev) (acc.done st)

/-- The first of two parts need not be followed by the second. -/
theorem bind {x : Run α} {f : α → Run β} {N : α → RunState → Event → Prop}
    (hx : Φ M s.store (x s).store)
    (hf : ∀ a s', x s = .ok a s' → Comes Φ s.store s'.store → Φ (N a s') s'.store (f a s').store) :
    Φ (fun ev => M ev ∨ ∃ a s', x s = .ok a s' ∧ N a s' ev) s.store ((x >>= f) s).store := by
  rw [Action.bind_apply]
  cases hxs : x s with
  | ok a s' =>
    rw [hxs] at hx
    refine acc.less ?_ (acc.next hx (hf a s' hxs ⟨_, hx⟩))
    rintro ev (h | ⟨a', s'', he, h⟩)
    · exact .inl h
    · cases he
      exact .inr h
  | raised fault s' =>
    rw [hxs] at hx
    refine acc.less ?_ hx
    rintro ev (h | ⟨a', s'', he, -⟩)
    · exact h
    · cases he
  | outOfFuel =>
    rw [hxs] at hx
    refine acc.less ?_ hx
    rintro ev (h | ⟨a', s'', he, -⟩)
    · exact h
    · cases he

/-- After the first part nothing more happens. -/
theorem map {x : Run α} {f : α → β} (hx : Φ M s.store (x s).store) :
    Φ M s.store ((x >>= fun a => pure (f a)) s).store :=
  acc.less (fun _ => .inl) (acc.bind (N := fun _ _ _ => False) hx fun _ s' _ _ => acc.done s'.store)

/-! ### Lists -/

/-- A run over a list is accounted for if the empty one is, and one element more with what happens
for it. -/
theorem prefixes {as : List α} {x : List α → Run β} {N : Nat → α → Event → Prop}
    (hnil : Φ (fun _ => False) s.store (x [] s).store)
    (hconcat : ∀ (i : Nat) a M, as[i]? = some a → Φ M s.store (x (as.take i) s).store →
      Φ (fun ev => M ev ∨ N i a ev) s.store (x (as.take i ++ [a]) s).store) :
    Φ (fun ev => ∃ (i : Nat) (a : α), as[i]? = some a ∧ N i a ev) s.store (x as s).store := by
  have key : ∀ k ≤ as.length, Φ (fun ev => ∃ (i : Nat) (a : α), i < k ∧ as[i]? = some a ∧ N i a ev)
      s.store (x (as.take k) s).store := by
    intro k hk
    induction k with
    | zero =>
      rw [List.take_zero]
      exact acc.less (fun ev ⟨_, _, hi, _⟩ => absurd hi (Nat.not_lt_zero _)) hnil
    | succ k ih =>
      have ha := List.getElem?_eq_getElem hk
      rw [List.take_succ_of_getElem? ha]
      refine acc.less ?_ (hconcat k _ _ ha (ih (Nat.le_of_succ_le hk)))
      rintro ev ⟨i, a, hi, ha', hev⟩
      rcases Nat.lt_succ_iff_lt_or_eq.1 hi with hi | rfl
      · exact .inl ⟨i, a, hi, ha', hev⟩
      · cases ha.symm.trans ha'
        exact .inr hev
  refine acc.less ?_ (List.take_length (l := as) ▸ key as.length (Nat.le_refl _))
  rintro ev ⟨i, a, ha, hev⟩
  exact ⟨i, a, (List.getElem?_eq_some_iff.1 ha).1, ha, hev⟩

theorem collect {f : α → Run β} {as : List α} {M : α → RunState → Event → Prop}
    (h : ∀ (i : Nat) a bs s', as[i]? = some a → Action.collect f (as.take i) s = .ok bs s' →
      Comes Φ s.store s'.store → Φ (M a s') s'.store (f a s').store) :
    Φ (fun ev => ∃ (i : Nat) (a : α), as[i]? = some a ∧ ∃ bs s',
        Action.collect f (as.take i) s = .ok bs s' ∧ M a s' ev) s.store
      (Action.collect f as s).store := by
  refine acc.prefixes (acc.done s.store) fun i a N ha hM => ?_
  rw [Action.collect_concat]
  exact acc.bind hM fun bs s₁ hbs hc => acc.map (h i a bs s₁ ha hbs hc)

theorem untilReturn {f : α → Run Completion} {as : List α} {M : α → RunState → Event → Prop}
    (h : ∀ (i : Nat) a s', as[i]? = some a → Action.untilReturn f (as.take i) s = .ok .normal s' →
      Comes Φ s.store s'.store → Φ (M a s') s'.store (f a s').store) :
    Φ (fun ev => ∃ (i : Nat) (a : α), as[i]? = some a ∧ ∃ s',
        Action.untilReturn f (as.take i) s = .ok .normal s' ∧ M a s' ev) s.store
      (Action.untilReturn f as s).store := by
  refine acc.prefixes (acc.done s.store) fun i a N ha hM => ?_
  rw [Action.untilReturn_concat]
  refine acc.less ?_ (acc.bind (N := fun c s' ev => c = .normal ∧ M a s' ev) hM fun c s₁ hs hc => ?_)
  · rintro ev (hev | ⟨s', hs, hev⟩)
    · exact .inl hev
    · exact .inr ⟨_, s', hs, rfl, hev⟩
  · cases c with
    | normal => exact acc.less (fun ev hev => hev.2) (h i a s₁ ha hs hc)
    | returned v => exact acc.less (fun ev hev => nomatch hev.1) (acc.done s₁.store)

theorem throughout {f : α → Run Completion} {as : List α} {M : α → RunState → Event → Prop}
    (h : ∀ (i : Nat) a s', as[i]? = some a → Action.throughout f (as.take i) s = .ok () s' →
      Comes Φ s.store s'.store → Φ (M a s') s'.store (f a s').store) :
    Φ (fun ev => ∃ (i : Nat) (a : α), as[i]? = some a ∧ ∃ s',
        Action.throughout f (as.take i) s = .ok () s' ∧ M a s' ev) s.store
      (Action.throughout f as s).store := by
  refine acc.prefixes (acc.done s.store) fun i a N ha hM => ?_
  rw [Action.throughout_concat]
  refine acc.less ?_ (acc.bind hM fun _ s₁ hs hc => acc.map (h i a s₁ ha hs hc))
  rintro ev (hev | ⟨s', hs, hev⟩)
  · exact .inl hev
  · exact .inr ⟨(), s', hs, hev⟩

end Account

omit acc

@[simp] theorem Outcome.store_inScope (e : ScopeId) (x : Run α) (s : RunState) :
    (Run.inScope e x s).store = (x { s with scope := e }).store := by
  unfold Run.inScope
  cases x { s with scope := e } <;> rfl

@[simp] theorem Outcome.store_deeper (x : Run α) (s : RunState) :
    (Run.deeper x s).store = (x { s with depth := s.depth + 1 }).store := by
  unfold Run.deeper
  cases x { s with depth := s.depth + 1 } <;> rfl

/-- How a run in another scope ended there. -/
theorem Run.inScope_eq_ok {e : ScopeId} {x : Run α} {a : α} (h : Run.inScope e x s = .ok a s') :
    ∃ s₁, x { s with scope := e } = .ok a s₁ ∧ s' = { s₁ with scope := s.scope } := by
  unfold Run.inScope at h
  cases hx : x { s with scope := e } with
  | ok b s₁ =>
    rw [hx] at h
    cases h
    exact ⟨s₁, rfl, rfl⟩
  | raised fault s₁ =>
    rw [hx] at h
    cases h
  | outOfFuel =>
    rw [hx] at h
    cases h

end Rules

/-! ### The evaluator -/

/-- A property that can be put together holds of the single events at the nodes `V`, and these lead only
to such nodes. -/
structure Accounts (Φ : (Event → Prop) → Store → Outcome Store Unit → Prop) (ctx : Context)
    (V : Nat → Part → RunState → Prop) : Prop where
  account : Account Φ
  stop : ∀ {t s}, V 0 t s → Φ (· = .visit 0 t s) s.store .outOfFuel
  visit : ∀ {n t s}, V (n + 1) t s → Φ (· = .visit (n + 1) t s) s.store (.ok () s.store)
  change : ∀ {n t s st st'}, V (n + 1) t s → Changes ctx n t s st st' →
    Φ (· = .change st st') st (.ok () st')
  raise : ∀ {n t s fault st}, V (n + 1) t s → Raises ctx n t s fault st →
    Φ (· = .raise fault st) st (.raised fault st)
  call : ∀ {n t s u s'}, V (n + 1) t s → Calls ctx n t s u s' → Comes Φ s.store s'.store →
    (∀ id callee paren arguments st c vs s₁, t = .expr (.call id callee paren arguments) →
      u = .stmt st → Applies ctx n callee arguments s c vs s₁ → Comes Φ s.store s₁.store) → V n u s'

namespace Accounts

variable {Φ : (Event → Prop) → Store → Outcome Store Unit → Prop} {ctx : Context}
  {V : Nat → Part → RunState → Prop} {n : Nat} {t u : Part} {s s' : RunState}
  {M : Event → Prop} {o : Outcome Store Unit}

/-- All runs with so much fuel are accounted for. -/
def Below (Φ : (Event → Prop) → Store → Outcome Store Unit → Prop) (ctx : Context)
    (V : Nat → Part → RunState → Prop) (n : Nat) : Prop :=
  ∀ u s, V n u s → Φ (Happens ctx n u s) s.store (u.outcome ctx n s)

variable (h : Accounts Φ ctx V) (ih : Below Φ ctx V n) (hv : V (n + 1) t s)

include h hv

/-- A node is visited, and then what is inside of it happens. -/
theorem start (hcover : ∀ ev, HappensInside ctx n t s ev → M ev) (hM : Φ M s.store o) :
    Φ (Happens ctx (n + 1) t s) s.store o :=
  h.account.less (fun ev hev => hev.cases.imp_right (hcover ev)) (h.account.next (h.visit hv) hM)

include ih

/-- A node that is called, unless it is in the body of a function. -/
theorem called (hc : Calls ctx n t s u s')
    (hne : ∀ id callee paren arguments st, t = .expr (.call id callee paren arguments) → u ≠ .stmt st)
    (hcomes : Comes Φ s.store s'.store) : Φ (Happens ctx n u s') s'.store (u.outcome ctx n s') :=
  ih u s' (h.call hv hc hcomes fun id callee paren arguments st _ _ _ ht hu =>
    absurd hu (hne id callee paren arguments st ht))

theorem called_expr {e : Expr} (hc : Calls ctx n t s (.expr e) s')
    (hcomes : Comes Φ s.store s'.store) :
    Φ (Happens ctx n (.expr e) s') s'.store (evaluate ctx n e s').store :=
  called h ih hv hc nofun hcomes

theorem called_stmt {st outer : Stmt} (ht : t = .stmt outer) (hc : Calls ctx n t s (.stmt st) s')
    (hcomes : Comes Φ s.store s'.store) :
    Φ (Happens ctx n (.stmt st) s') s'.store (execute ctx n st s').store := by
  subst ht
  exact called h ih hv hc nofun hcomes

/-- The first node that is called. -/
theorem first {e : Expr} (hc : Calls ctx n t s (.expr e) s) :
    Φ (Happens ctx n (.expr e) s) s.store (evaluate ctx n e s).store :=
  called_expr h ih hv hc (.refl h.account s.store)

omit ih

/-- An operation that only hands back a result or raises a fault. -/
theorem ofExcept {α : Type} {x : Except Fault α}
    (hr : ∀ fault, x = .error fault → Raises ctx n t s fault s'.store) :
    Φ (fun ev => ∃ fault, x = .error fault ∧ ev = .raise fault s'.store) s'.store
      (Action.ofExcept x s').store := by
  cases x with
  | ok a => exact h.account.nothing fun ev ⟨_, he, _⟩ => nomatch he
  | error fault =>
    refine h.account.less ?_ (h.raise hv (hr fault rfl))
    rintro ev ⟨fault', he, rfl⟩
    cases he
    rfl

/-- Reading a variable. -/
theorem lookUp {id : NodeId} {name : Token}
    (hr : ∀ fault, Run.lookUp ctx id name s = .raised fault s → Raises ctx n t s fault s.store) :
    Φ (fun ev => ∃ fault, Run.lookUp ctx id name s = .raised fault s ∧ ev = .raise fault s.store) s.store
      (Run.lookUp ctx id name s).store := by
  rcases Run.lookUp_cases ctx id name s with ⟨v, he⟩ | ⟨fault, he⟩
  · rw [he]
    exact h.account.nothing fun ev ⟨_, he', _⟩ => nomatch he'
  · rw [he]
    refine h.account.less ?_ (h.raise hv (hr fault he))
    rintro ev ⟨fault', he', rfl⟩
    cases he'
    rfl

omit hv

/-! #### Expressions -/

theorem assign {id : NodeId} {target value : Expr} {equals : Token} {v : Value}
    (hv : V (n + 1) (.expr (.assign id target equals value)) s)
    (he : evaluate ctx n value s = .ok v s') :
    Φ (fun ev =>
        (∃ e, Run.assignedScope ctx id (target.assignedName equals) s' = .ok e s' ∧
          ev = .change s'.store (s'.store.define e (target.assignedName equals).lexeme v)) ∨
        ∃ fault, Run.assignedScope ctx id (target.assignedName equals) s' = .raised fault s' ∧
          ev = .raise fault s'.store) s'.store
      (Run.assign ctx id (target.assignedName equals) v s').store := by
  unfold Run.assign
  rcases Run.assignedScope_cases ctx id (target.assignedName equals) s' with ⟨e, ho⟩ | ⟨fault, ho⟩
  · rw [Action.bind_apply, ho]
    refine h.account.less ?_ (h.change hv (.assigned he ho))
    rintro ev (⟨e', ho', rfl⟩ | ⟨fault', ho', rfl⟩) <;> cases ho'
    rfl
  · rw [Action.bind_apply, ho]
    refine h.account.less ?_ (h.raise hv (.assigned he ho))
    rintro ev (⟨e', ho', rfl⟩ | ⟨fault', ho', rfl⟩) <;> cases ho'
    rfl

theorem getProperty {id : NodeId} {object : Expr} {name : Token} {i : InstanceId}
    (hv : V (n + 1) (.expr (.get id object name)) s)
    (ho : evaluate ctx n object s = .ok (.inst i) s') :
    Φ (fun ev =>
        (∃ f, s'.store.member? i name.lexeme = some (.method f) ∧
          ev = .change s'.store (s'.store.bindValue f (.inst i)).2) ∨
        s'.store.member? i name.lexeme = none ∧
          ev = .raise (.error ⟨.undefinedProperty, name⟩) s'.store) s'.store
      (Run.getProperty i name s').store := by
  unfold Run.getProperty
  rw [Run.ask_bind]
  cases hm : s'.store.member? i name.lexeme with
  | none =>
    refine h.account.less ?_ (h.raise hv (.undefinedProperty ho hm))
    rintro ev (⟨f, hf, rfl⟩ | ⟨-, rfl⟩)
    · cases hf
    · rfl
  | some m =>
    cases m with
    | field v =>
      refine h.account.nothing ?_
      rintro ev (⟨f, hf, rfl⟩ | ⟨hf, rfl⟩) <;> cases hf
    | method f =>
      refine h.account.less ?_ (h.change hv (.got ho hm))
      rintro ev (⟨f', hf, rfl⟩ | ⟨hf, rfl⟩) <;> cases hf
      rfl

theorem superMethod {id : NodeId} {keyword method : Token}
    (hv : V (n + 1) (.expr (.super id keyword method)) s) :
    Φ (HappensInside ctx n (.expr (.super id keyword method)) s) s.store
      (Run.superMethod ctx id method s).store := by
  rcases Run.superMethod_cases ctx id method s with ⟨d, c, this, f, hd, hc, ht, hf⟩ | ⟨fault, ho⟩
  · have ho := Run.superMethod_of_found hd hc ht hf
    rw [ho]
    have hch : Changes ctx n (.expr (.super id keyword method)) s s.store
      (s.store.bindValue f this).2 := .super hd hc ht hf
    refine h.account.less ?_ (h.change hv hch)
    rintro ev (⟨hch, rfl⟩ | ⟨hr, rfl⟩ | hcall)
    · cases hch with
      | super hd' hc' ht' hf' =>
        cases hd.symm.trans hd'
        cases hc.symm.trans hc'
        cases ht.symm.trans ht'
        cases hf.symm.trans hf'
        rfl
    · cases hr with
      | super ho' => cases ho.symm.trans ho'
    · cases hcall
  · rw [ho]
    have hr : Raises ctx n (.expr (.super id keyword method)) s fault s.store := .super ho
    refine h.account.less ?_ (h.raise hv hr)
    rintro ev (⟨hch, rfl⟩ | ⟨hr, rfl⟩ | hcall)
    · cases hch with
      | super hd hc ht hf => cases ho.symm.trans (Run.superMethod_of_found hd hc ht hf)
    · cases hr with
      | super ho' =>
        cases ho.symm.trans ho'
        rfl
    · cases hcall

/-! #### Calls -/

section Calls

variable {id : NodeId} {callee : Expr} {paren : Token} {arguments : List Expr} {c : Callable}
  {vs : List Value} {s₁ : RunState}
  (hcall : V (n + 1) (.expr (.call id callee paren arguments)) s)
  (ha : Applies ctx n callee arguments s c vs s₁) (hcomes : Comes Φ s.store s₁.store)

include ih hcall ha hcomes

/-- A function is called: its scope is made, its body is run, and an initializer hands back `this`. -/
theorem callFunction {f : FunctionObject} {s₀ s₂ : RunState}
    (hs : Starts vs c s₁ f s₂) (hstart : Comes Φ s₁.store s₂.store)
    (he : s₂ = { s₀ with
      store := (s₀.store.newScope (Run.callScope f vs)).2
      scope := (s₀.store.newScope (Run.callScope f vs)).1 })
    (hc : Φ (· = .change s₀.store s₂.store) s₀.store (.ok () s₂.store)) :
    Φ (fun ev => ev = .change s₀.store s₂.store ∨ BodyHappens ctx n f s₂ ev ∨
        ∃ completion s₃ fault, Action.untilReturn (execute ctx n) f.declaration.body s₂ =
            .ok completion s₃ ∧ f.isInitializer = true ∧
          s₃.store.getAt f.closure 0 "this" = .error fault ∧
          ev = .raise (.scope fault) s₃.store) s₀.store
      (Run.callFunction (Action.untilReturn (execute ctx n)) f vs s₀).store := by
  have hbody : Φ (BodyHappens ctx n f s₂) s₂.store
      (Action.untilReturn (execute ctx n) f.declaration.body s₂).store := by
    refine h.account.untilReturn (M := fun st s' => Happens ctx n (.stmt st) s')
      fun i st s' hi hb hc => ih _ _ (h.call hcall (.body ha hs hb hi) ?_ ?_)
    · exact (hcomes.trans h.account hstart).trans h.account hc
    · rintro _ _ _ _ _ c' vs' s₁' ht - ha'
      cases ht
      obtain ⟨-, -, rfl⟩ := ha.unique ha'
      exact hcomes
  unfold Run.callFunction
  show Φ _ _ ((Run.alloc (·.newScope (Run.callScope f vs)) >>= _) s₀).store
  rw [Run.alloc_bind]
  subst he
  rw [← Outcome.store_inScope _ _ { s₀ with store := (s₀.store.newScope (Run.callScope f vs)).2 }]
    at hbody
  refine h.account.less ?_ (h.account.next hc (h.account.bind
    (s := { s₀ with store := (s₀.store.newScope (Run.callScope f vs)).2 })
    (N := fun completion s₃ ev => ∃ fault, f.isInitializer = true ∧
      s₃.store.getAt f.closure 0 "this" = .error fault ∧ ev = .raise (.scope fault) s₃.store)
    hbody fun completion s₃ hend _ => ?_))
  · rintro ev (rfl | hb | ⟨completion, s₃, fault, hend, hi, hg, rfl⟩)
    · exact .inl rfl
    · exact .inr (.inl hb)
    · refine .inr (.inr ⟨completion, { s₃ with scope := s₀.scope }, ?_, fault, hi, hg, rfl⟩)
      unfold Run.inScope
      simp only [hend]
  · obtain ⟨s₄, hlast, rfl⟩ := Run.inScope_eq_ok hend
    cases hi : f.isInitializer with
    | false =>
      cases completion <;> exact h.account.nothing (by rintro ev ⟨fault, hi, -⟩; cases hi)
    | true =>
      show Φ _ _ (Run.ofScope (s₄.store.getAt f.closure 0 "this") _).store
      cases hg : s₄.store.getAt f.closure 0 "this" with
      | ok v =>
        refine h.account.nothing ?_
        rintro ev ⟨fault, -, hg, -⟩
        cases hg
      | error fault =>
        have hr : Raises ctx n (.expr (.call id callee paren arguments)) s (.scope fault) s₄.store :=
          .initializer ha hs hlast hi hg
        refine h.account.less ?_ (h.raise hcall hr)
        rintro ev ⟨fault', -, hg, rfl⟩
        cases hg
        rfl

theorem invoke : Φ (InvokeHappens ctx n vs s₁ c) s₁.store
    (Run.invoke (Action.untilReturn (execute ctx n)) c vs s₁).store := by
  cases c with
  | native f =>
    refine h.account.nothing ?_
    rintro ev (_ | _ | _ | _ | ⟨hs, -⟩ | ⟨hs, -, -, -⟩) <;> cases hs
  | function f =>
    have hs : Starts vs (.function f) s₁ f { s₁ with
      store := (s₁.store.newScope (Run.callScope f vs)).2
      scope := (s₁.store.newScope (Run.callScope f vs)).1 } := .function rfl
    have hentered := h.change hcall (.entered ha)
    refine h.account.less ?_ (callFunction h ih hcall ha hcomes hs ⟨_, hentered⟩ rfl hentered)
    rintro ev hev
    cases hev with
    | entered => exact .inl rfl
    | body hs' hb =>
      obtain ⟨rfl, rfl⟩ := hs.unique hs'
      exact .inr (.inl hb)
    | initializer hs' hb hi hg =>
      obtain ⟨rfl, rfl⟩ := hs.unique hs'
      exact .inr (.inr ⟨_, _, _, hb, hi, hg, rfl⟩)
  | cls c =>
    have hmade := h.change hcall (.instantiated ha)
    show Φ _ _ ((Run.alloc (·.newInstance c) >>= _) s₁).store
    rw [Run.alloc_bind, Run.ask_bind]
    cases hf : (s₁.store.newInstance c).2.initializer? c with
    | none =>
      have hno : ∀ {f g s₂}, ¬ Constructs c s₁ f g s₂ := by
        rintro f g s₂ ⟨hi, hf', -⟩
        cases hi
        cases hf.symm.trans hf'
      refine h.account.less ?_ hmade
      rintro ev hev
      cases hev with
      | instantiated => rfl
      | initialized hc => exact (hno hc).elim
      | enteredInitializer hc => exact (hno hc).elim
      | body hs =>
        cases hs with
        | construct hc => exact (hno hc).elim
      | initializer hs =>
        cases hs with
        | construct hc => exact (hno hc).elim
    | some f =>
      have hc : Constructs c s₁ f _ _ := .mk rfl hf rfl
      have hbound := h.change hcall (.initialized ha hc)
      have hs := Starts.construct hc (show Run.enterFunction _ vs _ = .ok _ _ from rfl)
      have hcons := callFunction h ih hcall ha hcomes hs
        (Comes.trans h.account ⟨_, hmade⟩ (Comes.trans h.account ⟨_, hbound⟩
          ⟨_, h.change hcall (.enteredInitializer ha hc)⟩)) rfl
        (h.change hcall (.enteredInitializer ha hc))
      refine h.account.less ?_ (h.account.next hmade (h.account.next hbound (h.account.map
        (f := fun _ => Value.inst (s₁.store.newInstance c).1) hcons)))
      intro ev hev
      cases hev with
      | instantiated => exact .inl rfl
      | initialized hc' =>
        obtain ⟨rfl, rfl, rfl⟩ := hc.unique hc'
        exact .inr (.inl rfl)
      | enteredInitializer hc' =>
        obtain ⟨rfl, rfl, rfl⟩ := hc.unique hc'
        exact .inr (.inr (.inl rfl))
      | body hs' hb =>
        obtain ⟨rfl, rfl⟩ := hs.unique hs'
        exact .inr (.inr (.inr (.inl hb)))
      | initializer hs' hb hi hg =>
        obtain ⟨rfl, rfl⟩ := hs.unique hs'
        exact .inr (.inr (.inr (.inr ⟨_, _, _, hb, hi, hg, rfl⟩)))

end Calls

section Apply

variable {id : NodeId} {callee : Expr} {paren : Token} {arguments : List Expr}
  {f : Value} {vs : List Value} {s₁ s₂ : RunState}
  (hcall : V (n + 1) (.expr (.call id callee paren arguments)) s)

include ih hcall

theorem apply (hf : evaluate ctx n callee s = .ok f s₁)
    (hvs : Action.collect (evaluate ctx n) arguments s₁ = .ok vs s₂)
    (hcomes : Comes Φ s.store s₂.store) :
    Φ (ApplyHappens ctx n callee paren arguments s) s₂.store
      (Run.call ctx (Action.untilReturn (execute ctx n)) paren f vs s₂).store := by
  have hrefused : ∀ {e}, Refuses ctx n callee paren arguments s e s₂ →
      Φ (ApplyHappens ctx n callee paren arguments s) s₂.store (.raised (.error e) s₂.store) := by
    intro e hr
    refine h.account.less ?_ (h.raise hcall (.refused hr))
    rintro ev (⟨hr', rfl⟩ | ⟨ha, -⟩)
    · obtain ⟨rfl, rfl⟩ := hr.unique hr'
      rfl
    · exact absurd ha hr.not_applies
  cases hc : s₂.store.callable? f with
  | none =>
    rw [Run.call_of_not_callable hc]
    exact hrefused (.notCallable hf hvs hc)
  | some c =>
    by_cases harity : (vs.length : Int) = s₂.store.arity c
    · by_cases hdepth : s₂.depth < ctx.maxDepth
      · have ha : Applies ctx n callee arguments s c vs { s₂ with depth := s₂.depth + 1 } :=
          .mk hf hvs hc harity hdepth
        rw [Run.call_of_applies hc harity hdepth, Outcome.store_deeper]
        refine h.account.less ?_ (invoke h ih hcall ha hcomes)
        rintro ev (⟨hr, -⟩ | ⟨ha', hev⟩)
        · exact absurd ha hr.not_applies
        · obtain ⟨rfl, rfl, rfl⟩ := ha.unique ha'
          exact hev
      · rw [Run.call_of_overflow hc harity (Nat.le_of_not_lt hdepth)]
        exact hrefused (.overflow hf hvs hc harity (Nat.le_of_not_lt hdepth))
    · rw [Run.call_of_arity hc harity]
      exact hrefused (.arity hf hvs hc harity)

end Apply

/-! #### Class declarations -/

/-- A class declaration, when its superclass is known. -/
theorem declareClass {id : NodeId} {name : Token} {superclass : Option VarRef}
    {methods : List FunctionDecl} {c : Option ClassId} {s₁ : RunState}
    (hv : V (n + 1) (.stmt (.classDecl id name superclass methods)) s)
    (hc : Inherits ctx n superclass s c s₁) :
    Φ (fun ev =>
        (∃ st st', Changes ctx n (.stmt (.classDecl id name superclass methods)) s st st' ∧
          ev = .change st st') ∨
        ∃ fault st, Raises ctx n (.stmt (.classDecl id name superclass methods)) s fault st ∧
          ev = .raise fault st) s₁.store
      (Run.declareClass name c methods s₁).store := by
  obtain ⟨e, st, he⟩ : ∃ e st,
    (s₁.store.define s₁.scope name.lexeme .nil).methodScope s₁.scope c = (e, st) := ⟨_, _, rfl⟩
  have henclosed := h.change hv (.enclosed hc)
  rw [he] at henclosed
  have hmade := h.account.next (h.change hv (.reserved hc)) (h.account.next henclosed
    (h.change hv (.made hc he)))
  -- in the end the name is bound, unless there is no scope that binds it
  have hlast : Φ (fun ev =>
      (∃ owner, (st.makeClass name.lexeme c methods e).2.owner? s₁.scope name.lexeme = some owner ∧
        ev = .change (st.makeClass name.lexeme c methods e).2
          ((st.makeClass name.lexeme c methods e).2.define owner name.lexeme
            (.cls (st.makeClass name.lexeme c methods e).1))) ∨
      (st.makeClass name.lexeme c methods e).2.owner? s₁.scope name.lexeme = none ∧
        ev = .raise (.error ⟨.undefinedVariable, name⟩) (st.makeClass name.lexeme c methods e).2)
      (st.makeClass name.lexeme c methods e).2 (Run.declareClass name c methods s₁).store := by
    rw [Run.declareClass_apply he]
    cases ho : (st.makeClass name.lexeme c methods e).2.owner? s₁.scope name.lexeme with
    | some owner =>
      refine h.account.less ?_ (h.change hv (.classNamed hc he ho))
      rintro ev (⟨owner', ho', rfl⟩ | ⟨ho', -⟩) <;> cases ho'
      rfl
    | none =>
      refine h.account.less ?_ (h.raise hv (.classUnnamed hc he ho))
      rintro ev (⟨owner', ho', rfl⟩ | ⟨-, rfl⟩)
      · cases ho'
      · rfl
  refine h.account.less ?_ (h.account.next hmade hlast)
  rintro ev (⟨st', st'', hch, rfl⟩ | ⟨fault, st', hr, rfl⟩)
  · cases hch with
    | reserved hc' =>
      obtain ⟨rfl, rfl⟩ := hc.unique hc'
      exact .inl (.inl rfl)
    | enclosed hc' =>
      obtain ⟨rfl, rfl⟩ := hc.unique hc'
      rw [he]
      exact .inl (.inr (.inl rfl))
    | made hc' he' =>
      obtain ⟨rfl, rfl⟩ := hc.unique hc'
      cases he.symm.trans he'
      exact .inl (.inr (.inr rfl))
    | classNamed hc' he' ho =>
      obtain ⟨rfl, rfl⟩ := hc.unique hc'
      cases he.symm.trans he'
      exact .inr (.inl ⟨_, ho, rfl⟩)
  · cases hr with
    | superclassNotClass hs hn => exact (hc.not_superclassNotClass hs hn).elim
    | classUnnamed hc' he' ho =>
      obtain ⟨rfl, rfl⟩ := hc.unique hc'
      cases he.symm.trans he'
      exact .inr (.inr ⟨ho, rfl⟩)

/-! #### All nodes -/

section Nodes

include ih

theorem call_expr {id : NodeId} {callee : Expr} {paren : Token} {arguments : List Expr}
    (hv : V (n + 1) (.expr (.call id callee paren arguments)) s) :
    Φ (Happens ctx (n + 1) (.expr (.call id callee paren arguments)) s) s.store
      (evaluate ctx (n + 1) (.call id callee paren arguments) s).store := by
  refine start h hv (fun ev => HappensInside.call_cases) (h.account.bind (first h ih hv .callee)
    fun f s₁ hf hc₁ => h.account.bind (h.account.collect (M := fun e s' => Happens ctx n (.expr e) s')
        fun i e vs s' hi hvs hc => called_expr h ih hv (.argument hf hvs hi) (hc₁.trans h.account hc))
      fun vs s₂ hvs hc₂ => apply h ih hv hf hvs (hc₁.trans h.account hc₂))

theorem evaluate {e : Expr} (hv : V (n + 1) (.expr e) s) :
    Φ (Happens ctx (n + 1) (.expr e) s) s.store (evaluate ctx (n + 1) e s).store := by
  cases e with
  | literal id value =>
    refine start h hv ?_ (ofExcept h hv fun fault he => .literal he)
    rintro ev (⟨hch, rfl⟩ | ⟨hr, rfl⟩ | ⟨hc, hev⟩)
    · cases hch
    · cases hr with
      | literal he => exact ⟨_, he, rfl⟩
    · cases hc
  | var ref =>
    refine start h hv ?_ (lookUp h hv fun fault he => .var he)
    rintro ev (⟨hch, rfl⟩ | ⟨hr, rfl⟩ | ⟨hc, hev⟩)
    · cases hch
    · cases hr with
      | var he => exact ⟨_, he, rfl⟩
    · cases hc
  | assign id target equals value =>
    refine start h hv ?_ (h.account.bind (first h ih hv .assigned) fun v s₁ he _ =>
      h.account.map (f := fun _ => v) (assign h hv he))
    rintro ev (⟨hch, rfl⟩ | ⟨hr, rfl⟩ | ⟨hc, hev⟩)
    · cases hch with
      | assigned he ho => exact .inr ⟨_, _, he, .inl ⟨_, ho, rfl⟩⟩
    · cases hr with
      | assigned he ho => exact .inr ⟨_, _, he, .inr ⟨_, ho, rfl⟩⟩
    · cases hc with
      | assigned => exact .inl hev
  | binary id left operator right =>
    refine start h hv ?_ (h.account.bind (first h ih hv .binaryLeft) fun l s₁ hl hc₁ =>
      h.account.bind (called_expr h ih hv (.binaryRight hl) hc₁) fun r s₂ hr hc₂ =>
        ofExcept h hv fun fault he => .binary hl hr he)
    rintro ev (⟨hch, rfl⟩ | ⟨hr, rfl⟩ | ⟨hc, hev⟩)
    · cases hch
    · cases hr with
      | binary hl hr he => exact .inr ⟨_, _, hl, .inr ⟨_, _, hr, _, he, rfl⟩⟩
    · cases hc with
      | binaryLeft => exact .inl hev
      | binaryRight hl => exact .inr ⟨_, _, hl, .inl hev⟩
  | logical id left operator right =>
    refine start h hv ?_ (h.account.bind (N := fun l s₁ ev => operator.decidesLogical l = false ∧
      Happens ctx n (.expr right) s₁ ev) (first h ih hv .logicalLeft) fun l s₁ hl hc₁ => ?_)
    · rintro ev (⟨hch, rfl⟩ | ⟨hr, rfl⟩ | ⟨hc, hev⟩)
      · cases hch
      · cases hr
      · cases hc with
        | logicalLeft => exact .inl hev
        | logicalRight hl hd => exact .inr ⟨_, _, hl, hd, hev⟩
    · cases hd : operator.decidesLogical l with
      | true => exact h.account.nothing fun ev ⟨hd, _⟩ => nomatch hd
      | false =>
        exact h.account.less (fun ev hev => hev.2) (called_expr h ih hv (.logicalRight hl hd) hc₁)
  | unary id operator operand =>
    refine start h hv ?_ (h.account.bind (first h ih hv .operand) fun v s₁ he _ =>
      ofExcept h hv fun fault ho => .unary he ho)
    rintro ev (⟨hch, rfl⟩ | ⟨hr, rfl⟩ | ⟨hc, hev⟩)
    · cases hch
    · cases hr with
      | unary he ho => exact .inr ⟨_, _, he, _, ho, rfl⟩
    · cases hc with
      | operand => exact .inl hev
  | grouping id inner =>
    refine start h hv ?_ (first h ih hv .inner)
    rintro ev (⟨hch, rfl⟩ | ⟨hr, rfl⟩ | ⟨hc, hev⟩)
    · cases hch
    · cases hr
    · cases hc with
      | inner => exact hev
  | call id callee paren arguments => exact call_expr h ih hv
  | get id object name =>
    refine start h hv ?_ (h.account.bind (N := fun v s₁ ev =>
      (∃ i, v = .inst i ∧
        ((∃ f, s₁.store.member? i name.lexeme = some (.method f) ∧
          ev = .change s₁.store (s₁.store.bindValue f (.inst i)).2) ∨
        s₁.store.member? i name.lexeme = none ∧
          ev = .raise (.error ⟨.undefinedProperty, name⟩) s₁.store)) ∨
      (∀ i, v ≠ .inst i) ∧ ev = .raise (.error ⟨.propertyOnNonInstance, name⟩) s₁.store)
      (first h ih hv .getObject) fun v s₁ ho hc₁ => ?_)
    · rintro ev (⟨hch, rfl⟩ | ⟨hr, rfl⟩ | ⟨hc, hev⟩)
      · cases hch with
        | got ho hm => exact .inr ⟨_, _, ho, .inl ⟨_, rfl, .inl ⟨_, hm, rfl⟩⟩⟩
      · cases hr with
        | propertyOnNonInstance ho hi => exact .inr ⟨_, _, ho, .inr ⟨hi, rfl⟩⟩
        | undefinedProperty ho hm => exact .inr ⟨_, _, ho, .inl ⟨_, rfl, .inr ⟨hm, rfl⟩⟩⟩
      · cases hc with
        | getObject => exact .inl hev
    · cases v with
      | inst i =>
        refine h.account.less ?_ (getProperty h hv ho)
        rintro ev (⟨i', hi, hev⟩ | ⟨hi, -⟩)
        · cases hi
          exact hev
        · exact absurd rfl (hi i)
      | _ =>
        refine h.account.less ?_ (h.raise hv (.propertyOnNonInstance ho nofun))
        rintro ev (⟨i', hi, -⟩ | ⟨-, rfl⟩)
        · cases hi
        · rfl
  | set id object name value =>
    refine start h hv ?_ (h.account.bind (N := fun v s₁ ev =>
      (∃ i, v = .inst i ∧ (Happens ctx n (.expr value) s₁ ev ∨
        ∃ w s₂, Lox.evaluate ctx n value s₁ = .ok w s₂ ∧
          ev = .change s₂.store (s₂.store.setField i name.lexeme w))) ∨
      (∀ i, v ≠ .inst i) ∧ ev = .raise (.error ⟨.fieldOnNonInstance, name⟩) s₁.store)
      (first h ih hv .setObject) fun v s₁ ho hc₁ => ?_)
    · rintro ev (⟨hch, rfl⟩ | ⟨hr, rfl⟩ | ⟨hc, hev⟩)
      · cases hch with
        | fieldSet ho he => exact .inr ⟨_, _, ho, .inl ⟨_, rfl, .inr ⟨_, _, he, rfl⟩⟩⟩
      · cases hr with
        | fieldOnNonInstance ho hi => exact .inr ⟨_, _, ho, .inr ⟨hi, rfl⟩⟩
      · cases hc with
        | setObject => exact .inl hev
        | setValue ho => exact .inr ⟨_, _, ho, .inl ⟨_, rfl, .inl hev⟩⟩
    · cases v with
      | inst i =>
        refine h.account.less ?_ (h.account.bind (called_expr h ih hv (.setValue ho) hc₁)
          (f := fun w => do
            Run.modifyStore (·.setField i name.lexeme w)
            return w) fun w s₂ he _ => h.change hv (.fieldSet ho he))
        rintro ev (⟨i', hi, hev⟩ | ⟨hi, -⟩)
        · cases hi
          exact hev
        · exact absurd rfl (hi i)
      | _ =>
        refine h.account.less ?_ (h.raise hv (.fieldOnNonInstance ho nofun))
        rintro ev (⟨i', hi, -⟩ | ⟨-, rfl⟩)
        · cases hi
        · rfl
  | this id keyword =>
    refine start h hv ?_ (lookUp h hv fun fault he => .this he)
    rintro ev (⟨hch, rfl⟩ | ⟨hr, rfl⟩ | ⟨hc, hev⟩)
    · cases hch
    · cases hr with
      | this he => exact ⟨_, he, rfl⟩
    · cases hc
  | super id keyword method =>
    exact start h hv (fun _ hev => hev) (superMethod h hv)

theorem execute {st : Stmt} (hv : V (n + 1) (.stmt st) s) :
    Φ (Happens ctx (n + 1) (.stmt st) s) s.store (execute ctx (n + 1) st s).store := by
  cases st with
  | block id body =>
    let inside : RunState := { s with
      store := (s.store.newScope { enclosing := some s.scope }).2
      scope := (s.store.newScope { enclosing := some s.scope }).1 }
    have hmade : Φ (· = .change s.store inside.store) s.store (.ok () inside.store) :=
      h.change hv .block
    have hbody := h.account.untilReturn (s := inside) (f := Lox.execute ctx n)
      (M := fun st s' => Happens ctx n (.stmt st) s') fun i st s' hi hb hc =>
        called_stmt h ih hv rfl (.block rfl hb hi) (Comes.trans h.account ⟨_, hmade⟩ hc)
    have heq : (Lox.execute ctx (n + 1) (.block id body) s).store =
      (Action.untilReturn (Lox.execute ctx n) body inside).store := Outcome.store_inScope ..
    rw [heq]
    refine start h hv ?_ (h.account.next hmade hbody)
    rintro ev (⟨hch, rfl⟩ | ⟨hr, rfl⟩ | ⟨hc, hev⟩)
    · cases hch
      exact .inl rfl
    · cases hr
    · cases hc with
      | block he hb hi =>
        cases he
        exact .inr ⟨_, _, hi, _, hb, hev⟩
  | expression id e =>
    refine start h hv ?_ (h.account.map (f := fun _ => Completion.normal) (first h ih hv .expression))
    rintro ev (⟨hch, rfl⟩ | ⟨hr, rfl⟩ | ⟨hc, hev⟩)
    · cases hch
    · cases hr
    · cases hc with
      | expression => exact hev
  | print id e =>
    refine start h hv ?_ (h.account.bind (f := fun v => do
        Run.print (← Run.ask (·.display v))
        return Completion.normal) (first h ih hv .print) fun v s₁ _ _ => h.account.done s₁.store)
    rintro ev (⟨hch, rfl⟩ | ⟨hr, rfl⟩ | ⟨hc, hev⟩)
    · cases hch
    · cases hr
    · cases hc with
      | print => exact .inl hev
  | varDecl id name initializer =>
    cases initializer with
    | none =>
      refine start h hv ?_ (h.change hv .declared)
      rintro ev (⟨hch, rfl⟩ | ⟨hr, rfl⟩ | ⟨hc, hev⟩)
      · cases hch
        rfl
      · cases hr
      · cases hc
    | some e =>
      refine start h hv ?_ (h.account.bind (f := fun v => do
          Run.define name.lexeme v
          return Completion.normal) (first h ih hv .initializer)
        fun v s₁ he _ => h.change hv (.initializedVar he))
      rintro ev (⟨hch, rfl⟩ | ⟨hr, rfl⟩ | ⟨hc, hev⟩)
      · cases hch with
        | initializedVar he => exact .inr ⟨_, _, he, rfl⟩
      · cases hr
      · cases hc with
        | initializer => exact .inl hev
  | branch id condition thenBranch elseBranch =>
    refine start h hv ?_ (h.account.bind (N := fun v s₁ ev =>
      v.truthy = true ∧ Happens ctx n (.stmt thenBranch) s₁ ev ∨
      v.truthy = false ∧ ∃ st, elseBranch = some st ∧ Happens ctx n (.stmt st) s₁ ev)
      (first h ih hv .branchCondition) fun v s₁ he hc₁ => ?_)
    · rintro ev (⟨hch, rfl⟩ | ⟨hr, rfl⟩ | ⟨hc, hev⟩)
      · cases hch
      · cases hr
      · cases hc with
        | branchCondition => exact .inl hev
        | thenBranch he ht => exact .inr ⟨_, _, he, .inl ⟨ht, hev⟩⟩
        | elseBranch he ht => exact .inr ⟨_, _, he, .inr ⟨ht, _, rfl, hev⟩⟩
    · cases ht : v.truthy with
      | true =>
        refine h.account.less ?_ (called_stmt h ih hv rfl (.thenBranch he ht) hc₁)
        rintro ev (⟨-, hev⟩ | ⟨ht', -⟩)
        · exact hev
        · cases ht'
      | false =>
        cases elseBranch with
        | none => exact h.account.nothing fun ev hev => by simp at hev
        | some st =>
          refine h.account.less ?_ (called_stmt h ih hv rfl (.elseBranch he ht) hc₁)
          rintro ev (⟨ht', -⟩ | ⟨-, st', hst, hev⟩)
          · cases ht'
          · cases hst
            exact hev
  | loop id condition body =>
    refine start h hv ?_ (h.account.bind (N := fun v s₁ ev => v.truthy = true ∧
      (Happens ctx n (.stmt body) s₁ ev ∨
        ∃ c s₂, Lox.execute ctx n body s₁ = .ok c s₂ ∧ c = .normal ∧
          Happens ctx n (.stmt (.loop id condition body)) s₂ ev))
      (first h ih hv .loopCondition) fun v s₁ he hc₁ => ?_)
    · rintro ev (⟨hch, rfl⟩ | ⟨hr, rfl⟩ | ⟨hc, hev⟩)
      · cases hch
      · cases hr
      · cases hc with
        | loopCondition => exact .inl hev
        | loopBody he ht => exact .inr ⟨_, _, he, ht, .inl hev⟩
        | loopAgain he ht hb => exact .inr ⟨_, _, he, ht, .inr ⟨_, _, hb, rfl, hev⟩⟩
    · cases ht : v.truthy with
      | true =>
        show Φ _ _ ((Lox.execute ctx n body >>= _) s₁).store
        refine h.account.less (fun ev hev => hev.2) (h.account.bind
          (called_stmt h ih hv rfl (.loopBody he ht) hc₁) fun c s₂ hb hc₂ => ?_)
        cases c with
        | normal =>
          exact h.account.less (fun ev hev => hev.2)
            (called_stmt h ih hv rfl (.loopAgain he ht hb) (hc₁.trans h.account hc₂))
        | returned w =>
          refine h.account.nothing ?_
          rintro ev ⟨hn, -⟩
          cases hn
      | false =>
        refine h.account.nothing ?_
        rintro ev ⟨ht, -⟩
        cases ht
  | function f =>
    refine start h hv ?_ (h.account.next (h.change hv .closed) (h.change hv .functionNamed))
    rintro ev (⟨hch, rfl⟩ | ⟨hr, rfl⟩ | ⟨hc, hev⟩)
    · cases hch with
      | closed => exact .inl rfl
      | functionNamed => exact .inr rfl
    · cases hr
    · cases hc
  | ret id keyword value =>
    cases value with
    | none =>
      refine start h hv ?_ (h.account.done s.store)
      rintro ev (⟨hch, rfl⟩ | ⟨hr, rfl⟩ | ⟨hc, hev⟩)
      · cases hch
      · cases hr
      · cases hc
    | some e =>
      refine start h hv ?_ (h.account.map (f := Completion.returned) (first h ih hv .returned))
      rintro ev (⟨hch, rfl⟩ | ⟨hr, rfl⟩ | ⟨hc, hev⟩)
      · cases hch
      · cases hr
      · cases hc with
        | returned => exact hev
  | classDecl id name superclass methods =>
    cases superclass with
    | none =>
      refine start h hv ?_ (h.account.map (f := fun _ => Completion.normal)
        (declareClass h hv .nothing))
      rintro ev (⟨hch, rfl⟩ | ⟨hr, rfl⟩ | ⟨hc, hev⟩)
      · exact .inl ⟨_, _, hch, rfl⟩
      · exact .inr ⟨_, _, hr, rfl⟩
      · cases hc
    | some ref =>
      refine start h hv ?_ (h.account.bind (N := fun v s₁ ev =>
          ((∃ c, v = .cls c) ∧
            ((∃ st st', Changes ctx n (.stmt (.classDecl id name (some ref) methods)) s st st' ∧
              ev = .change st st') ∨
            ∃ fault st, Raises ctx n (.stmt (.classDecl id name (some ref) methods)) s fault st ∧
              ev = .raise fault st)) ∨
          (∀ c, v ≠ .cls c) ∧ ev = .raise (.error ⟨.superclassNotClass, ref.name⟩) s₁.store)
        (first h ih hv .superclass) fun v s₁ he hc₁ => ?_)
      · rintro ev (⟨hch, rfl⟩ | ⟨hr, rfl⟩ | ⟨hc, hev⟩)
        · obtain ⟨c, s₁, he⟩ := hch.inherits
          exact .inr ⟨_, _, he, .inl ⟨⟨c, rfl⟩, .inl ⟨_, _, hch, rfl⟩⟩⟩
        · cases hr with
          | superclassNotClass he hn => exact .inr ⟨_, _, he, .inr ⟨hn, rfl⟩⟩
          | classUnnamed hc he ho =>
            cases hc with
            | of hs =>
              exact .inr ⟨_, _, hs, .inl ⟨⟨_, rfl⟩, .inr ⟨_, _, .classUnnamed (.of hs) he ho, rfl⟩⟩⟩
        · cases hc with
          | superclass => exact .inl hev
      · cases v with
        | cls c =>
          refine h.account.less ?_ (h.account.map (f := fun _ => Completion.normal)
            (declareClass h hv (.of he)))
          rintro ev (⟨-, hev⟩ | ⟨hn, -⟩)
          · exact hev
          · exact absurd rfl (hn c)
        | _ =>
          refine h.account.less ?_ (h.raise hv (.superclassNotClass he nofun))
          rintro ev (⟨⟨c, hc⟩, -⟩ | ⟨-, rfl⟩)
          · cases hc
          · rfl

end Nodes

/-- Every run at a node `V` is accounted for by all that happens during it. -/
theorem run (k : Nat) : Below Φ ctx V k := by
  induction k with
  | zero =>
    intro u s hv
    refine h.account.less (fun ev hev => hev.eq_visit) ?_
    cases u <;> exact h.stop hv
  | succ k ih =>
    intro u s hv
    cases u with
    | expr e => exact evaluate h ih hv
    | stmt st => exact execute h ih hv
    | program p =>
      refine start h hv ?_ (h.account.done s.store)
      rintro ev (⟨hch, rfl⟩ | ⟨hr, rfl⟩ | ⟨hc, hev⟩)
      · cases hch
      · cases hr
      · cases hc
    | method f =>
      refine start h hv ?_ (h.account.done s.store)
      rintro ev (⟨hch, rfl⟩ | ⟨hr, rfl⟩ | ⟨hc, hev⟩)
      · cases hch
      · cases hr
      · cases hc

end Accounts

/-! ### Programs -/

/-- What happens while the statements of a program are run in a state. -/
def ProgramHappens (ctx : Context) (n : Nat) (p : Program) (s : RunState) (ev : Event) : Prop :=
  ∃ (k : Nat) (st : Stmt), p[k]? = some st ∧ ∃ s',
    Action.throughout (execute ctx n) (p.take k) s = .ok () s' ∧ Happens ctx n (.stmt st) s' ev

/-- The run of a program whose statements are nodes `V` is accounted for by all that happens. -/
theorem Accounts.program {Φ : (Event → Prop) → Store → Outcome Store Unit → Prop} {ctx : Context}
    {V : Nat → Part → RunState → Prop} (h : Accounts Φ ctx V) {n : Nat} {p : Program} {s : RunState}
    (hv : ∀ (k : Nat) st s', p[k]? = some st →
      Action.throughout (Lox.execute ctx n) (p.take k) s = .ok () s' → Comes Φ s.store s'.store →
        V n (.stmt st) s') :
    Φ (ProgramHappens ctx n p s) s.store (Action.throughout (Lox.execute ctx n) p s).store :=
  h.account.throughout (M := fun st s' => Happens ctx n (.stmt st) s') fun k st s' hi hs hc =>
    h.run n (.stmt st) s' (hv k st s' hi hs hc)

end Lox
