import Lox.Proofs.Run.Declare

/-!
# Every run is safe

The one induction over runs.  A node that is come to at scopes that mirror its nesting (`At`) hands
this on to every node it calls (`At.call`), and when its run ends the scopes mirror the nesting
after it (`Sound`).  The induction is on the fuel; the nesting moves along the tree by
`Nesting.enter` and into calls by what the closures keep to.
-/

namespace Lox

variable (S : Setting)

/-- The names a node and the nodes inside of it may use.  A superclass is looked up where the name of
the class itself counts as ready without being bound; that one name it does not use. -/
def Part.mayUse : Part → String → Prop
  | .expr (.var ref), x => x = ref.name.lexeme
  | _, _ => True

/-- A node is come to in a state: it is known, and the scopes mirror its nesting. -/
structure At (Γ : Nesting) (t : Part) (s : RunState) : Prop where
  known : S.known Γ t
  mirrors : Mirrors S t.mayUse s.store Γ s.scope
  store : StoreOk S s.store

/-- The setting allows for all scopes that the run of a node makes. -/
def OpensOk (n : Nat) (t : Part) (s : RunState) : Prop :=
  ∀ m u s' e w, Visits S.context n t s (m + 1) u s' → Opens S.context m u s' e w → S.opened e w

/-- How a statement leaves the scopes and what it returns. -/
structure CompletionOk (Γ : Nesting) (e : ScopeId) (c : Completion) (st : Store) : Prop where
  mirrors : c = .normal → Mirrors S anyName st Γ e
  returned : ReturnOk S c st

/-- Every run with so much fuel is safe. -/
structure Sound (n : Nat) : Prop where
  expr : ∀ {Γ e s}, At S Γ (.expr e) s → OpensOk S n (.expr e) s →
    Safe S s (fun v st => ValueOk S st v) (evaluate S.context n e s)
  stmt : ∀ {Γ st s}, At S Γ (.stmt st) s → OpensOk S n (.stmt st) s →
    Safe S s (CompletionOk S (Γ.after st) s.scope) (execute S.context n st s)

variable {S} {n : Nat} {Γ : Nesting} {t u : Part} {s s' : RunState}

theorem OpensOk.here (h : OpensOk S (n + 1) t s) {e : ScopeId} {w : Opening}
    (ho : Opens S.context n t s e w) : S.opened e w := h n t s e w .here ho

theorem OpensOk.call (h : OpensOk S (n + 1) t s) (hc : Calls S.context n t s u s') :
    OpensOk S n u s' := fun m v s'' e w hv ho => h m v s'' e w (.step hc hv) ho

/-! ### Operators -/

/-- What literals and operators compute: a value that names no object, or a fault that may arise. -/
def PlainOk (S : Setting) (x : Except Fault Value) : Prop :=
  match x with
  | .ok v => v.isPlain
  | .error fault => FaultOk S fault

theorem plainOk_pure {v : Value} (h : v.isPlain) : PlainOk S (pure v) := h

theorem ofExcept_safe {x : Except Fault Value} (hs : StoreOk S s.store) (hx : PlainOk S x) :
    Safe S s (fun v st => ValueOk S st v) (Action.ofExcept x s) := by
  cases x with
  | ok v => exact .ok hs (.of_isPlain hx)
  | error fault => exact .raised hs hx

theorem literal_ok {value : Literal} (hl : S.Evaluable → value.inRange) : PlainOk S value.evaluate := by
  cases value with
  | integer i =>
    cases hi : Number.ofInt? i with
    | some x =>
      simp only [Literal.evaluate, hi]
      exact plainOk_pure rfl
    | none =>
      simp only [Literal.evaluate, hi]
      refine faultOk_of_not_evaluable (fun he => ?_) fun _ h => by cases h
      have := hl he
      simp [Literal.inRange, hi] at this
  | _ => exact plainOk_pure rfl

theorem applyUnary_ok {operator : Token} {v : Value} (ho : S.Evaluable → operator.kind.isUnary) :
    PlainOk S (operator.applyUnary v) := by
  unfold Token.applyUnary
  split
  · exact plainOk_pure rfl
  · exact plainOk_pure rfl
  · exact faultOk_error _
  · rename_i hb hm _
    refine faultOk_of_not_evaluable (fun he => ?_) fun _ h => by cases h
    have := ho he
    unfold TokenKind.isUnary at this
    split at this
    · exact hb ‹_›
    · exact hm ‹_›
    · cases this

theorem applyArithmetic_ok {operator : Token} {x y : Float} (ho : S.Evaluable → operator.kind.isBinary)
    (hplus : operator.kind ≠ .plus) (heq : operator.kind ≠ .equalEqual)
    (hne : operator.kind ≠ .bangEqual) : PlainOk S (operator.applyArithmetic x y) := by
  unfold Token.applyArithmetic
  split
  case h_8 =>
    refine faultOk_of_not_evaluable (fun he => ?_) fun _ h => by cases h
    have := ho he
    unfold TokenKind.isBinary at this
    split at this <;> contradiction
  all_goals exact plainOk_pure rfl

theorem applyBinary_ok {operator : Token} {l r : Value} (ho : S.Evaluable → operator.kind.isBinary) :
    PlainOk S (operator.applyBinary l r) := by
  unfold Token.applyBinary
  split
  · exact plainOk_pure rfl
  · exact plainOk_pure rfl
  · exact plainOk_pure rfl
  · exact plainOk_pure rfl
  · exact faultOk_error _
  · rename_i heq hne hplus
    exact applyArithmetic_ok ho hplus heq hne
  · exact faultOk_error _

/-! ### Coming to the children of a node -/

theorem At.any (h : At S Γ t s) (ht : ∀ x, t.mayUse x) : Mirrors S anyName s.store Γ s.scope :=
  h.mirrors.weaken fun x _ => ht x

theorem At.wellNamed (h : At S Γ t s) (hn : S.named) : t.WellNamed :=
  (S.fit (S.clean_of_named hn) h.known).wellNamed hn

/-- A child is come to where the scopes mirror its nesting. -/
theorem At.child {c : Part} {i : Nat} (h : At S Γ t s) (hc : t.children[i]? = some c)
    (hs : StoreOk S s'.store) (hm : Mirrors S anyName s'.store (Γ.enter t i) s'.scope) :
    At S (Γ.enter t i) c s' :=
  ⟨S.known_child h.known hc, hm.weaken fun _ _ => trivial, hs⟩

theorem Part.mayUse_of_child {e c : Expr} {i : Nat} (hc : e.children[i]? = some c) (x : String) :
    (Part.expr e).mayUse x := by
  cases e with
  | var ref => cases hc
  | _ => trivial

/-- The nodes inside of an expression are come to at the same nesting. -/
theorem At.subexpr {e c : Expr} (h : At S Γ (.expr e) s) (hl : Later S s s') (i : Nat)
    (hc : e.children[i]? = some c) : At S Γ (.expr c) s' := by
  exact h.child (i := i) (getElem?_map_some hc) hl.store
    (hl.mirrors (h.any (Part.mayUse_of_child hc)))

/-- A later state at the same node. -/
theorem At.later (h : At S Γ t s) (hl : Later S s s') : At S Γ t s' :=
  ⟨h.known, hl.mirrors h.mirrors, hl.store⟩

/-! ### Lists of expressions and statements -/

/-- Arguments, up to any one of them. -/
theorem collect_safe (ih : Sound S n) {es : List Expr} (hs : StoreOk S s.store)
    (hat : ∀ (i : Nat) e vs s', es[i]? = some e →
      Action.collect (evaluate S.context n) (es.take i) s = .ok vs s' → Later S s s' →
      At S Γ (.expr e) s' ∧ OpensOk S n (.expr e) s') (k : Nat) :
    Safe S s (fun vs st => ∀ v ∈ vs, ValueOk S st v)
      (Action.collect (evaluate S.context n) (es.take k) s) := by
  refine List.take_induction (M := fun l => Safe S s (fun vs st => ∀ v ∈ vs, ValueOk S st v)
    (Action.collect (evaluate S.context n) l s)) (.ok hs (by simp)) (fun i e hi hbefore => ?_) k
  rw [Action.collect_concat]
  refine hbefore.bind fun vs s₁ hvs hl₁ hok => ?_
  obtain ⟨he, ho⟩ := hat i e vs s₁ hi hvs hl₁
  refine (ih.expr he ho).bind fun v s₂ _ hl₂ hv => .ok hl₂.store ?_
  intro w hw
  rcases List.mem_append.1 hw with hw | hw
  · exact (hok w hw).mono hl₂.grows
  · rw [List.mem_singleton.1 hw]
    exact hv

/-- Statements, up to any one of them: the scopes mirror the nesting after those that were run. -/
theorem untilReturn_safe (ih : Sound S n) (ss : List Stmt) (hs : StoreOk S s.store)
    (hm : Mirrors S anyName s.store Γ s.scope)
    (hknown : ∀ (i : Nat) st, ss[i]? = some st → S.known (Γ.afterAll (ss.take i)) (.stmt st))
    (hopens : ∀ (i : Nat) st s', ss[i]? = some st →
      Action.untilReturn (execute S.context n) (ss.take i) s = .ok .normal s' →
      OpensOk S n (.stmt st) s') (k : Nat) :
    Safe S s (CompletionOk S (Γ.afterAll (ss.take k)) s.scope)
      (Action.untilReturn (execute S.context n) (ss.take k) s) := by
  refine List.take_induction (M := fun l => Safe S s (CompletionOk S (Γ.afterAll l) s.scope)
    (Action.untilReturn (execute S.context n) l s))
    (.ok hs ⟨fun _ => hm, fun v hv => by cases hv⟩) (fun i st hi hbefore => ?_) k
  rw [Action.untilReturn_concat]
  refine hbefore.bind fun c s₁ hc hl₁ hok => ?_
  cases c with
  | returned v => exact .ok hl₁.store ⟨(fun h => by cases h), hok.returned⟩
  | normal =>
    have hat : At S (Γ.afterAll (ss.take i)) (.stmt st) s₁ := by
      refine ⟨hknown i st hi, ?_, hl₁.store⟩
      rw [hl₁.scope]
      exact hok.mirrors rfl
    refine (ih.stmt hat (hopens i st s₁ hi hc)).mono fun c st' hok => ?_
    rw [hl₁.scope] at hok
    rwa [Nesting.afterAll, List.foldl_append]

/-! ### Calls -/

variable {callee : Expr} {arguments : List Expr} {id : NodeId} {paren : Token}

theorem argument_at (h : At S Γ (.expr (.call id callee paren arguments)) s)
    (ho : OpensOk S (n + 1) (.expr (.call id callee paren arguments)) s) {f : Value} {s₁ : RunState}
    (hf : evaluate S.context n callee s = .ok f s₁) (hl : Later S s s₁) {i : Nat} {e : Expr}
    {vs : List Value} (hi : arguments[i]? = some e)
    (hvs : Action.collect (evaluate S.context n) (arguments.take i) s₁ = .ok vs s')
    (hl' : Later S s₁ s') : At S Γ (.expr e) s' ∧ OpensOk S n (.expr e) s' :=
  ⟨h.subexpr (hl.trans hl') (i + 1) hi, ho.call (.argument hf hvs hi)⟩

theorem callee_safe (ih : Sound S n) (h : At S Γ (.expr (.call id callee paren arguments)) s)
    (ho : OpensOk S (n + 1) (.expr (.call id callee paren arguments)) s) :
    Safe S s (fun v st => ValueOk S st v) (evaluate S.context n callee s) :=
  ih.expr (h.subexpr (.refl h.store) 0 rfl) (ho.call .callee)

theorem arguments_safe (ih : Sound S n) (h : At S Γ (.expr (.call id callee paren arguments)) s)
    (ho : OpensOk S (n + 1) (.expr (.call id callee paren arguments)) s) {f : Value} {s₁ : RunState}
    (hf : evaluate S.context n callee s = .ok f s₁) (hl : Later S s s₁) (k : Nat) :
    Safe S s₁ (fun vs st => ∀ v ∈ vs, ValueOk S st v)
      (Action.collect (evaluate S.context n) (arguments.take k) s₁) :=
  collect_safe ih hl.store (fun _ _ _ _ hi hvs hl' => argument_at h ho hf hl hi hvs hl') k

/-- A call that is not refused may go ahead. -/
theorem Applies.callOk (ih : Sound S n) (h : At S Γ (.expr (.call id callee paren arguments)) s)
    (ho : OpensOk S (n + 1) (.expr (.call id callee paren arguments)) s) {c : Callable}
    {vs : List Value} {s₁ : RunState}
    (ha : Applies S.context n callee arguments s c vs s₁) : CallOk S s₁ c vs := by
  have hcall := fun f s' (hs : Starts vs c s₁ f s') => ho.here (.call ha hs)
  have hbind : ∀ id' f g s', c = .cls id' → Constructs id' s₁ f g s' →
      S.opened g.closure (.bind f.declaration.id) := by
    rintro id' f g s' rfl hc
    exact ho.here (.construct ha hc)
  obtain ⟨hf, hvs, hc, harity, hdepth⟩ := ha
  have hsafe := callee_safe ih h ho
  rw [hf] at hsafe
  have hsafe' := arguments_safe ih h ho hf hsafe.1 arguments.length
  rw [List.take_length, hvs] at hsafe'
  refine ⟨hsafe'.1.store, ?_, hsafe'.2, harity, hcall, hbind⟩
  rintro f rfl
  exact (hsafe.2.mono hsafe'.1.grows).callable hc

/-- The statements of the body of a function that is called, up to any one of them. -/
theorem body_safe (ih : Sound S n) (h : At S Γ (.expr (.call id callee paren arguments)) s)
    (ho : OpensOk S (n + 1) (.expr (.call id callee paren arguments)) s) {c : Callable}
    {vs : List Value} {f : FunctionObject} {s₁ s₂ : RunState}
    (ha : Applies S.context n callee arguments s c vs s₁) (hs : Starts vs c s₁ f s₂) :
    ∃ Δ, S.declared Δ f.declaration ∧ ∀ k, Safe S s₂
      (CompletionOk S (Nesting.afterAll (Frame.ofCall f.declaration :: Δ)
        (f.declaration.body.take k)) s₂.scope)
      (Action.untilReturn (execute S.context n) (f.declaration.body.take k) s₂) := by
  obtain ⟨hstore, -, -, Δ, hdecl, hm⟩ := (ha.callOk ih h ho).starts hs
  exact ⟨Δ, hdecl, untilReturn_safe ih _ hstore hm (S.declared_body hdecl) fun i st s' hi hb =>
    ho.call (.body ha hs hb hi)⟩

theorem call_expr_safe (ih : Sound S n) (h : At S Γ (.expr (.call id callee paren arguments)) s)
    (ho : OpensOk S (n + 1) (.expr (.call id callee paren arguments)) s) :
    Safe S s (fun v st => ValueOk S st v)
      (evaluate S.context (n + 1) (.call id callee paren arguments) s) := by
  refine (callee_safe ih h ho).bind fun f s₁ hf hl₁ hfok => ?_
  have hargs := arguments_safe ih h ho hf hl₁ arguments.length
  rw [List.take_length] at hargs
  refine hargs.bind fun vs s₂ hvs hl₂ hvok => ?_
  refine call_safe hl₂.store (hfok.mono hl₂.grows) hvok fun c hc harity hdepth => ?_
  have ha : Applies S.context n callee arguments s c vs _ := .mk hf hvs hc harity hdepth
  have hok := ha.callOk ih h ho
  refine ⟨hok.call, hok.bind, fun g s' hs => ?_⟩
  obtain ⟨Δ, -, hsafe⟩ := body_safe ih h ho ha hs
  have hsafe := hsafe g.declaration.body.length
  rw [List.take_length] at hsafe
  exact hsafe.mono fun c st hok => hok.returned

/-! ### Expressions -/

/-- A recorded distance is that of the name. -/
theorem At.distance?_eq (h : At S Γ t s) {id : NodeId} {x : String} (hid : t.id? = some id)
    (hx : t.looksUp? = some x ∨ t.looksUp? = none) {d : Nat}
    (hd : S.context.table[id]? = some d) : Γ.distance? x = some d := by
  rw [S.table_eq h.known hid] at hd
  have hlook : ∀ e, t.looksUp?.bind Γ.distance? = some e → Γ.distance? x = some e := by
    intro e he
    rcases hx with hx | hx
    · rwa [hx] at he
    · rw [hx] at he
      cases he
  unfold Part.entry? at hd
  split at hd
  · rename_i id' keyword
    obtain rfl : keyword.lexeme = x := by
      rcases hx with hx | hx
      · exact Option.some.inj hx
      · cases hx
    split at hd
    · cases hd
    · exact hd
  · exact hlook d hd

theorem var_safe {ref : VarRef} (h : At S Γ (.expr (.var ref)) s) :
    Safe S s (fun v st => ValueOk S st v) (Run.lookUp S.context ref.id ref.name s) := by
  refine lookUp_safe h.store h.mirrors (fun d hd => h.distance?_eq rfl (.inl rfl) hd) ?_
  intro hn d hd
  have hfit := S.fit (S.clean_of_named hn) h.known
  exact ⟨rfl, hfit.ready_var (h.distance?_eq rfl (.inl rfl) hd)⟩

theorem this_safe {id : NodeId} {keyword : Token} (h : At S Γ (.expr (.this id keyword)) s) :
    Safe S s (fun v st => ValueOk S st v) (Run.lookUp S.context id keyword s) := by
  refine lookUp_safe h.store h.mirrors (fun d hd => h.distance?_eq rfl (.inl rfl) hd) ?_
  intro hn d hd
  have hfit := S.fit (S.clean_of_named hn) h.known
  have hkeyword : keyword.lexeme = "this" := hfit.wellNamed hn
  obtain ⟨d', f, hd', hf, hr⟩ := hfit.ready_this hn
  have hdist := h.distance?_eq rfl (.inl rfl) hd
  rw [hkeyword, hd'] at hdist
  cases hdist
  exact ⟨trivial, f, hf, hkeyword ▸ hr⟩

theorem super_safe {id : NodeId} {keyword method : Token}
    (h : At S Γ (.expr (.super id keyword method)) s)
    (ho : OpensOk S (n + 1) (.expr (.super id keyword method)) s) :
    Safe S s (fun v st => ValueOk S st v) (Run.superMethod S.context id method s) := by
  refine superMethod_safe h.store (h.any fun _ => trivial) ?_ ?_
    fun d c this f hd hc ht hf => ho.here (.super hd hc ht hf)
  · intro d hd
    obtain ⟨f, hf, -⟩ := Nesting.distance?_eq_some (h.distance?_eq rfl (.inl rfl) hd)
    exact (List.getElem?_eq_some_iff.1 hf).1
  · intro hn
    have hfit := S.fit (S.clean_of_named hn) h.known
    have hkeyword : keyword.lexeme = "super" := hfit.wellNamed hn
    obtain ⟨d, f, g, id', hd, hf, hop, hg, hr, -⟩ := hfit.ready_super hn
    refine ⟨d, f, g, id', ?_, hf, hop, hg, hr⟩
    refine (S.table_eq h.known rfl).trans ?_
    show Γ.distance? keyword.lexeme = _
    rw [hkeyword, hd]

theorem assign_expr_safe (ih : Sound S n) {target value : Expr} {equals : Token}
    (h : At S Γ (.expr (.assign id target equals value)) s)
    (ho : OpensOk S (n + 1) (.expr (.assign id target equals value)) s) :
    Safe S s (fun v st => ValueOk S st v)
      (evaluate S.context (n + 1) (.assign id target equals value) s) := by
  have hat : ∀ s', Later S s s' → At S Γ (.expr value) s' := fun s' hl =>
    h.subexpr hl 0 (by cases ht : target.asVariable? <;> simp [Expr.children, ht])
  refine (ih.expr (hat s (.refl h.store)) (ho.call .assigned)).bind fun v s₁ _ hl₁ hv => ?_
  have hlook : (Part.expr (.assign id target equals value)).looksUp? =
        some (target.assignedName equals).lexeme ∨
      (Part.expr (.assign id target equals value)).looksUp? = none := by
    cases target with
    | var ref => exact .inl rfl
    | _ => exact .inr rfl
  have hname : S.named → (target.assignedName equals).lexeme ≠ "super" := by
    intro hn
    have hfit := S.fit (S.clean_of_named hn) h.known
    cases target with
    | var ref => exact (hfit.wellNamed hn ref rfl).2
    | _ => exact absurd hfit.violations (by simp [Place.violations, Part.violations, Expr.asVariable?])
  have hassign := assign_safe id (target.assignedName equals) hl₁.store
    (hl₁.mirrors (h.any fun _ => trivial)) (fun d hd => h.distance?_eq rfl hlook hd) hname hv
  refine hassign.bind fun _ s₂ _ hl₂ _ => ?_
  exact .ok hl₂.store (hv.mono hl₂.grows)

/-- One step of the induction, for expressions. -/
theorem evaluate_safe (ih : Sound S n) {e : Expr} (h : At S Γ (.expr e) s)
    (ho : OpensOk S (n + 1) (.expr e) s) :
    Safe S s (fun v st => ValueOk S st v) (evaluate S.context (n + 1) e s) := by
  cases e with
  | literal id value =>
    exact ofExcept_safe h.store (literal_ok fun he => he _ _ h.known)
  | var ref => exact var_safe h
  | assign id target equals value => exact assign_expr_safe ih h ho
  | binary id left operator right =>
    refine (ih.expr (h.subexpr (.refl h.store) 0 rfl) (ho.call .binaryLeft)).bind
      fun l s₁ hl hl₁ _ => ?_
    refine (ih.expr (h.subexpr hl₁ 1 rfl) (ho.call (.binaryRight hl))).bind fun r s₂ _ hl₂ _ => ?_
    exact ofExcept_safe hl₂.store (applyBinary_ok fun he => he _ _ h.known)
  | logical id left operator right =>
    refine (ih.expr (h.subexpr (.refl h.store) 0 rfl) (ho.call .logicalLeft)).bind
      fun l s₁ hl hl₁ hlok => ?_
    cases hd : operator.decidesLogical l with
    | true =>
      rw [if_pos rfl]
      exact .ok hl₁.store hlok
    | false =>
      rw [if_neg (by simp)]
      exact ih.expr (h.subexpr hl₁ 1 rfl) (ho.call (.logicalRight hl hd))
  | unary id operator operand =>
    refine (ih.expr (h.subexpr (.refl h.store) 0 rfl) (ho.call .operand)).bind
      fun v s₁ _ hl₁ _ => ?_
    exact ofExcept_safe hl₁.store (applyUnary_ok fun he => he _ _ h.known)
  | grouping id inner => exact ih.expr (h.subexpr (.refl h.store) 0 rfl) (ho.call .inner)
  | call id callee paren arguments => exact call_expr_safe ih h ho
  | get id object name =>
    refine (ih.expr (h.subexpr (.refl h.store) 0 rfl) (ho.call .getObject)).bind
      fun v s₁ hv hl₁ _ => ?_
    cases v with
    | inst i => exact getProperty_safe hl₁.store fun f hf => ho.here (.get hv hf rfl)
    | _ => exact .error hl₁.store
  | set id object name value =>
    refine (ih.expr (h.subexpr (.refl h.store) 0 rfl) (ho.call .setObject)).bind
      fun v s₁ hv hl₁ _ => ?_
    cases v with
    | inst i =>
      refine (ih.expr (h.subexpr hl₁ 1 rfl) (ho.call (.setValue hv))).bind
        fun w s₂ _ hl₂ hw => ?_
      have hgrows : s₂.store.Extends S.named (s₂.store.setField i name.lexeme w) :=
        .setField _ _ _ _
      exact ⟨.of_store (hl₂.store.setField hw) hgrows, hw.mono hgrows⟩
    | _ => exact .error hl₁.store
  | this id keyword => exact this_safe h
  | super id keyword method => exact super_safe h ho

/-! ### Statements -/

theorem CompletionOk.congr {Δ : Nesting} {e : ScopeId} {c : Completion} {st : Store}
    (h : CompletionOk S Γ e c st) (hc : S.Covers Γ Δ) : CompletionOk S Δ e c st :=
  ⟨fun hn => (h.mirrors hn).congr hc, h.returned⟩

theorem CompletionOk.normal {e : ScopeId} {st : Store} (h : Mirrors S anyName st Γ e) :
    CompletionOk S Γ e .normal st := ⟨fun _ => h, fun v hv => by cases hv⟩

/-- What is declared outside of all scopes may be bound in the globals. -/
theorem At.global {x : String} (h : At S Γ t s) (hm : Mirrors S anyName s.store Γ s.scope)
    (hd : t.declares? = some x) (hg : s.scope = S.context.globals) : S.global x := by
  obtain rfl := hm.global_of_eq hg
  exact S.global_of_known h.known hd

/-- The scope of a block stands for its frame. -/
theorem block_at {id : NodeId} {body : List Stmt} (h : At S Γ (.stmt (.block id body)) s)
    (ho : OpensOk S (n + 1) (.stmt (.block id body)) s) {scope : ScopeId} {s₁ : RunState}
    (hscope : Run.alloc (·.newScope { enclosing := some s.scope }) s = .ok scope s₁) :
    Mirrors S anyName s₁.store ({ opener := .block id } :: Γ) scope ∧ StoreOk S s₁.store := by
  have hopened := ho.here (.block hscope)
  cases hscope
  refine ⟨?_, h.store.newScope fun x v hx => by simp at hx⟩
  exact h.store.mirrors_newScope { enclosing := some s.scope }
    (f := { opener := .block id }) h.mirrors rfl ⟨_, hopened, rfl⟩
    (fun _ x _ hr => by simp at hr) fun _ id' hid => by cases hid

theorem block_safe (ih : Sound S n) {id : NodeId} {body : List Stmt}
    (h : At S Γ (.stmt (.block id body)) s) (ho : OpensOk S (n + 1) (.stmt (.block id body)) s) :
    Safe S s (CompletionOk S Γ s.scope) (execute S.context (n + 1) (.block id body) s) := by
  obtain ⟨hm₁, hs₁⟩ := block_at h ho rfl
  refine Safe.later (.of_store hs₁ (.newScope _ _)) ?_
  refine Safe.mono (Safe.and_grows (Safe.inScope ?_)) fun c st hok =>
    ⟨fun _ => (h.mirrors.mono (.newScope s.store { enclosing := some s.scope })).mono hok.2, hok.1⟩
  have hsafe := untilReturn_safe (n := n)
    (s := { s with
      store := (s.store.newScope { enclosing := some s.scope }).2
      scope := (s.store.newScope { enclosing := some s.scope }).1 }) ih body hs₁ hm₁
    (fun i st hi => S.known_child h.known (i := i) (getElem?_map_some hi))
    (fun i st s' hi hb => ho.call (.block rfl hb hi)) body.length
  rw [List.take_length] at hsafe
  exact hsafe.mono fun c st hok => hok.returned

/-! A branch that is taken leaves the scopes as its nesting asks; so does one that is not, because the
names it would have declared are not sure to be bound. -/

/-- The first branch alone makes a nesting ask for no more. -/
theorem covers_thenBranch {id : NodeId} {condition : Expr} {thenBranch : Stmt}
    {elseBranch : Option Stmt}
    (h : S.known Γ (.stmt (.branch id condition thenBranch elseBranch))) :
    S.Covers Γ (Γ.after thenBranch) :=
  .of_after thenBranch (S.known_child h (i := 1) rfl) fun hc _ _ hx ho =>
    S.unsure hc h rfl (i := 1) rfl hx ho

theorem covers_branch {id : NodeId} {condition : Expr} {thenBranch : Stmt} {elseBranch : Option Stmt}
    (h : S.known Γ (.stmt (.branch id condition thenBranch elseBranch))) :
    S.Covers (Γ.after thenBranch) (Γ.after (.branch id condition thenBranch elseBranch)) := by
  cases elseBranch with
  | none => exact .refl _
  | some e =>
    refine .of_after e (S.known_child h (i := 2) rfl) fun hc x o hx ho => ?_
    rw [Nesting.openers_after] at ho
    exact S.unsure hc h rfl (i := 2) rfl hx ho

theorem covers_loop {id : NodeId} {condition : Expr} {body : Stmt}
    (h : S.known Γ (.stmt (.loop id condition body))) : S.Covers Γ (Γ.after body) :=
  .of_after body (S.known_child h (i := 1) rfl) fun hc _ _ hx ho =>
    S.unsure hc h rfl (i := 1) rfl hx ho

theorem branch_safe (ih : Sound S n) {id : NodeId} {condition : Expr} {thenBranch : Stmt}
    {elseBranch : Option Stmt} (h : At S Γ (.stmt (.branch id condition thenBranch elseBranch)) s)
    (ho : OpensOk S (n + 1) (.stmt (.branch id condition thenBranch elseBranch)) s) :
    Safe S s (CompletionOk S (Γ.after (.branch id condition thenBranch elseBranch)) s.scope)
      (execute S.context (n + 1) (.branch id condition thenBranch elseBranch) s) := by
  have hthen := covers_thenBranch h.known
  have hbranch := covers_branch h.known
  refine (ih.expr (h.child (i := 0) rfl h.store h.mirrors) (ho.call .branchCondition)).bind
    fun v s₁ hv hl₁ _ => ?_
  have hm₁ := hl₁.mirrors h.mirrors
  cases ht : v.truthy with
  | true =>
    rw [if_pos rfl]
    refine (ih.stmt (h.child (i := 1) rfl hl₁.store hm₁) (ho.call (.thenBranch hv ht))).mono
      fun c st hok => ?_
    rw [hl₁.scope] at hok
    exact hok.congr hbranch
  | false =>
    rw [if_neg (by simp)]
    cases elseBranch with
    | none =>
      refine .ok hl₁.store (.normal ?_)
      rw [hl₁.scope] at hm₁
      exact hm₁.congr (hthen.trans hbranch)
    | some elseBranch =>
      have hm₂ : Mirrors S anyName s₁.store (Γ.after thenBranch) s₁.scope := hm₁.congr hthen
      refine (ih.stmt (h.child (i := 2) rfl hl₁.store hm₂) (ho.call (.elseBranch hv ht))).mono
        fun c st hok => ?_
      rwa [hl₁.scope] at hok

theorem loop_safe (ih : Sound S n) {id : NodeId} {condition : Expr} {body : Stmt}
    (h : At S Γ (.stmt (.loop id condition body)) s)
    (ho : OpensOk S (n + 1) (.stmt (.loop id condition body)) s) :
    Safe S s (CompletionOk S (Γ.after (.loop id condition body)) s.scope)
      (execute S.context (n + 1) (.loop id condition body) s) := by
  have hloop : S.Covers Γ (Γ.after body) := covers_loop h.known
  refine (ih.expr (h.child (i := 0) rfl h.store h.mirrors) (ho.call .loopCondition)).bind
    fun v s₁ hv hl₁ _ => ?_
  have hm₁ := hl₁.mirrors h.mirrors
  cases ht : v.truthy with
  | true =>
    rw [if_pos rfl]
    refine (ih.stmt (h.child (i := 1) rfl hl₁.store hm₁) (ho.call (.loopBody hv ht))).bind
      fun c s₂ hb hl₂ hok => ?_
    cases c with
    | returned v => exact .ok hl₂.store ⟨(fun hn => by cases hn), hok.returned⟩
    | normal =>
      have hm₂ := (hok.mirrors rfl).congr (.after Γ body)
      rw [← hl₂.scope] at hm₂
      have hat : At S Γ (.stmt (.loop id condition body)) s₂ := ⟨h.known, hm₂, hl₂.store⟩
      refine (ih.stmt hat (ho.call (.loopAgain hv ht hb))).mono fun c st hok => ?_
      rwa [hl₂.scope, hl₁.scope] at hok
  | false =>
    rw [if_neg (by simp)]
    refine .ok hl₁.store (.normal ?_)
    rw [hl₁.scope] at hm₁
    exact hm₁.congr hloop

/-- A superclass is come to where the class itself counts as ready; its name is not looked up. -/
theorem superclass_at {id : NodeId} {name : Token} {ref : VarRef} {methods : List FunctionDecl}
    (h : At S Γ (.stmt (.classDecl id name (some ref) methods)) s) :
    At S (Γ.declareReady name.lexeme) (.expr (.var ref)) s := by
  have hm : Mirrors S anyName s.store Γ s.scope := h.mirrors
  refine ⟨S.known_child h.known (i := 0) rfl, ?_, h.store⟩
  by_cases hc : S.clean
  · -- the class is not its own superclass, so its name need not be bound yet
    have hne : ref.name.lexeme ≠ name.lexeme := by
      intro he
      have hv := (S.fit hc h.known).violations
      simp [Place.violations, Part.violations, he] at hv
    exact hm.declareReady_unused fun y hy => ⟨trivial, (show y = _ from hy) ▸ hne⟩
  · exact hm.of_openers hc (Nesting.openers_declareReady Γ _).symm

theorem subclass_safe (ih : Sound S n) {id : NodeId} {name : Token} {ref : VarRef}
    {methods : List FunctionDecl} (h : At S Γ (.stmt (.classDecl id name (some ref) methods)) s)
    (ho : OpensOk S (n + 1) (.stmt (.classDecl id name (some ref) methods)) s) :
    Safe S s (CompletionOk S (Γ.declareReady name.lexeme) s.scope)
      (execute S.context (n + 1) (.classDecl id name (some ref) methods) s) := by
  have hm : Mirrors S anyName s.store Γ s.scope := h.mirrors
  refine (ih.expr (superclass_at h) (ho.call .superclass)).bind fun v s₁ hv hl₁ _ => ?_
  have hm₁ := hl₁.mirrors hm
  cases v with
  | cls c =>
    have hsafe := declareClass_safe (s := s₁) id name (some ref) (some c) methods hl₁.store hm₁ rfl ?_ ?_ ?_ ?_
    · show Safe S s₁ _ ((Run.declareClass name (some c) methods >>= _) s₁)
      refine Safe.bind hsafe fun _ s₂ _ hl₂ hok => ?_
      rw [hl₁.scope] at hok
      exact .ok hl₂.store (.normal hok)
    · intro f hf
      obtain ⟨i, hi⟩ := List.getElem?_of_mem hf
      exact S.declared_method (S.known_child h.known (i := i + 1) (getElem?_map_some hi))
    · exact fun hg => h.global hm rfl (hl₁.scope ▸ hg)
    · exact fun hn => (h.wellNamed hn).2
    · intro c' scope s' hc' hs'
      cases hc'
      exact ho.here (.subclass hv rfl hs')
  | _ => exact .error hl₁.store

/-- One step of the induction, for statements. -/
theorem execute_safe (ih : Sound S n) {st : Stmt} (h : At S Γ (.stmt st) s)
    (ho : OpensOk S (n + 1) (.stmt st) s) :
    Safe S s (CompletionOk S (Γ.after st) s.scope) (execute S.context (n + 1) st s) := by
  have hm : Mirrors S anyName s.store Γ s.scope := h.mirrors
  cases st with
  | block id body => exact block_safe ih h ho
  | expression id e =>
    refine (ih.expr (h.child (i := 0) rfl h.store hm) (ho.call .expression)).bind
      fun v s₁ _ hl₁ _ => ?_
    exact .ok hl₁.store (.normal (hl₁.scope ▸ hl₁.mirrors hm))
  | print id e =>
    refine (ih.expr (h.child (i := 0) rfl h.store hm) (ho.call .print)).bind
      fun v s₁ _ hl₁ _ => ?_
    exact ⟨⟨hl₁.store, .refl _, rfl, rfl⟩, .normal (hl₁.scope ▸ hl₁.mirrors hm)⟩
  | varDecl id name initializer =>
    have hname : S.named → name.lexeme ≠ "super" := fun hn => (h.wellNamed hn).2
    have hpending := hm.mark_false name.lexeme
    cases initializer with
    | none =>
      refine Safe.bind (defineVariable_safe h.store hpending (.of_isPlain rfl)
        (h.global hm rfl) hname) fun _ s₁ _ hl₁ hok => ?_
      exact .ok hl₁.store (.normal hok)
    | some e =>
      refine (ih.expr (h.child (i := 0) rfl h.store hpending) (ho.call .initializer)).bind
        fun v s₁ _ hl₁ hv => ?_
      refine Safe.bind (defineVariable_safe hl₁.store (hl₁.mirrors hpending) hv
        (fun hg => h.global hm rfl (hl₁.scope ▸ hg)) hname) fun _ s₂ _ hl₂ hok => ?_
      rw [hl₁.scope] at hok
      exact .ok hl₂.store (.normal hok)
  | branch id condition thenBranch elseBranch => exact branch_safe ih h ho
  | loop id condition body => exact loop_safe ih h ho
  | function f =>
    have hsafe := declareFunction_safe h.store hm (S.declared_function h.known) (h.global hm rfl)
      fun hn => (h.wellNamed hn).1.2
    show Safe S s _ (((do
      let id ← Run.closeOver s.scope false f
      Run.define f.name.lexeme (.function id)) >>= fun _ => pure Completion.normal) s)
    exact hsafe.bind fun _ s₁ _ hl₁ hok => .ok hl₁.store (.normal hok)
  | ret id keyword value =>
    cases value with
    | none =>
      refine .ok h.store ⟨(fun hn => by cases hn), fun v hv => ?_⟩
      cases hv
      exact .of_isPlain rfl
    | some e =>
      refine (ih.expr (h.child (i := 0) rfl h.store hm) (ho.call .returned)).bind
        fun v s₁ _ hl₁ hv => ?_
      refine .ok hl₁.store ⟨(fun hn => by cases hn), fun w hw => ?_⟩
      cases hw
      exact hv
  | classDecl id name superclass methods =>
    cases superclass with
    | some ref => exact subclass_safe ih h ho
    | none =>
      have hsafe := declareClass_safe id name none none methods h.store hm rfl ?_ (h.global hm rfl)
        (fun hn => (h.wellNamed hn).2) (fun c scope s' hc => by cases hc)
      · exact Safe.bind hsafe fun _ s₁ _ hl₁ hok => .ok hl₁.store (.normal hok)
      · intro f hf
        obtain ⟨i, hi⟩ := List.getElem?_of_mem hf
        exact S.declared_method (S.known_child h.known (i := i) (getElem?_map_some hi))

/-- Every run is safe, whatever the fuel. -/
theorem sound (n : Nat) : Sound S n := by
  induction n with
  | zero => exact ⟨fun _ _ => trivial, fun _ _ => trivial⟩
  | succ n ih => exact ⟨evaluate_safe ih, execute_safe ih⟩

end Lox
