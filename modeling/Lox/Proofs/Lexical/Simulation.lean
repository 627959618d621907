import Lox.Proofs.Lexical.Calls
import Lox.Proofs.Lexical.Declare
import Lox.Proofs.Run.Evaluate

/-!
# Every run matches

The one induction over runs of the two semantics.  A node that is come to with a map that stands for
the scopes is run to the same end (`Follows`): an expression to the same value, and the scopes there
have no new names; a statement to the same completion, and the map it leaves stands for the current
scope as it is then.  That the scopes mirror the nesting all the while is known from the run of the
evaluator alone.
-/

namespace Lox

/-- In a strict setting a statement that is no declaration leaves the nesting as it is. -/
theorem Setting.after_eq {S : Setting} (hc : S.strict) : ∀ {Γ : Nesting} (s : Stmt),
    S.known Γ (.stmt s) → s.isDeclaration = false → Γ.after s = Γ
  | _, .varDecl .., _, hd => by cases hd
  | _, .function _, _, hd => by cases hd
  | _, .classDecl .., _, hd => by cases hd
  | Γ, .branch _ _ t none, hk, _ => by
    have hw := S.wellScoped hc hk
    exact Setting.after_eq hc t (S.known_child hk (i := 1) rfl) hw.1
  | Γ, .branch _ _ t (some e), hk, _ => by
    have hw := S.wellScoped hc hk
    have ht : Γ.after t = Γ := Setting.after_eq hc t (S.known_child hk (i := 1) rfl) hw.1
    have he : S.known (Γ.after t) (.stmt e) := S.known_child hk (i := 2) rfl
    rw [Nesting.after, Setting.after_eq hc e he (hw.2 e rfl), ht]
  | Γ, .loop _ _ body, hk, _ => by
    have hw := S.wellScoped hc hk
    exact Setting.after_eq hc body (S.known_child hk (i := 1) rfl) hw
  | _, .block .., _, _ => rfl
  | _, .expression .., _, _ => rfl
  | _, .print .., _, _ => rfl
  | _, .ret .., _, _ => rfl

/-- A name that is declared once in a scope is not there before. -/
theorem At.fresh {S : Setting} {Γ : Nesting} {t : Part} {s : RunState} {x : String}
    (h : At S Γ t s) (hc : S.strict) (hx : t.declares? = some x) : Γ.hasHere x = false := by
  have hv := (S.fit (S.clean_of_strict hc) h.known).violations
  have key : ∀ (name : Token) (es : List StaticError), Γ.redeclared name ++ es = [] →
      Γ.hasHere name.lexeme = false := by
    intro name es he
    have := (List.append_eq_nil_iff.1 he).1
    unfold Nesting.redeclared at this
    split at this
    · cases this
    · rename_i hh
      exact eq_false_of_ne_true hh
  cases t with
  | stmt st =>
    cases st with
    | varDecl id name initializer =>
      cases hx
      exact key name [] ((List.append_nil _).trans hv)
    | function f =>
      cases hx
      exact key f.name _ hv
    | classDecl id name superclass methods =>
      cases hx
      exact key name _ hv
    | _ => cases hx
  | _ => cases hx

/-- The current scope is one of the store. -/
theorem At.inStore {S : Setting} {Γ : Nesting} {t : Part} {s : RunState} (h : At S Γ t s) :
    Lexical.inStore s.store s.scope := Mirrors.lt h.store h.mirrors

namespace Lexical

variable {S : Setting} {n : Nat} {μ μ' : Links} {s s' : RunState} {l : State} {Γ : Nesting} {ρ : Env}

/-- How a statement that was come to in a state leaves the current scope. -/
def Left (Γ : Nesting) (s : RunState) (μ : Links) :
    Links → Completion → Completion × Env → Store → State → Prop :=
  fun μ' c r st _ => r.1 = c ∧ μ.SameOn (inStoreBut s.store s.scope) μ' ∧
    (c = .normal → SameScope μ' st Γ s.scope r.2)

variable (S) in
/-- Every run with so much fuel is followed. -/
structure Follows (n : Nat) : Prop where
  expr : ∀ {Γ e s μ l ρ}, At S Γ (.expr e) s → OpensOk S n (.expr e) s → Simulates S μ s l →
    SameNames μ (Part.expr e).mayUse s.store Γ s.scope ρ →
    Matches S μ (Same (inStore s.store) μ) (Lox.evaluate S.context n e s)
      (evaluate S.context.maxDepth n ρ e l)
  stmt : ∀ {Γ st s μ l ρ}, At S Γ (.stmt st) s → OpensOk S n (.stmt st) s → Simulates S μ s l →
    SameScope μ s.store Γ s.scope ρ →
    Matches S μ (Left (Γ.after st) s μ) (Lox.execute S.context n st s)
      (execute S.context.maxDepth n ρ st l)

/-! ### Later states -/

theorem SameNames.later {N : String → Prop} (h : SameNames μ N s.store Γ s.scope ρ)
    (hl : Later S s s') (hg : μ.Grows μ') : SameNames μ' N s'.store Γ s'.scope ρ := by
  rw [hl.scope]
  exact h.mono hl.grows hg

theorem SameScope.after {P : ScopeId → Prop} (h : SameScope μ s.store Γ s.scope ρ)
    (hl : Later S s s') (hg : μ.Grows μ') (hs : μ.SameOn P μ') (hP : P s.scope) :
    SameScope μ' s'.store Γ s'.scope ρ := by
  rw [hl.scope]
  exact h.mono hl.grows hg hs hP

theorem inStoreBut_of_later (hl : Later S s s') {e : ScopeId} (he : inStoreBut s.store s.scope e) :
    inStoreBut s'.store s'.scope e := by
  rw [inStoreBut, hl.scope]
  exact ⟨inStore_of_extends hl.grows he.1, he.2⟩

/-- What a statement does from a later state on. -/
theorem Left.since {μ'' : Links} {c : Completion} {r : Completion × Env} {st : Store}
    (h : Left Γ s' μ' μ'' c r st l) (hl : Later S s s')
    (hs : μ.SameOn (inStoreBut s.store s.scope) μ') : Left Γ s μ μ'' c r st l := by
  obtain ⟨hc, hsame, hn⟩ := h
  rw [hl.scope] at hn
  exact ⟨hc, hs.trans hsame fun e he => inStoreBut_of_later hl he, hn⟩

/-! ### An expression, and what comes after it -/

variable {α β : Type} {R : Links → α → β → Store → State → Prop} {e : Expr}

theorem Follows.bind (ih : Follows S n) (h : At S Γ (.expr e) s) (ho : OpensOk S n (.expr e) s)
    (hsim : Simulates S μ s l) (hn : SameNames μ (Part.expr e).mayUse s.store Γ s.scope ρ)
    {k : Value → Run α} {k' : Value → Eval β}
    (hk : ∀ v s' μ' l', Lox.evaluate S.context n e s = .ok v s' → Later S s s' →
      ValueOk S s'.store v → μ.Grows μ' → μ.SameOn (inStore s.store) μ' → Simulates S μ' s' l' →
      Matches S μ' R (k v s') (k' v l')) :
    Matches S μ R ((Lox.evaluate S.context n e >>= k) s)
      ((evaluate S.context.maxDepth n ρ e >>= k') l) := by
  refine (ih.expr h ho hsim hn).bind_same fun μ' v s' l' hv hg hsame hsim' => ?_
  obtain ⟨hl, hok⟩ := ((sound n).expr h ho).of_ok hv
  exact hk v s' μ' l' hv hl hok hg hsame hsim'

/-- What comes after it gives a value. -/
theorem Follows.bind_expr (ih : Follows S n) (h : At S Γ (.expr e) s) (ho : OpensOk S n (.expr e) s)
    (hsim : Simulates S μ s l) (hn : SameNames μ (Part.expr e).mayUse s.store Γ s.scope ρ)
    {k : Value → Run α} {k' : Value → Eval α}
    (hk : ∀ v s' μ' l', Lox.evaluate S.context n e s = .ok v s' → Later S s s' →
      ValueOk S s'.store v → μ.Grows μ' → Simulates S μ' s' l' →
      Matches S μ' (Same (Lexical.inStore s'.store) μ') (k v s') (k' v l')) :
    Matches S μ (Same (Lexical.inStore s.store) μ) ((Lox.evaluate S.context n e >>= k) s)
      ((evaluate S.context.maxDepth n ρ e >>= k') l) :=
  ih.bind h ho hsim hn fun v s' μ' l' hv hl hok hg hsame hsim' =>
    (hk v s' μ' l' hv hl hok hg hsim').mono fun _ _ _ _ _ hq =>
      ⟨hq.1, hsame.trans hq.2 fun _ he => inStore_of_extends hl.grows he⟩

/-- What comes after it ends as a statement does. -/
theorem Follows.bind_stmt {Δ : Nesting} (ih : Follows S n) (h : At S Γ (.expr e) s)
    (ho : OpensOk S n (.expr e) s) (hsim : Simulates S μ s l)
    (hn : SameNames μ (Part.expr e).mayUse s.store Γ s.scope ρ)
    {k : Value → Run Completion} {k' : Value → Eval (Completion × Env)}
    (hk : ∀ v s' μ' l', Lox.evaluate S.context n e s = .ok v s' → Later S s s' →
      ValueOk S s'.store v → μ.Grows μ' → μ.SameOn (Lexical.inStore s.store) μ' →
      Simulates S μ' s' l' → Matches S μ' (Left Δ s' μ') (k v s') (k' v l')) :
    Matches S μ (Left Δ s μ) ((Lox.evaluate S.context n e >>= k) s)
      ((evaluate S.context.maxDepth n ρ e >>= k') l) :=
  ih.bind h ho hsim hn fun v s' μ' l' hv hl hok hg hsame hsim' =>
    (hk v s' μ' l' hv hl hok hg hsame hsim').mono fun _ _ _ _ _ hq =>
      hq.since hl (hsame.mono fun _ he => he.1)

/-! ### Lists of expressions and statements -/

/-- Arguments get the same values. -/
theorem collect_matches (ih : Follows S n) : ∀ (es : List Expr) {s : RunState} {μ : Links} {l : State},
    StoreOk S s.store → Simulates S μ s l → SameNames μ anyName s.store Γ s.scope ρ →
    (∀ (i : Nat) e vs s', es[i]? = some e →
      Action.collect (Lox.evaluate S.context n) (es.take i) s = .ok vs s' → Later S s s' →
      At S Γ (.expr e) s' ∧ OpensOk S n (.expr e) s') →
    Matches S μ (Same (inStore s.store) μ) (Action.collect (Lox.evaluate S.context n) es s)
      (Action.collect (evaluate S.context.maxDepth n ρ) es l)
  | [], _, _, _, _, hsim, _, _ => .same hsim
  | e :: es, s, μ, l, hs, hsim, hn, hat => by
    obtain ⟨h, ho⟩ := hat 0 e [] s rfl rfl (.refl hs)
    refine ih.bind_expr h ho hsim (hn.weaken fun _ _ => trivial) fun v s₁ μ₁ l₁ hv hl₁ _ hg₁ hsim₁ => ?_
    have htail := collect_matches ih es hl₁.store hsim₁ (hn.later hl₁ hg₁)
      fun i e' vs s' hi hvs hl => hat (i + 1) e' (v :: vs) s' hi
        (by rw [List.take_succ_cons, Action.collect, Action.bind_of_ok hv, Action.bind_of_ok hvs]; rfl)
        (hl₁.trans hl)
    refine htail.bind_same fun μ₂ vs s₂ l₂ _ _ hsame₂ hsim₂ => ?_
    exact .ok hsim₂ ⟨rfl, hsame₂⟩

/-- Statements in their order end in the same way; the other scopes have no new names. -/
theorem inOrder_matches (ih : Follows S n) : ∀ (ss : List Stmt) {Γ : Nesting} {s : RunState}
    {μ : Links} {l : State} {ρ : Env}, StoreOk S s.store → Mirrors S anyName s.store Γ s.scope →
    (∀ (i : Nat) st, ss[i]? = some st → S.known (Γ.afterAll (ss.take i)) (.stmt st)) →
    (∀ (i : Nat) st s', ss[i]? = some st →
      Action.untilReturn (Lox.execute S.context n) (ss.take i) s = .ok .normal s' →
      OpensOk S n (.stmt st) s') →
    Simulates S μ s l → SameScope μ s.store Γ s.scope ρ →
    Matches S μ (Same (inStoreBut s.store s.scope) μ)
      (Action.untilReturn (Lox.execute S.context n) ss s)
      (Eval.inOrder (execute S.context.maxDepth n) ρ ss l)
  | [], _, _, _, _, _, _, _, _, _, hsim, _ => .same hsim
  | st :: ss, Γ, s, μ, l, ρ, hs, hm, hknown, hopens, hsim, hn => by
    have hat : At S Γ (.stmt st) s := ⟨hknown 0 st rfl, hm, hs⟩
    have ho := hopens 0 st s rfl rfl
    refine (ih.stmt hat ho hsim hn).bind fun μ₁ c r s₁ l₁ hc hg₁ hsim₁ hq => ?_
    obtain ⟨c', ρ₁⟩ := r
    obtain ⟨rfl, hsame₁, hn₁⟩ := hq
    obtain ⟨hl₁, hok⟩ := ((sound n).stmt hat ho).of_ok hc
    cases c' with
    | returned v => exact .ok hsim₁ ⟨rfl, hsame₁⟩
    | normal =>
      have hm₁ := hok.mirrors rfl
      have hn₁ := hn₁ rfl
      rw [← hl₁.scope] at hm₁ hn₁
      have htail := inOrder_matches ih ss hl₁.store hm₁ (fun i st' hi => hknown (i + 1) st' hi)
        (fun i st' s' hi hb => hopens (i + 1) st' s' hi
          (by rw [List.take_succ_cons, Action.untilReturn, Action.bind_of_ok hc]; exact hb)) hsim₁ hn₁
      exact htail.mono fun _ _ _ _ _ hq =>
        ⟨hq.1, hsame₁.trans hq.2 fun _ he => inStoreBut_of_later hl₁ he⟩

/-! ### Expressions -/

theorem ofExcept_matches {P : ScopeId → Prop} (hsim : Simulates S μ s l) (x : Except Fault α) :
    Matches S μ (Same P μ) (Action.ofExcept x s) (Action.ofExcept x l) := by
  cases x with
  | ok a => exact .same hsim
  | error fault => exact .raised hsim fault

section Expressions

variable {id : NodeId}

theorem var_matches (hc : S.strict) {ref : VarRef} (h : At S Γ (.expr (.var ref)) s)
    (hsim : Simulates S μ s l)
    (hn : SameNames μ (Part.expr (.var ref)).mayUse s.store Γ s.scope ρ) :
    Matches S μ (Same (inStore s.store) μ) (Run.lookUp S.context ref.id ref.name s)
      (Eval.lookUp ρ ref.name l) :=
  lookUp_matches hc hsim h.store hn rfl (S.table_eq h.known rfl) (var_safe h)

theorem this_matches (hc : S.strict) {keyword : Token} (h : At S Γ (.expr (.this id keyword)) s)
    (hsim : Simulates S μ s l) (hn : SameNames μ anyName s.store Γ s.scope ρ) :
    Matches S μ (Same (inStore s.store) μ) (Run.lookUp S.context id keyword s)
      (Eval.lookUp ρ keyword l) := by
  refine lookUp_matches hc hsim h.store hn trivial ((S.table_eq h.known rfl).trans ?_) (this_safe h)
  have hv := (S.fit (S.clean_of_strict hc) h.known).violations
  unfold Part.entry?
  cases hk : Γ.classKind with
  | none => simp [Place.violations, Part.violations, hk] at hv
  | _ => rfl

theorem super_matches (hc : S.strict) {keyword method : Token}
    (h : At S Γ (.expr (.super id keyword method)) s)
    (ho : OpensOk S (n + 1) (.expr (.super id keyword method)) s) (hsim : Simulates S μ s l)
    (hn : SameNames μ anyName s.store Γ s.scope ρ) :
    Matches S μ (Same (inStore s.store) μ) (Run.superMethod S.context id method s)
      (Eval.superMethod ρ method l) := by
  have hfit := S.fit (S.clean_of_strict hc) h.known
  have hkeyword : keyword.lexeme = "super" := hfit.wellNamed (S.named_of_strict hc)
  obtain ⟨d, f, g, id', hd, hf, hop, hg, hr, hthis⟩ := hfit.ready_super (S.named_of_strict hc)
  have ht : S.context.table[id]? = some (d + 1) := by
    refine (S.table_eq h.known rfl).trans ?_
    show Γ.distance? keyword.lexeme = _
    rw [hkeyword, hd]
  exact superMethod_matches (S.named_of_strict hc) hsim h.store (h.any fun _ => trivial) hn ht hd
    hthis hf hop hg hr fun d c this f hd hc ht hf => ho.here (.super hd hc ht hf)

theorem assign_expr_matches (hc : S.strict) (ih : Follows S n) {target value : Expr} {equals : Token}
    (h : At S Γ (.expr (.assign id target equals value)) s)
    (ho : OpensOk S (n + 1) (.expr (.assign id target equals value)) s) (hsim : Simulates S μ s l)
    (hn : SameNames μ anyName s.store Γ s.scope ρ) :
    Matches S μ (Same (inStore s.store) μ)
      (Lox.evaluate S.context (n + 1) (.assign id target equals value) s)
      (evaluate S.context.maxDepth (n + 1) ρ (.assign id target equals value) l) := by
  have hfit := S.fit (S.clean_of_strict hc) h.known
  obtain ⟨ref, rfl⟩ : ∃ ref, target = .var ref := by
    cases target with
    | var ref => exact ⟨ref, rfl⟩
    | _ => exact absurd hfit.violations (by simp [Place.violations, Part.violations, Expr.asVariable?])
  refine ih.bind_expr (h.subexpr (.refl h.store) 0 rfl) (ho.call .assigned) hsim
    (hn.weaken fun _ _ => trivial) fun v s₁ μ₁ l₁ hv hl₁ _ hg₁ hsim₁ => ?_
  have hassign : Matches S μ₁ (Same (inStore s₁.store) μ₁) (Run.assign S.context id ref.name v s₁)
      (Eval.assign ρ ref.name v l₁) :=
    assign_matches hsim₁ hl₁.store (hn.later hl₁ hg₁) trivial (S.table_eq h.known rfl)
      fun hn => (hfit.wellNamed hn ref rfl).2
  exact hassign.bind_same fun μ₂ _ s₂ l₂ _ _ hsame₂ hsim₂ => .ok hsim₂ ⟨rfl, hsame₂⟩

theorem call_expr_matches (hc : S.strict) (ih : Follows S n) {callee : Expr} {paren : Token}
    {arguments : List Expr} (h : At S Γ (.expr (.call id callee paren arguments)) s)
    (ho : OpensOk S (n + 1) (.expr (.call id callee paren arguments)) s) (hsim : Simulates S μ s l)
    (hn : SameNames μ anyName s.store Γ s.scope ρ) :
    Matches S μ (Same (inStore s.store) μ)
      (Lox.evaluate S.context (n + 1) (.call id callee paren arguments) s)
      (evaluate S.context.maxDepth (n + 1) ρ (.call id callee paren arguments) l) := by
  refine ih.bind_expr (h.subexpr (.refl h.store) 0 rfl) (ho.call .callee) hsim
    (hn.weaken fun _ _ => trivial) fun f s₁ μ₁ l₁ hf hl₁ _ hg₁ hsim₁ => ?_
  have hargs := collect_matches ih arguments hl₁.store hsim₁ (hn.later hl₁ hg₁)
    fun i e vs s' hi hvs hl => argument_at h ho hf hl₁ hi hvs hl
  refine hargs.bind_same fun μ₂ vs s₂ l₂ hvs hg₂ hsame₂ hsim₂ => ?_
  have hl₂ := arguments_safe (sound n) h ho hf hl₁ arguments.length
  rw [List.take_length, hvs] at hl₂
  have hcall : Matches S μ₂ (Same (inStore s₂.store) μ₂)
      (Run.call S.context (Action.untilReturn (Lox.execute S.context n)) paren f vs s₂)
      (Eval.call S.context.maxDepth (Eval.inOrder (execute S.context.maxDepth n)) paren f vs l₂) := by
    refine call_matches paren f hsim₂ fun c c' hcal harity hdepth hr => ?_
    have ha : Applies S.context n callee arguments s c vs _ := .mk hf hvs hcal harity hdepth
    have hok := ha.callOk (sound n) h ho
    refine invoke_matches (S.named_of_strict hc) (hsim₂.of_store rfl rfl (congrArg (· + 1) hsim₂.depth) rfl) hok hr
      (fun f s' hs => ?_) fun f s' Δ hs hdecl μ ρ l hsim' hscope => ?_
    · obtain ⟨Δ, -, hsafe⟩ := body_safe (sound n) h ho ha hs
      have hsafe := hsafe f.declaration.body.length
      rw [List.take_length] at hsafe
      exact hsafe.mono fun c st hok => hok.returned
    · obtain ⟨hstore, -, -, Δ', hdecl', hm⟩ := hok.starts hs
      obtain rfl := S.declared_unique hdecl hdecl'
      exact inOrder_matches ih _ hstore hm (S.declared_body hdecl)
        (fun i st s' hi hb => ho.call (.body ha hs hb hi)) hsim' hscope
  exact hcall.mono fun _ _ _ _ _ hq =>
    ⟨hq.1, hsame₂.trans hq.2 fun _ he => inStore_of_extends hl₂.1.grows he⟩

/-- One step of the induction, for expressions. -/
theorem evaluate_matches (hc : S.strict) (ih : Follows S n) {e : Expr} (h : At S Γ (.expr e) s)
    (ho : OpensOk S (n + 1) (.expr e) s) (hsim : Simulates S μ s l)
    (hn : SameNames μ (Part.expr e).mayUse s.store Γ s.scope ρ) :
    Matches S μ (Same (inStore s.store) μ) (Lox.evaluate S.context (n + 1) e s)
      (evaluate S.context.maxDepth (n + 1) ρ e l) := by
  cases e with
  | literal id value => exact ofExcept_matches hsim value.evaluate
  | var ref => exact var_matches hc h hsim hn
  | assign id target equals value => exact assign_expr_matches hc ih h ho hsim hn
  | binary id left operator right =>
    have hn : SameNames μ anyName s.store Γ s.scope ρ := hn
    refine ih.bind_expr (h.subexpr (.refl h.store) 0 rfl) (ho.call .binaryLeft) hsim
      (hn.weaken fun _ _ => trivial) fun v s₁ μ₁ l₁ hv hl₁ _ hg₁ hsim₁ => ?_
    refine ih.bind_expr (h.subexpr hl₁ 1 rfl) (ho.call (.binaryRight hv)) hsim₁
      ((hn.later hl₁ hg₁).weaken fun _ _ => trivial) fun w s₂ μ₂ l₂ _ _ _ _ hsim₂ => ?_
    exact ofExcept_matches hsim₂ (operator.applyBinary v w)
  | logical id left operator right =>
    have hn : SameNames μ anyName s.store Γ s.scope ρ := hn
    refine ih.bind_expr (h.subexpr (.refl h.store) 0 rfl) (ho.call .logicalLeft) hsim
      (hn.weaken fun _ _ => trivial) fun v s₁ μ₁ l₁ hv hl₁ _ hg₁ hsim₁ => ?_
    cases hd : operator.decidesLogical v with
    | true =>
      rw [if_pos rfl, if_pos rfl]
      exact .same hsim₁
    | false =>
      rw [if_neg (by simp), if_neg (by simp)]
      exact ih.expr (h.subexpr hl₁ 1 rfl) (ho.call (.logicalRight hv hd)) hsim₁
        ((hn.later hl₁ hg₁).weaken fun _ _ => trivial)
  | unary id operator operand =>
    have hn : SameNames μ anyName s.store Γ s.scope ρ := hn
    refine ih.bind_expr (h.subexpr (.refl h.store) 0 rfl) (ho.call .operand) hsim
      (hn.weaken fun _ _ => trivial) fun v s₁ μ₁ l₁ _ _ _ _ hsim₁ => ?_
    exact ofExcept_matches hsim₁ (operator.applyUnary v)
  | grouping id inner =>
    have hn : SameNames μ anyName s.store Γ s.scope ρ := hn
    exact ih.expr (h.subexpr (.refl h.store) 0 rfl) (ho.call .inner) hsim
      (hn.weaken fun _ _ => trivial)
  | call id callee paren arguments => exact call_expr_matches hc ih h ho hsim hn
  | get id object name =>
    have hn : SameNames μ anyName s.store Γ s.scope ρ := hn
    refine ih.bind_expr (h.subexpr (.refl h.store) 0 rfl) (ho.call .getObject) hsim
      (hn.weaken fun _ _ => trivial) fun v s₁ μ₁ l₁ hv hl₁ _ _ hsim₁ => ?_
    cases v with
    | inst i => exact getProperty_matches hsim₁ hl₁.store fun f hf => ho.here (.get hv hf rfl)
    | _ => exact .raised hsim₁ _
  | set id object name value =>
    have hn : SameNames μ anyName s.store Γ s.scope ρ := hn
    refine ih.bind_expr (h.subexpr (.refl h.store) 0 rfl) (ho.call .setObject) hsim
      (hn.weaken fun _ _ => trivial) fun v s₁ μ₁ l₁ hv hl₁ _ hg₁ hsim₁ => ?_
    cases v with
    | inst i =>
      refine ih.bind_expr (h.subexpr hl₁ 1 rfl) (ho.call (.setValue hv)) hsim₁
        ((hn.later hl₁ hg₁).weaken fun _ _ => trivial) fun w s₂ μ₂ l₂ _ _ _ _ hsim₂ => ?_
      exact .same (hsim₂.setField i name.lexeme w)
    | _ => exact .raised hsim₁ _
  | this id keyword => exact this_matches hc h hsim hn
  | super id keyword method => exact super_matches hc h ho hsim hn

end Expressions

/-! ### Statements -/

section Statements

variable {id : NodeId}

/-- A statement that declares nothing leaves the map as it is. -/
theorem Matches.unchanged (hsim : Simulates S μ s l) (hn : SameScope μ s.store Γ s.scope ρ) :
    Matches S μ (Left Γ s μ) (.ok .normal s) (.ok (.normal, ρ) l) :=
  .ok hsim ⟨rfl, .refl _ μ, fun _ => hn⟩

theorem block_matches (ih : Follows S n) {body : List Stmt}
    (h : At S Γ (.stmt (.block id body)) s) (ho : OpensOk S (n + 1) (.stmt (.block id body)) s)
    (hsim : Simulates S μ s l) (hn : SameScope μ s.store Γ s.scope ρ) :
    Matches S μ (Left Γ s μ) (Lox.execute S.context (n + 1) (.block id body) s)
      (execute S.context.maxDepth (n + 1) ρ (.block id body) l) := by
  obtain ⟨hm₁, hs₁⟩ := block_at h ho rfl
  obtain ⟨μ₁, hg₁, hsame₁, hsim₁, hn₁⟩ := hsim.enter (f := { opener := .block id })
    { enclosing := some s.scope } h.store.globals_lt (.enter ρ l.cells) hn.names rfl
    fun x => by simp [Frame.has]
  have hrun := inOrder_matches ih (s := { s with
      store := (s.store.newScope { enclosing := some s.scope }).2
      scope := (s.store.newScope { enclosing := some s.scope }).1 }) body hs₁ hm₁
    (fun i st hi => S.known_child h.known (i := i) (getElem?_map_some hi))
    (fun i st s' hi hb => ho.call (.block rfl hb hi)) (hsim₁.inScope _) hn₁
  have hrun := Matches.inScope (s := { s with
      store := (s.store.newScope { enclosing := some s.scope }).2 }) hrun
  refine .later hg₁ (hrun.map_right fun μ₂ c c' s₂ l₂ hc hg₂ hq => ?_)
  obtain ⟨rfl, hsame₂⟩ := hq
  have hl₂ := ((execute_safe (sound n) h ho).of_ok hc).1
  have hsame : μ.SameOn (inStore s.store) μ₂ :=
    hsame₁.trans hsame₂ fun _ he => inStoreBut_of_newScope he
  exact ⟨rfl, hsame.mono fun _ he => he.1, fun _ =>
    hn.mono hl₂.grows (hg₁.trans hg₂) hsame h.inStore⟩

theorem branch_matches (hc : S.strict) (ih : Follows S n) {condition : Expr} {thenBranch : Stmt}
    {elseBranch : Option Stmt} (h : At S Γ (.stmt (.branch id condition thenBranch elseBranch)) s)
    (ho : OpensOk S (n + 1) (.stmt (.branch id condition thenBranch elseBranch)) s)
    (hsim : Simulates S μ s l) (hn : SameScope μ s.store Γ s.scope ρ) :
    Matches S μ (Left (Γ.after (.branch id condition thenBranch elseBranch)) s μ)
      (Lox.execute S.context (n + 1) (.branch id condition thenBranch elseBranch) s)
      (execute S.context.maxDepth (n + 1) ρ (.branch id condition thenBranch elseBranch) l) := by
  have hwf := S.wellScoped hc h.known
  have hthen : Γ.after thenBranch = Γ :=
    S.after_eq hc _ (S.known_child h.known (i := 1) rfl) hwf.1
  rw [S.after_eq hc _ h.known rfl]
  refine ih.bind_stmt (h.child (i := 0) rfl h.store h.mirrors) (ho.call .branchCondition) hsim
    (hn.names.weaken fun _ _ => trivial) fun v s₁ μ₁ l₁ hv hl₁ _ hg₁ hsame₁ hsim₁ => ?_
  have hm₁ := hl₁.mirrors h.mirrors
  have hn₁ := hn.after hl₁ hg₁ hsame₁ h.inStore
  -- a branch that is run ends with the map that was there before it
  have hbranch : ∀ b : Stmt, At S Γ (.stmt b) s₁ → OpensOk S n (.stmt b) s₁ → Γ.after b = Γ →
      Matches S μ₁ (Left Γ s₁ μ₁) (Lox.execute S.context n b s₁)
        ((execute S.context.maxDepth n ρ b >>= fun r => pure (r.1, ρ)) l₁) := by
    intro b hat hob hb
    refine (ih.stmt hat hob hsim₁ hn₁).map_right fun μ₂ c r s₂ l₂ hc₂ hg₂ hq => ?_
    have hl₂ := ((sound n).stmt hat hob).of_ok hc₂
    refine ⟨hq.1, hq.2.1, fun hnormal => ⟨hn₁.names.mono hl₂.1.grows hg₂, ?_⟩⟩
    have hhere := (hq.2.2 hnormal).here
    rwa [hb] at hhere
  cases ht : v.truthy with
  | true =>
    rw [if_pos rfl, if_pos rfl]
    exact hbranch thenBranch (h.child (i := 1) rfl hl₁.store hm₁) (ho.call (.thenBranch hv ht)) hthen
  | false =>
    rw [if_neg (by simp), if_neg (by simp)]
    cases elseBranch with
    | none => exact .unchanged hsim₁ hn₁
    | some elseBranch =>
      have hknown := S.known_child h.known (i := 2) rfl
      have hat : At S Γ (.stmt elseBranch) s₁ := by
        refine ⟨?_, hm₁, hl₁.store⟩
        rw [← hthen]
        exact hknown
      exact hbranch elseBranch hat (ho.call (.elseBranch hv ht))
        (S.after_eq hc _ hat.known (hwf.2 elseBranch rfl))

theorem loop_matches (hc : S.strict) (ih : Follows S n) {condition : Expr} {body : Stmt}
    (h : At S Γ (.stmt (.loop id condition body)) s)
    (ho : OpensOk S (n + 1) (.stmt (.loop id condition body)) s)
    (hsim : Simulates S μ s l) (hn : SameScope μ s.store Γ s.scope ρ) :
    Matches S μ (Left (Γ.after (.loop id condition body)) s μ)
      (Lox.execute S.context (n + 1) (.loop id condition body) s)
      (execute S.context.maxDepth (n + 1) ρ (.loop id condition body) l) := by
  have hbody : Γ.after body = Γ :=
    S.after_eq hc _ (S.known_child h.known (i := 1) rfl) (S.wellScoped hc h.known)
  have hafter : Γ.after (.loop id condition body) = Γ := hbody
  refine ih.bind_stmt (h.child (i := 0) rfl h.store h.mirrors) (ho.call .loopCondition) hsim
    (hn.names.weaken fun _ _ => trivial) fun v s₁ μ₁ l₁ hv hl₁ _ hg₁ hsame₁ hsim₁ => ?_
  have hm₁ := hl₁.mirrors h.mirrors
  have hn₁ := hn.after hl₁ hg₁ hsame₁ h.inStore
  cases ht : v.truthy with
  | false =>
    rw [if_neg (by simp), if_neg (by simp), hafter]
    exact .unchanged hsim₁ hn₁
  | true =>
    rw [if_pos rfl, if_pos rfl]
    have hat : At S Γ (.stmt body) s₁ := h.child (i := 1) rfl hl₁.store hm₁
    have hob := ho.call (.loopBody hv ht)
    refine (ih.stmt hat hob hsim₁ hn₁).bind fun μ₂ c r s₂ l₂ hc₂ hg₂ hsim₂ hq => ?_
    obtain ⟨c', ρ₂⟩ := r
    obtain ⟨rfl, hsame₂, hn₂⟩ := hq
    obtain ⟨hl₂, hok⟩ := ((sound n).stmt hat hob).of_ok hc₂
    cases c' with
    | returned w => exact .ok hsim₂ ⟨rfl, hsame₂, fun hnormal => by cases hnormal⟩
    | normal =>
      have hm₂ := hok.mirrors rfl
      have hhere := (hn₂ rfl).here
      rw [hbody, ← hl₂.scope] at hm₂ hhere
      have hn₂ : SameScope μ₂ s₂.store Γ s₂.scope ρ := ⟨hn₁.names.later hl₂ hg₂, hhere⟩
      exact (ih.stmt ⟨h.known, hm₂, hl₂.store⟩ (ho.call (.loopAgain hv ht hc₂)) hsim₂ hn₂).mono
        fun _ _ _ _ _ hq => hq.since hl₂ hsame₂

theorem varDecl_matches (hc : S.strict) (ih : Follows S n) {name : Token} {initializer : Option Expr}
    (h : At S Γ (.stmt (.varDecl id name initializer)) s)
    (ho : OpensOk S (n + 1) (.stmt (.varDecl id name initializer)) s)
    (hsim : Simulates S μ s l) (hn : SameScope μ s.store Γ s.scope ρ) :
    Matches S μ (Left (Γ.declareReady name.lexeme) s μ)
      (Lox.execute S.context (n + 1) (.varDecl id name initializer) s)
      (execute S.context.maxDepth (n + 1) ρ (.varDecl id name initializer) l) := by
  have hm : Mirrors S anyName s.store Γ s.scope := h.mirrors
  have hname : S.named → name.lexeme ≠ "super" := fun hn => (h.wellNamed hn).2
  obtain ⟨μ₁, ρ₁, l₁, hl₁, hg₁, hsame₁, hsim₁, hn₁⟩ := hsim.declareName h.store hm hn (h.fresh hc rfl)
  -- the value is bound where the name got its location before the initializer
  have hdefine : ∀ {s₂ : RunState} {μ₂ : Links} {l₂ : State} (v : Value), Later S s s₂ →
      Simulates S μ₂ s₂ l₂ → SameScope μ₂ s₂.store (Γ.mark name.lexeme false) s₂.scope ρ₁ →
      Matches S μ₂ (Left (Γ.declareReady name.lexeme) s₂ μ₂)
        ((Run.define name.lexeme v >>= fun _ => pure .normal) s₂)
        ((Eval.define ρ₁ name.lexeme v >>= fun _ => pure (.normal, ρ₁)) l₂) := by
    intro s₂ μ₂ l₂ v hl₂ hsim₂ hn₂
    have hroot : Γ = [] → s₂.scope = S.context.globals := fun hΓ => by
      subst hΓ
      exact hl₂.scope.trans hm
    obtain ⟨l₃, hl₃, hsim₃⟩ := hsim₂.defineName hn₂ hroot hname v
    rw [Run.define_bind, Action.bind_of_ok hl₃]
    exact .ok hsim₃ ⟨rfl, .refl _ μ₂, fun _ => hn₂.ready.later (.define _ _ _ hname)⟩
  cases initializer with
  | none =>
    refine .later hg₁ ?_
    show Matches S μ₁ _ _ ((Eval.declare ρ name.lexeme >>= _) l)
    rw [Action.bind_of_ok hl₁]
    exact (hdefine .nil (.refl h.store) hsim₁ hn₁).mono fun _ _ _ _ _ hq =>
      hq.since (.refl h.store) hsame₁
  | some e =>
    refine .later hg₁ ?_
    show Matches S μ₁ _ _ ((Eval.declare ρ name.lexeme >>= _) l)
    rw [Action.bind_of_ok hl₁]
    have hat := h.child (i := 0) rfl h.store (hm.mark_false name.lexeme)
    refine (ih.bind_stmt hat (ho.call .initializer) hsim₁ (hn₁.names.weaken fun _ _ => trivial)
      fun v s₂ μ₂ l₂ _ hl₂ _ hg₂ hsame₂ hsim₂ =>
        hdefine v hl₂ hsim₂ (hn₁.after hl₂ hg₂ hsame₂ h.inStore)).mono fun _ _ _ _ _ hq =>
          hq.since (.refl h.store) hsame₁

theorem function_matches (hc : S.strict) {f : FunctionDecl} (h : At S Γ (.stmt (.function f)) s)
    (hsim : Simulates S μ s l) (hn : SameScope μ s.store Γ s.scope ρ) :
    Matches S μ (Left (Γ.declareReady f.name.lexeme) s μ)
      (Lox.execute S.context (n + 1) (.function f) s)
      (execute S.context.maxDepth (n + 1) ρ (.function f) l) := by
  have hm : Mirrors S anyName s.store Γ s.scope := h.mirrors
  have hname : S.named → f.name.lexeme ≠ "super" := fun hn => (h.wellNamed hn).1.2
  have hroot : Γ = [] → s.scope = S.context.globals := fun hΓ => by
    subst hΓ
    exact hm
  obtain ⟨μ₁, ρ₁, l₁, hl₁, hg₁, hsame₁, hsim₁, hn₁⟩ := hsim.declareName h.store hm hn (h.fresh hc rfl)
  obtain ⟨l₂, hl₂, hsim₂⟩ := hsim₁.closeOver false (.inl (S.declared_function h.known))
    (hm.declareReady_unused fun _ h => h.elim) hn₁.ready.names
  have hx : s.store.Extends S.named (s.store.newFunction ⟨f, s.scope, false⟩).2 := .newFunction _ _
  obtain ⟨l₃, hl₃, hsim₃⟩ := hsim₂.defineName (hn₁.later hx) hroot hname
    (.function (s.store.newFunction ⟨f, s.scope, false⟩).1)
  refine .later hg₁ ?_
  show Matches S μ₁ _ ((Run.currentScope >>= _) s) ((Eval.declare ρ f.name.lexeme >>= _) l)
  rw [Run.currentScope_bind, Action.bind_of_ok hl₁, Action.bind_of_ok hl₂, Action.bind_of_ok hl₃]
  exact .ok hsim₃ ⟨rfl, hsame₁, fun _ => hn₁.ready.later (hx.trans (.define _ _ _ hname))⟩

theorem class_matches (hc : S.strict) (ih : Follows S n) {name : Token} {ref? : Option VarRef}
    {methods : List FunctionDecl} (h : At S Γ (.stmt (.classDecl id name ref? methods)) s)
    (ho : OpensOk S (n + 1) (.stmt (.classDecl id name ref? methods)) s)
    (hsim : Simulates S μ s l) (hn : SameScope μ s.store Γ s.scope ρ) :
    Matches S μ (Left (Γ.declareReady name.lexeme) s μ)
      (Lox.execute S.context (n + 1) (.classDecl id name ref? methods) s)
      (execute S.context.maxDepth (n + 1) ρ (.classDecl id name ref? methods) l) := by
  have hm : Mirrors S anyName s.store Γ s.scope := h.mirrors
  have hname : S.named → name.lexeme ≠ "super" := fun hn => (h.wellNamed hn).2
  have hfresh := h.fresh hc rfl
  have hglobal := h.global hm rfl
  cases ref? with
  | none =>
    obtain ⟨μ₁, ρ₁, s₁, l₁, hs₁, hl₁, hg₁, hsame₁, hsim₁, hn₁, -⟩ := hsim.declareClass id
      none none methods h.store hm hn hfresh rfl
      (fun f hf => by
        obtain ⟨i, hi⟩ := List.getElem?_of_mem hf
        exact S.declared_method (S.known_child h.known (i := i) (getElem?_map_some hi)))
      hglobal hname fun c hc => by cases hc
    refine .later hg₁ ?_
    show Matches S μ₁ _ ((Run.declareClass name none methods >>= _) s)
      ((Eval.declareClass ρ name none methods >>= _) l)
    rw [Action.bind_of_ok hs₁, Action.bind_of_ok hl₁]
    exact .ok hsim₁ ⟨rfl, hsame₁, fun _ => hn₁⟩
  | some ref =>
    have hat := superclass_at h
    have hne : ref.name.lexeme ≠ name.lexeme := by
      intro he
      have hv := (S.fit (S.clean_of_strict hc) h.known).violations
      simp [Place.violations, Part.violations, he] at hv
    have hnames : SameNames μ (Part.expr (.var ref)).mayUse s.store (Γ.declareReady name.lexeme)
        s.scope ρ := by
      refine hn.names.congr ?_ fun x hx => ⟨trivial, ?_⟩
      · cases Γ <;> simp [Nesting.declareReady, Nesting.mark]
      · obtain rfl : x = ref.name.lexeme := hx
        cases Γ with
        | nil => rfl
        | cons f Γ => rw [Nesting.distance?_declareReady, if_neg hne]
    refine ih.bind_stmt hat (ho.call .superclass) hsim hnames
      fun v s₁ μ₁ l₁ hv hl₁ _ hg₁ hsame₁ hsim₁ => ?_
    have hn₁ := hn.after hl₁ hg₁ hsame₁ h.inStore
    cases v with
    | cls c =>
      obtain ⟨μ₂, ρ₂, s₂, l₂, hs₂, hl₂, hg₂, hsame₂, hsim₂, hn₂, -⟩ := hsim₁.declareClass id
        (some ref) (some c) methods hl₁.store (hl₁.mirrors hm) hn₁
        hfresh rfl
        (fun f hf => by
          obtain ⟨i, hi⟩ := List.getElem?_of_mem hf
          exact S.declared_method (S.known_child h.known (i := i + 1) (getElem?_map_some hi)))
        (fun hg => hglobal (hl₁.scope ▸ hg)) hname
        fun c' hc' => by
          cases hc'
          exact ho.here (.subclass hv rfl rfl)
      refine .later hg₂ ?_
      show Matches S μ₂ _ ((Run.declareClass name (some c) methods >>= _) s₁)
        ((Eval.declareClass ρ name (some c) methods >>= _) l₁)
      rw [Action.bind_of_ok hs₂, Action.bind_of_ok hl₂]
      exact .ok hsim₂ ⟨rfl, hsame₂, fun _ => hn₂⟩
    | _ => exact .raised hsim₁ _

/-- One step of the induction, for statements. -/
theorem execute_matches (hc : S.strict) (ih : Follows S n) {st : Stmt} (h : At S Γ (.stmt st) s)
    (ho : OpensOk S (n + 1) (.stmt st) s) (hsim : Simulates S μ s l)
    (hn : SameScope μ s.store Γ s.scope ρ) :
    Matches S μ (Left (Γ.after st) s μ) (Lox.execute S.context (n + 1) st s)
      (execute S.context.maxDepth (n + 1) ρ st l) := by
  have hm : Mirrors S anyName s.store Γ s.scope := h.mirrors
  cases st with
  | block id body => exact block_matches ih h ho hsim hn
  | expression id e =>
    refine ih.bind_stmt (h.child (i := 0) rfl h.store hm) (ho.call .expression) hsim
      (hn.names.weaken fun _ _ => trivial) fun v s₁ μ₁ l₁ _ hl₁ _ hg₁ hsame₁ hsim₁ => ?_
    exact .unchanged hsim₁ (hn.after hl₁ hg₁ hsame₁ h.inStore)
  | print id e =>
    refine ih.bind_stmt (h.child (i := 0) rfl h.store hm) (ho.call .print) hsim
      (hn.names.weaken fun _ _ => trivial) fun v s₁ μ₁ l₁ _ hl₁ hv hg₁ hsame₁ hsim₁ => ?_
    have hn₁ := hn.after hl₁ hg₁ hsame₁ h.inStore
    have hline := hsim₁.objects.display hv.scope
    have hsim₂ : Simulates S μ₁ { s₁ with printed := s₁.printed.push (s₁.store.display v) }
        { l₁ with printed := l₁.printed.push (l₁.objects.display v) } := by
      refine ⟨⟨hsim₁.objects.functions, hsim₁.objects.size, hsim₁.objects.natives,
        hsim₁.objects.classes, hsim₁.objects.instances⟩, hsim₁.vars.of_scopes rfl rfl rfl,
        hsim₁.depth, ?_⟩
      rw [hline, hsim₁.printed]
    exact .ok hsim₂ ⟨rfl, .refl _ μ₁, fun _ => hn₁⟩
  | varDecl id name initializer => exact varDecl_matches hc ih h ho hsim hn
  | branch id condition thenBranch elseBranch => exact branch_matches hc ih h ho hsim hn
  | loop id condition body => exact loop_matches hc ih h ho hsim hn
  | function f => exact function_matches hc h hsim hn
  | ret id keyword value =>
    cases value with
    | none => exact .ok hsim ⟨rfl, .refl _ μ, fun hnormal => by cases hnormal⟩
    | some e =>
      refine ih.bind_stmt (h.child (i := 0) rfl h.store hm) (ho.call .returned) hsim
        (hn.names.weaken fun _ _ => trivial) fun v s₁ μ₁ l₁ _ _ _ _ _ hsim₁ => ?_
      exact .ok hsim₁ ⟨rfl, .refl _ μ₁, fun hnormal => by cases hnormal⟩
  | classDecl id name ref? methods => exact class_matches hc ih h ho hsim hn

/-- Every run is followed, whatever the fuel. -/
theorem follows (hc : S.strict) (n : Nat) : Follows S n := by
  induction n with
  | zero => exact ⟨fun _ _ _ _ => trivial, fun _ _ _ _ => trivial⟩
  | succ n ih => exact ⟨evaluate_matches hc ih, execute_matches hc ih⟩

end Statements

end Lexical

end Lox
