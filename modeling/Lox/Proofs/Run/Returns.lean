import Lox.Proofs.Run.CallEnds
import Lox.Proofs.Scoping.Rules

/-!
# Returns

A statement completes with a `return` exactly if one is executed in its own activation, that is, with no
call being run in between, and its expression ends.  Only one `return` is executed in an activation, for it
leaves all that is around it: the statements around it complete the same way, in the state in which its
expression has left things, and none of them goes on with another statement (`Resumes`).  The call whose body
is left hands back a value and goes on.

So a statement that completes with a `return` contains one that no function or class of it is around
(`Stmt.ContainsReturn`).  The resolver reports such a `return` in a statement of a program, and without that
report no statement of a program completes with one, whatever state and table it is run with.
-/

namespace Lox

/-! ### Lists of statements -/

namespace Action

variable {σ α : Type} {f : α → Action σ Completion} {as : List α} {a : α} {s s' : σ} {v : Value}

theorem untilReturn_cons_returned_iff : untilReturn f (a :: as) s = .ok (.returned v) s' ↔
    f a s = .ok (.returned v) s' ∨
      ∃ s₁, f a s = .ok .normal s₁ ∧ untilReturn f as s₁ = .ok (.returned v) s' := by
  rw [untilReturn, bind_apply]
  cases f a s with
  | ok c s₁ =>
    cases c with
    | normal => simp
    | returned w =>
      show Outcome.ok (Completion.returned w) s₁ = _ ↔ _
      simp
  | raised fault s₁ => simp
  | outOfFuel => simp

theorem untilReturn_cons_normal_iff : untilReturn f (a :: as) s = .ok .normal s' ↔
    ∃ s₁, f a s = .ok .normal s₁ ∧ untilReturn f as s₁ = .ok .normal s' := by
  rw [untilReturn, bind_apply]
  cases f a s with
  | ok c s₁ =>
    cases c with
    | normal => simp
    | returned w =>
      show Outcome.ok (Completion.returned w) s₁ = _ ↔ _
      simp
  | raised fault s₁ => simp
  | outOfFuel => simp

/-- Statements return if one of them does, after those before it have completed normally. -/
theorem untilReturn_returned_iff : untilReturn f as s = .ok (.returned v) s' ↔
    ∃ i a s₁, as[i]? = some a ∧ untilReturn f (as.take i) s = .ok .normal s₁ ∧
      f a s₁ = .ok (.returned v) s' := by
  induction as generalizing s with
  | nil =>
    constructor
    · rintro ⟨⟩
    · rintro ⟨i, a, s₁, hi, -⟩
      cases hi
  | cons b as ih =>
    rw [untilReturn_cons_returned_iff]
    constructor
    · rintro (hb | ⟨s₁, hb, has⟩)
      · exact ⟨0, b, s, rfl, rfl, hb⟩
      · obtain ⟨i, a, s₂, hi, hbefore, ha⟩ := ih.1 has
        exact ⟨i + 1, a, s₂, hi, untilReturn_cons_normal_iff.2 ⟨s₁, hb, hbefore⟩, ha⟩
    · rintro ⟨i, a, s₁, hi, hbefore, ha⟩
      cases i with
      | zero =>
        cases hi
        cases hbefore
        exact .inl ha
      | succ i =>
        obtain ⟨s₂, hb, hbefore⟩ := untilReturn_cons_normal_iff.1 hbefore
        exact .inr ⟨s₂, hb, ih.2 ⟨i, a, s₁, hi, hbefore, ha⟩⟩

/-- Each of the statements that have completed normally has done so after those before it. -/
theorem untilReturn_take_normal {i j : Nat} (hi : as[i]? = some a) (hij : i < j)
    (hj : untilReturn f (as.take j) s = .ok .normal s') :
    ∃ s₁ s₂, untilReturn f (as.take i) s = .ok .normal s₁ ∧ f a s₁ = .ok .normal s₂ := by
  induction as generalizing s i j with
  | nil => cases hi
  | cons b as ih =>
    obtain ⟨j, rfl⟩ := Nat.exists_eq_add_of_le' (Nat.zero_lt_of_lt hij)
    obtain ⟨s₁, hb, hrest⟩ := untilReturn_cons_normal_iff.1 hj
    cases i with
    | zero =>
      cases hi
      exact ⟨s, s₁, rfl, hb⟩
    | succ i =>
      obtain ⟨s₂, s₃, hbefore, ha⟩ := ih hi (Nat.lt_of_succ_lt_succ hij) hrest
      exact ⟨s₂, s₃, untilReturn_cons_normal_iff.2 ⟨s₁, hb, hbefore⟩, ha⟩

end Action

/-! ### One activation -/

/-- How a `return` ends: with the value of its expression, or with nil if it has none. -/
inductive Returned (ctx : Context) (n : Nat) : Option Expr → RunState → Value → RunState → Prop
  | nothing {s} : Returned ctx n none s .nil s
  | value {e s v s'} (h : evaluate ctx n e s = .ok v s') : Returned ctx n (some e) s v s'

/-- While a statement is run, another is run in the same activation: the way from one to the other leads
through statements alone. -/
inductive Within (ctx : Context) : Nat → Stmt → RunState → Nat → Stmt → RunState → Prop
  | here {n st s} : Within ctx n st s n st s
  | step {n st s x s' m y s''} (h : Calls ctx n (.stmt st) s (.stmt x) s')
      (hw : Within ctx n x s' m y s'') : Within ctx (n + 1) st s m y s''

/-- While a part is run, one statement is run and another after it: a later one of a block or of the body of
a function, or a loop again after its body. -/
inductive Resumes (ctx : Context) (n : Nat) : Part → RunState → Stmt → RunState → Stmt → RunState → Prop
  | block {id body s scope s₁ s₂ s₃} {i j : Nat} {x y : Stmt}
      (hscope : Run.alloc (·.newScope { enclosing := some s.scope }) s = .ok scope s₁)
      (hx : Action.untilReturn (execute ctx n) (body.take i) { s₁ with scope := scope } =
        .ok .normal s₂) (hi : body[i]? = some x)
      (hy : Action.untilReturn (execute ctx n) (body.take j) { s₁ with scope := scope } =
        .ok .normal s₃) (hj : body[j]? = some y) (hij : i < j) :
      Resumes ctx n (.stmt (.block id body)) s x s₂ y s₃
  | body {id callee paren arguments s c vs s₁ f s₂ s₃ s₄} {i j : Nat} {x y : Stmt}
      (ha : Applies ctx n callee arguments s c vs s₁) (hs : Starts vs c s₁ f s₂)
      (hx : Action.untilReturn (execute ctx n) (f.declaration.body.take i) s₂ = .ok .normal s₃)
      (hi : f.declaration.body[i]? = some x)
      (hy : Action.untilReturn (execute ctx n) (f.declaration.body.take j) s₂ = .ok .normal s₄)
      (hj : f.declaration.body[j]? = some y) (hij : i < j) :
      Resumes ctx n (.expr (.call id callee paren arguments)) s x s₃ y s₄
  | loop {id condition body s v s₁ s₂} (h : evaluate ctx n condition s = .ok v s₁)
      (hv : v.truthy = true) (hb : execute ctx n body s₁ = .ok .normal s₂) :
      Resumes ctx n (.stmt (.loop id condition body)) s body s₁ (.loop id condition body) s₂

/-- A `return` in a statement that no function or class of the statement is around. -/
def Stmt.ContainsReturn (st : Stmt) : Prop :=
  ∃ a id keyword value, (Part.stmt st).at? a = some (.stmt (.ret id keyword value)) ∧
    ∀ b t, (b, t) ∈ (Part.stmt st).around [] a → t.isFunction = false ∧ t.superclass? = none

variable {ctx : Context} {n m k : Nat} {t : Part} {st x y : Stmt} {s s' s'' sx sy s₁ s₂ : RunState}
  {v : Value} {completion : Completion}

theorem returned_some_iff {e : Expr} :
    Returned ctx n (some e) s v s' ↔ evaluate ctx n e s = .ok v s' := by
  constructor
  · rintro ⟨⟩
    assumption
  · exact .value

/-- A `return` does not complete in any other way. -/
theorem execute_ret_iff {id : NodeId} {keyword : Token} {value : Option Expr} :
    execute ctx (n + 1) (.ret id keyword value) s = .ok completion s' ↔
      ∃ v, completion = .returned v ∧ Returned ctx n value s v s' := by
  cases value with
  | none =>
    constructor
    · rintro ⟨⟩
      exact ⟨_, rfl, .nothing⟩
    · rintro ⟨v, rfl, ⟨⟩⟩
      rfl
  | some e =>
    simp only [returned_some_iff]
    show (evaluate ctx n e >>= fun v => pure (Completion.returned v)) s = _ ↔ _
    rw [Action.bind_apply]
    cases evaluate ctx n e s with
    | ok w s₁ =>
      show Outcome.ok (Completion.returned w) s₁ = _ ↔ _
      grind
    | raised fault s₁ => simp
    | outOfFuel => simp

/-! ### The order of statements -/

theorem Resumes.calls_first (h : Resumes ctx n t s x sx y sy) : Calls ctx n t s (.stmt x) sx := by
  cases h with
  | block hscope hx hi => exact .block hscope hx hi
  | body ha hs hx hi => exact .body ha hs hx hi
  | loop h hv => exact .loopBody h hv

theorem Resumes.calls_second (h : Resumes ctx n t s x sx y sy) : Calls ctx n t s (.stmt y) sy := by
  cases h with
  | block hscope _ _ hy hj => exact .block hscope hy hj
  | body ha hs _ _ hy hj => exact .body ha hs hy hj
  | loop h hv hb => exact .loopAgain h hv hb

/-- A statement is run after another only if that one has completed normally. -/
theorem Resumes.normal (h : Resumes ctx n t s x sx y sy) :
    ∃ s', execute ctx n x sx = .ok .normal s' := by
  cases h with
  | block _ hx hi hy _ hij =>
    obtain ⟨s₁, s₂, hbefore, hnormal⟩ := Action.untilReturn_take_normal hi hij hy
    cases hx.symm.trans hbefore
    exact ⟨s₂, hnormal⟩
  | body _ _ hx hi hy _ hij =>
    obtain ⟨s₁, s₂, hbefore, hnormal⟩ := Action.untilReturn_take_normal hi hij hy
    cases hx.symm.trans hbefore
    exact ⟨s₂, hnormal⟩
  | loop _ _ hb => exact ⟨_, hb⟩

/-- The statements that a part calls are run one after the other. -/
theorem Calls.order (hx : Calls ctx n t s (.stmt x) sx) (hy : Calls ctx n t s (.stmt y) sy) :
    (x = y ∧ sx = sy) ∨ Resumes ctx n t s x sx y sy ∨ Resumes ctx n t s y sy x sx := by
  cases hx with
  | @block id body _ scope s₁ _ i _ hscope hb hi =>
    cases hy with
    | @block _ _ _ scope' s₁' _ j _ hscope' hb' hj =>
      cases hscope.symm.trans hscope'
      rcases Nat.lt_trichotomy i j with hij | rfl | hji
      · exact .inr (.inl (.block hscope hb hi hb' hj hij))
      · cases hb.symm.trans hb'
        cases hi.symm.trans hj
        exact .inl ⟨rfl, rfl⟩
      · exact .inr (.inr (.block hscope hb' hj hb hi hji))
  | @body id callee paren arguments _ c vs s₁ f s₂ _ i _ ha hs hb hi =>
    cases hy with
    | @body _ _ _ _ _ c' vs' s₁' f' s₂' _ j _ ha' hs' hb' hj =>
      obtain ⟨rfl, rfl, rfl⟩ := ha.unique ha'
      obtain ⟨rfl, rfl⟩ := hs.unique hs'
      rcases Nat.lt_trichotomy i j with hij | rfl | hji
      · exact .inr (.inl (.body ha hs hb hi hb' hj hij))
      · cases hb.symm.trans hb'
        cases hi.symm.trans hj
        exact .inl ⟨rfl, rfl⟩
      · exact .inr (.inr (.body ha hs hb' hj hb hi hji))
  | thenBranch h hv =>
    cases hy with
    | thenBranch h' hv' =>
      cases h.symm.trans h'
      exact .inl ⟨rfl, rfl⟩
    | elseBranch h' hv' =>
      cases h.symm.trans h'
      cases hv.symm.trans hv'
  | elseBranch h hv =>
    cases hy with
    | thenBranch h' hv' =>
      cases h.symm.trans h'
      cases hv.symm.trans hv'
    | elseBranch h' hv' =>
      cases h.symm.trans h'
      exact .inl ⟨rfl, rfl⟩
  | loopBody h hv =>
    cases hy with
    | loopBody h' hv' =>
      cases h.symm.trans h'
      exact .inl ⟨rfl, rfl⟩
    | loopAgain h' hv' hb =>
      cases h.symm.trans h'
      exact .inr (.inl (.loop h hv hb))
  | loopAgain h hv hb =>
    cases hy with
    | loopBody h' hv' =>
      cases h.symm.trans h'
      exact .inr (.inr (.loop h hv hb))
    | loopAgain h' hv' hb' =>
      cases h.symm.trans h'
      cases hb.symm.trans hb'
      exact .inl ⟨rfl, rfl⟩

/-! ### How a `return` leaves its activation -/

/-- A statement that completes with a `return` makes the one around it complete so. -/
theorem Calls.unwinds (hc : Calls ctx n (.stmt st) s (.stmt x) sx)
    (hx : execute ctx n x sx = .ok (.returned v) s') :
    execute ctx (n + 1) st s = .ok (.returned v) { s' with scope := s.scope } := by
  have hbalanced : s'.scope = sx.scope := (execute_balanced ctx n x sx).scope_eq hx
  cases hc with
  | @block id body _ scope s₁ _ i _ hscope hb hi =>
    have hbody := Action.untilReturn_returned_iff.2 ⟨i, x, sx, hi, hb, hx⟩
    have hsame : s₁.scope = s.scope := by
      cases hscope
      rfl
    rw [execute, Run.currentScope_bind, Action.bind_apply, hscope]
    dsimp only
    rw [Run.inScope, hbody, ← hsame]
  | @thenBranch id condition _ elseBranch _ w _ h hv =>
    show (evaluate ctx n condition >>= _) s = _
    rw [Action.bind_apply, h]
    dsimp only
    rw [if_pos hv, hx, ← (evaluate_balanced ..).scope_eq h, ← hbalanced]
  | @elseBranch id condition thenBranch _ _ w _ h hv =>
    show (evaluate ctx n condition >>= _) s = _
    rw [Action.bind_apply, h]
    dsimp only
    rw [if_neg (by simp [hv]), hx, ← (evaluate_balanced ..).scope_eq h, ← hbalanced]
  | @loopBody id condition _ _ w _ h hv =>
    show (evaluate ctx n condition >>= _) s = _
    rw [Action.bind_apply, h]
    dsimp only
    rw [if_pos hv, Action.bind_apply, hx, ← (evaluate_balanced ..).scope_eq h, ← hbalanced]
    rfl
  | @loopAgain id condition body _ w s₁ _ h hv hb =>
    have hscope := ((execute_balanced ..).scope_eq hb).trans ((evaluate_balanced ..).scope_eq h)
    show (evaluate ctx n condition >>= _) s = _
    rw [Action.bind_apply, h]
    dsimp only
    rw [if_pos hv, Action.bind_apply, hb]
    dsimp only
    rw [hx, ← hscope, ← hbalanced]

/-- What ends by completing normally does not return. -/
theorem not_returned_of_bind_normal {α : Type} {run : Run α} :
    (run >>= fun _ => pure Completion.normal) s ≠ .ok (.returned v) s' := by
  intro h
  obtain ⟨a, s₁, -, hnormal⟩ := Action.bind_eq_ok.1 h
  cases hnormal

/-- A statement that completes with a `return` is one, or has called one that completes so. -/
theorem execute_returned_cases (h : execute ctx (n + 1) st s = .ok (.returned v) s') :
    (∃ id keyword value, st = .ret id keyword value ∧ Returned ctx n value s v s') ∨
      ∃ x sx s'', Calls ctx n (.stmt st) s (.stmt x) sx ∧
        execute ctx n x sx = .ok (.returned v) s'' := by
  cases st with
  | block id body =>
    rw [execute, Run.currentScope_bind, Run.alloc_bind] at h
    obtain ⟨s₁, hbody, -⟩ := Run.inScope_eq_ok h
    obtain ⟨i, x, sx, hi, hb, hx⟩ := Action.untilReturn_returned_iff.1 hbody
    exact .inr ⟨x, sx, s₁, .block rfl hb hi, hx⟩
  | expression id e => exact absurd h not_returned_of_bind_normal
  | print id e =>
    obtain ⟨w, s₁, -, h⟩ := Action.bind_eq_ok.1 h
    cases h
  | varDecl id name initializer =>
    cases initializer with
    | none => cases h
    | some e =>
      obtain ⟨w, s₁, -, h⟩ := Action.bind_eq_ok.1 h
      cases h
  | branch id condition thenBranch elseBranch =>
    obtain ⟨w, s₁, hcondition, h⟩ := Action.bind_eq_ok.1 h
    split at h
    · exact .inr ⟨_, _, _, .thenBranch hcondition ‹_›, h⟩
    · next hw =>
      cases elseBranch with
      | none => cases h
      | some elseBranch =>
        exact .inr ⟨_, _, _, .elseBranch hcondition (Bool.eq_false_iff.2 hw), h⟩
  | loop id condition body =>
    obtain ⟨w, s₁, hcondition, h⟩ := Action.bind_eq_ok.1 h
    split at h
    · obtain ⟨c, s₂, hb, h⟩ := Action.bind_eq_ok.1 h
      cases c with
      | normal => exact .inr ⟨_, _, _, .loopAgain hcondition ‹_› hb, h⟩
      | returned u =>
        cases h
        exact .inr ⟨_, _, _, .loopBody hcondition ‹_›, hb⟩
    · cases h
  | function f => cases h
  | ret id keyword value =>
    obtain ⟨w, hw, hvalue⟩ := execute_ret_iff.1 h
    cases hw
    exact .inl ⟨id, keyword, value, rfl, hvalue⟩
  | classDecl id name superclass methods =>
    cases superclass with
    | none => exact absurd h not_returned_of_bind_normal
    | some ref =>
      obtain ⟨w, s₁, -, h⟩ := Action.bind_eq_ok.1 h
      obtain ⟨c, s₂, -, h⟩ := Action.bind_eq_ok.1 h
      exact absurd h not_returned_of_bind_normal

/-- A statement that is run within another lets it complete as it does itself. -/
theorem Within.unwinds (hw : Within ctx n st s m x sx) (hx : execute ctx m x sx = .ok (.returned v) s') :
    execute ctx n st s = .ok (.returned v) { s' with scope := s.scope } := by
  induction hw with
  | @here n st s =>
    have hscope : s'.scope = s.scope := (execute_balanced ..).scope_eq hx
    rw [hx, ← hscope]
  | step hc _ ih =>
    have hout := hc.unwinds (ih hx)
    exact hout

/-- A statement completes with a `return` if one that is run within it ends. -/
theorem execute_returned_iff : execute ctx n st s = .ok (.returned v) s' ↔
    ∃ m id keyword value s₁ s₂, Within ctx n st s (m + 1) (.ret id keyword value) s₁ ∧
      Returned ctx m value s₁ v s₂ ∧ s' = { s₂ with scope := s.scope } := by
  constructor
  · intro h
    induction n generalizing st s s' with
    | zero => cases h
    | succ n ih =>
      rcases execute_returned_cases h with ⟨id, keyword, value, rfl, hvalue⟩ | ⟨x, sx, s₃, hc, hx⟩
      · have hscope : s'.scope = s.scope := (execute_balanced ..).scope_eq h
        exact ⟨n, id, keyword, value, s, s', .here, hvalue, by rw [← hscope]⟩
      · obtain ⟨m, id, keyword, value, s₁, s₂, hw, hvalue, rfl⟩ := ih hx
        have hout := hc.unwinds hx
        rw [h] at hout
        cases hout
        exact ⟨m, id, keyword, value, s₁, s₂, .step hc hw, hvalue, rfl⟩
  · rintro ⟨m, id, keyword, value, s₁, s₂, hw, hvalue, rfl⟩
    exact hw.unwinds (execute_ret_iff.2 ⟨v, rfl, hvalue⟩)

/-- A statement completes normally only if what it calls does. -/
theorem Calls.normal (hc : Calls ctx n (.stmt st) s (.stmt x) sx)
    (h : execute ctx (n + 1) st s = .ok .normal s') : ∃ s'', execute ctx n x sx = .ok .normal s'' := by
  cases hc with
  | @block id body _ scope s₁ _ i _ hscope hb hi =>
    cases hscope
    rw [execute, Run.currentScope_bind, Run.alloc_bind] at h
    obtain ⟨s₂, hbody, -⟩ := Run.inScope_eq_ok h
    rw [← List.take_length (l := body)] at hbody
    obtain ⟨s₃, s₄, hbefore, hx⟩ :=
      Action.untilReturn_take_normal hi (List.getElem?_eq_some_iff.1 hi).1 hbody
    cases hb.symm.trans hbefore
    exact ⟨s₄, hx⟩
  | thenBranch hw hv =>
    obtain ⟨w, s₁, hw', h⟩ := Action.bind_eq_ok.1 h
    cases hw.symm.trans hw'
    rw [if_pos hv] at h
    exact ⟨s', h⟩
  | elseBranch hw hv =>
    obtain ⟨w, s₁, hw', h⟩ := Action.bind_eq_ok.1 h
    cases hw.symm.trans hw'
    rw [if_neg (by simp [hv])] at h
    exact ⟨s', h⟩
  | loopBody hw hv =>
    obtain ⟨w, s₁, hw', h⟩ := Action.bind_eq_ok.1 h
    cases hw.symm.trans hw'
    rw [if_pos hv] at h
    obtain ⟨c, s₂, hx, h⟩ := Action.bind_eq_ok.1 h
    cases c with
    | normal => exact ⟨s₂, hx⟩
    | returned u => cases h
  | loopAgain hw hv hb =>
    obtain ⟨w, s₁, hw', h⟩ := Action.bind_eq_ok.1 h
    cases hw.symm.trans hw'
    rw [if_pos hv] at h
    obtain ⟨c, s₂, hb', h⟩ := Action.bind_eq_ok.1 h
    cases hb.symm.trans hb'
    exact ⟨s', h⟩

/-- A statement within which a `return` is executed does not complete normally. -/
theorem Within.not_normal {id : NodeId} {keyword : Token} {value : Option Expr}
    (hw : Within ctx n st s (m + 1) (.ret id keyword value) s₁) :
    execute ctx n st s ≠ .ok .normal s' := by
  intro h
  generalize hm : m + 1 = j at hw
  generalize hret : Stmt.ret id keyword value = y at hw
  induction hw generalizing s' with
  | here =>
    subst hm hret
    obtain ⟨v, hv, -⟩ := execute_ret_iff.1 h
    cases hv
  | step hc _ ih =>
    obtain ⟨s'', hx⟩ := hc.normal h
    exact ih hx hm hret

/-- A `return` leads on to no statement. -/
theorem not_within_of_ret {id : NodeId} {keyword : Token} {value : Option Expr}
    (hw : Within ctx n (.ret id keyword value) s m x sx) :
    m = n ∧ x = .ret id keyword value ∧ sx = s := by
  cases hw with
  | here => exact ⟨rfl, rfl, rfl⟩
  | step hc => cases hc

/-- Only one `return` is executed within a statement. -/
theorem Within.ret_unique {id id' : NodeId} {keyword keyword' : Token} {value value' : Option Expr}
    (hw : Within ctx n st s (m + 1) (.ret id keyword value) s₁)
    (hw' : Within ctx n st s (k + 1) (.ret id' keyword' value') s₂) :
    m = k ∧ Stmt.ret id keyword value = .ret id' keyword' value' ∧ s₁ = s₂ := by
  generalize hm : m + 1 = j at hw
  generalize hret : Stmt.ret id keyword value = y at hw ⊢
  induction hw with
  | here =>
    subst hret
    obtain ⟨hk, hx, hs⟩ := not_within_of_ret hw'
    exact ⟨by omega, hx.symm, hs.symm⟩
  | step hc hw ih =>
    subst hm hret
    cases hw' with
    | here => cases hc
    | step hc' hw' =>
      rcases hc.order hc' with ⟨rfl, rfl⟩ | hlater | hlater
      · exact ih hw' rfl rfl
      · obtain ⟨s', hnormal⟩ := hlater.normal
        exact absurd hnormal hw.not_normal
      · obtain ⟨s', hnormal⟩ := hlater.normal
        exact absurd hnormal hw'.not_normal

/-- An expression leads to statements only by a call. -/
theorem not_visitsUnder_of_expr {e : Expr} :
    ¬ VisitsUnder ctx n (.expr e) s [] m (.stmt x) s' := by
  intro hv
  generalize ht : Part.expr e = t at hv
  generalize hu : Part.stmt x = u at hv
  generalize hcalls : ([] : List Expr) = calls at hv
  induction hv generalizing e with
  | here =>
    subst ht
    cases hu
  | @step n t s w s' calls m u s'' hc hv ih =>
    subst ht
    have hnone := List.append_eq_nil_iff.1 hcalls.symm
    cases w with
    | stmt y => cases hnone.1
    | program p => cases hc
    | method f => cases hc
    | expr e' => exact ih rfl hu hnone.2.symm

/-- No call is being run between a statement and one that is run within it. -/
theorem within_iff_visitsUnder :
    Within ctx n st s m x s' ↔ VisitsUnder ctx n (.stmt st) s [] m (.stmt x) s' := by
  constructor
  · intro hw
    induction hw with
    | here => exact .here
    | step hc _ ih => exact .step hc ih
  · intro hv
    generalize ht : Part.stmt st = t at hv
    generalize hu : Part.stmt x = u at hv
    generalize hcalls : ([] : List Expr) = calls at hv
    induction hv generalizing st with
    | here =>
      subst ht
      cases hu
      exact .here
    | @step n t s w s' calls m u s'' hc hv ih =>
      subst ht hu
      have hnone : running (.stmt st) w = [] ∧ calls = [] := List.append_eq_nil_iff.1 hcalls.symm
      cases w with
      | stmt y => exact .step hc (ih rfl rfl hnone.2.symm)
      | program p => cases hc
      | method f => cases hc
      | expr e =>
        obtain rfl := hnone.2
        exact absurd hv not_visitsUnder_of_expr

/-! ### Where a `return` stands -/

/-- What stands around an address does not depend on where the part itself stands. -/
theorem Part.mem_around_iff {t u : Part} (here here' a : Address) :
    (∃ b, (b, u) ∈ t.around here a) ↔ ∃ b, (b, u) ∈ t.around here' a := by
  have hmap : ∀ (t : Part) here here', (t.around here a).map (·.2) = (t.around here' a).map (·.2) := by
    induction a with
    | nil => exact fun _ _ _ => rfl
    | cons i a ih =>
      intro t here here'
      simp only [around, List.map_append, List.map_cons, List.map_nil]
      congr 1
      cases t.children[i]? with
      | none => rfl
      | some c => exact ih c _ _
  have hmem : ∀ here, (∃ b, (b, u) ∈ t.around here a) ↔ u ∈ (t.around here a).map (·.2) := by simp
  rw [hmem, hmem, hmap]

/-- A statement that another calls is one of its parts, and this is no function and no class; or it is the
same loop. -/
theorem Calls.stmt_cases (hc : Calls ctx n (.stmt st) s (.stmt x) s') : x = st ∨
    ∃ i : Nat, (Part.stmt st).children[i]? = some (.stmt x) ∧ (Part.stmt st).isFunction = false ∧
      (Part.stmt st).superclass? = none := by
  cases hc with
  | block _ _ hi => exact .inr ⟨_, getElem?_map_some hi, rfl, rfl⟩
  | thenBranch => exact .inr ⟨1, rfl, rfl, rfl⟩
  | elseBranch => exact .inr ⟨2, rfl, rfl, rfl⟩
  | loopBody => exact .inr ⟨1, rfl, rfl, rfl⟩
  | loopAgain => exact .inl rfl

theorem Stmt.ContainsReturn.of_child {i : Nat} (hi : (Part.stmt st).children[i]? = some (.stmt x))
    (hf : (Part.stmt st).isFunction = false) (hclass : (Part.stmt st).superclass? = none)
    (h : x.ContainsReturn) : st.ContainsReturn := by
  obtain ⟨a, id, keyword, value, ha, haround⟩ := h
  refine ⟨i :: a, id, keyword, value, ?_, fun b t hb => ?_⟩
  · rw [Part.at?_cons, hi]
    exact ha
  · rw [Part.around_cons [] a hi] at hb
    rcases List.mem_append.1 hb with hb | hb
    · obtain ⟨b', hb'⟩ := (Part.mem_around_iff _ [] a).1 ⟨b, hb⟩
      exact haround b' t hb'
    · cases List.mem_singleton.1 hb
      exact ⟨hf, hclass⟩

theorem Within.containsReturn {id : NodeId} {keyword : Token} {value : Option Expr}
    (hw : Within ctx n st s m (.ret id keyword value) s₁) : st.ContainsReturn := by
  generalize hret : Stmt.ret id keyword value = y at hw
  induction hw with
  | here =>
    subst hret
    exact ⟨[], id, keyword, value, rfl, fun b t hb => by cases hb⟩
  | step hc _ ih =>
    rcases hc.stmt_cases with rfl | ⟨i, hi, hf, hclass⟩
    · exact ih hret
    · exact .of_child hi hf hclass (ih hret)

/-- The resolver reports a `return` that is in no function. -/
theorem Stmt.ContainsReturn.reported {p : Program} (h : st.ContainsReturn) (hst : st ∈ p) :
    ∃ e ∈ p.resolve.errors, e.cause = .topLevelReturn := by
  obtain ⟨a, id, keyword, value, ha, haround⟩ := h
  obtain ⟨k, hk⟩ := List.getElem?_of_mem hst
  have hchild : (Part.program p).children[k]? = some (.stmt st) := getElem?_map_some hk
  have hpart : p.part? (k :: a) = some (.stmt (.ret id keyword value)) := by
    rw [Program.part?, Part.at?_cons, hchild]
    exact ha
  have hinside : p.insideFunction (k :: a) = false := by
    rw [Program.insideFunction, List.any_eq_false]
    rintro ⟨b, t⟩ hb
    rw [Program.around, Part.around_cons [] a hchild] at hb
    rcases List.mem_append.1 hb with hb | hb
    · obtain ⟨b', hb'⟩ := (Part.mem_around_iff _ [] a).1 ⟨b, hb⟩
      simp [(haround b' t hb').1]
    · cases List.mem_singleton.1 hb
      simp [Part.isFunction]
  obtain ⟨Γ, hP⟩ := Program.exists_place? hpart
  have hviolation : (⟨.topLevelReturn, keyword⟩ : StaticError) ∈ p.violations (k :: a) := by
    simp [Program.violations, hpart, hinside]
  rw [Program.violations_eq hP] at hviolation
  refine ⟨⟨.topLevelReturn, keyword⟩, ?_, rfl⟩
  rw [Program.resolve_errors]
  exact List.mem_flatMap.2 ⟨_, Part.mem_places_of_place? hP rfl, hviolation⟩

/-- Statements of which none returns are run to the last one, whether or not a `return` stops them. -/
theorem Action.untilReturn_eq_throughout {σ α : Type} {f : α → Action σ Completion} {as : List α}
    (h : ∀ a ∈ as, ∀ s v s', f a s ≠ .ok (.returned v) s') (s : σ) :
    Action.untilReturn f as s = (Action.throughout f as >>= fun _ => pure .normal) s := by
  induction as generalizing s with
  | nil => rfl
  | cons a as ih =>
    rw [List.forall_mem_cons] at h
    rw [untilReturn, throughout, bind_assoc, bind_apply, bind_apply]
    cases ha : f a s with
    | ok c s' =>
      cases c with
      | normal => exact ih h.2 s'
      | returned v => exact absurd ha (h.1 s v s')
    | raised fault s' => rfl
    | outOfFuel => rfl

/-! ### All statements and all calls -/

/-- How `return` works, whatever the state is and whatever the nodes stand for. -/
structure ReturnsUnwind (ctx : Context) : Prop where
  /-- A statement completes with a `return` if one is executed while no call is being run in between.  The
  value is that of its expression; nothing is stored or printed after it. -/
  returned_iff : ∀ n st s v s', execute ctx n st s = .ok (.returned v) s' ↔
    ∃ m id keyword value s₁ s₂,
      VisitsUnder ctx n (.stmt st) s [] (m + 1) (.stmt (.ret id keyword value)) s₁ ∧
        Returned ctx m value s₁ v s₂ ∧ s' = { s₂ with scope := s.scope }
  /-- No second `return` is executed in that activation. -/
  only : ∀ n st s m k id id' keyword keyword' value value' s₁ s₂,
    VisitsUnder ctx n (.stmt st) s [] (m + 1) (.stmt (.ret id keyword value)) s₁ →
      VisitsUnder ctx n (.stmt st) s [] (k + 1) (.stmt (.ret id' keyword' value')) s₂ →
        m = k ∧ Stmt.ret id keyword value = .ret id' keyword' value' ∧ s₁ = s₂
  /-- Such a statement contains a `return` that no function or class of it is around. -/
  contained : ∀ n st s v s', execute ctx n st s = .ok (.returned v) s' → st.ContainsReturn
  /-- Of two statements that are run for a block, a branch, a loop or the body of a call, one is run after
  the other. -/
  ordered : ∀ n t s x sx y sy, Calls ctx n t s (.stmt x) sx → Calls ctx n t s (.stmt y) sy →
    (x = y ∧ sx = sy) ∨ Resumes ctx n t s x sx y sy ∨ Resumes ctx n t s y sy x sx
  /-- None is run after one that has completed with a `return`. -/
  last : ∀ n x sx v s', execute ctx n x sx = .ok (.returned v) s' →
    ∀ t s y sy, ¬ Resumes ctx n t s x sx y sy
  /-- A body returns with the first of its statements that does, and in the same state. -/
  body_iff : ∀ n (body : List Stmt) s v s', Action.untilReturn (execute ctx n) body s = .ok (.returned v) s' ↔
    ∃ i st s₁, body[i]? = some st ∧
      Action.untilReturn (execute ctx n) (body.take i) s = .ok .normal s₁ ∧
        execute ctx n st s₁ = .ok (.returned v) s'
  /-- A call of a function whose body has ended, in either way, goes on with what the function hands back,
  in its own scope and at its own depth. -/
  function : ∀ n id callee paren arguments s f vs s₁ s₂ completion s₃,
    Applies ctx n callee arguments s (.function f) vs s₁ → Starts vs (.function f) s₁ f s₂ →
      Action.untilReturn (execute ctx n) f.declaration.body s₂ = .ok completion s₃ →
        evaluate ctx (n + 1) (.call id callee paren arguments) s =
          Run.ofScope (f.handsBack s₃.store completion) { s₃ with scope := s.scope, depth := s.depth }
  /-- A call of a class goes on with the instance that was made for it. -/
  construct : ∀ n id callee paren arguments s c vs s₁ f s₂ completion s₃,
    Applies ctx n callee arguments s (.cls c) vs s₁ → Starts vs (.cls c) s₁ f s₂ →
      Action.untilReturn (execute ctx n) f.declaration.body s₂ = .ok completion s₃ →
        evaluate ctx (n + 1) (.call id callee paren arguments) s =
          .ok (.inst ⟨s₁.store.instances.size⟩) { s₃ with scope := s.scope, depth := s.depth }

theorem StaticCause.code_eq_iff (c : StaticCause) : c.code = "E303" ↔ c = .topLevelReturn := by
  cases c <;> decide

/-- A `return` ends its own call and nothing else.  If the resolver reports none outside of all functions,
no statement of the program completes with one, in whatever state it is run, and it makes no difference that
the interpreter would go on after one. -/
theorem Program.returns_unwind (ctx : Context) (p : Program) : ReturnsUnwind ctx ∧
    ((∀ d ∈ p.resolve.diagnostics, d.code ≠ "E303") →
      (∀ n, ∀ st ∈ p, ∀ s v s', execute ctx n st s ≠ .ok (.returned v) s') ∧
        ∀ n s, Action.untilReturn (execute ctx n) p s =
          (Action.throughout (execute ctx n) p >>= fun _ => pure .normal) s) := by
  have hcontained : ∀ n st s v s', execute ctx n st s = .ok (.returned v) s' → st.ContainsReturn := by
    intro n st s v s' h
    obtain ⟨m, id, keyword, value, s₁, s₂, hw, -⟩ := execute_returned_iff.1 h
    exact hw.containsReturn
  refine ⟨?_, fun hp => ?_⟩
  · exact {
      returned_iff n st s v s' := by simp only [execute_returned_iff, within_iff_visitsUnder]
      only n st s m k id id' keyword keyword' value value' s₁ s₂ hv hv' :=
        (within_iff_visitsUnder.2 hv).ret_unique (within_iff_visitsUnder.2 hv')
      contained := hcontained
      ordered n t s x sx y sy := Calls.order
      last n x sx v s' hx t s y sy hlater := by
        obtain ⟨s'', hnormal⟩ := hlater.normal
        cases hx.symm.trans hnormal
      body_iff n body s v s' := Action.untilReturn_returned_iff
      function n id callee paren arguments s f vs s₁ s₂ completion s₃ ha hs hb :=
        ha.evaluate_function hs hb id paren
      construct n id callee paren arguments s c vs s₁ f s₂ completion s₃ ha hs hb :=
        ha.evaluate_construct hs hb id paren }
  · have hnone : ∀ n, ∀ st ∈ p, ∀ s v s', execute ctx n st s ≠ .ok (.returned v) s' := by
      intro n st hst s v s' h
      obtain ⟨e, he, hcause⟩ := (hcontained n st s v s' h).reported hst
      exact hp _ (List.mem_map_of_mem he) (e.cause.code_eq_iff.2 hcause)
    exact ⟨hnone, fun n s => Action.untilReturn_eq_throughout (hnone n) s⟩

/-! ### A `return` in a loop -/

/-- A function returns from a block in a loop; neither the rest of the loop nor that of the body is run. -/
def Program.earlyReturn : Program :=
  [.function ⟨0, ⟨.identifier, "f", .nil, 1⟩, [],
    [.loop 1 (.literal 2 (.bool true)) (.block 3
      [.block 4 [.ret 5 ⟨.kwReturn, "return", .nil, 2⟩ (some (.literal 6 (.string "a")))],
       .print 7 (.literal 8 (.string "b"))]),
     .print 9 (.literal 10 (.string "c"))]⟩,
   .print 11 (.call 12 (.var ⟨13, ⟨.identifier, "f", .nil, 5⟩⟩) ⟨.rightParen, ")", .nil, 5⟩ []),
   .print 14 (.literal 15 (.string "d"))]

/-- The call hands back the value, and the program goes on after it. -/
theorem Program.earlyReturn_unwinds :
    (∀ d ∈ earlyReturn.resolve.diagnostics, d.code ≠ "E303") ∧
      (Interpreter.shallow.interpret 9 .earlyReturn ∅).map (·.1) = some ⟨.completed, ["a", "d"]⟩ ∧
      (∀ n, ∀ st ∈ earlyReturn, ∀ s v s',
        execute (Interpreter.shallow.learn ∅).context n st s ≠ .ok (.returned v) s') := by
  have hnone : ∀ d ∈ earlyReturn.resolve.diagnostics, d.code ≠ "E303" := by decide +kernel
  exact ⟨hnone, by decide +kernel,
    ((returns_unwind (Interpreter.shallow.learn ∅).context earlyReturn).2 hnone).1⟩

end Lox
