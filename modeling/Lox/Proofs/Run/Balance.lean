import Lox.Proofs.Run.Faults
import Lox.Proofs.Run.Splitting

/-!
# Scopes and calls are balanced

However a run ends, it ends in the scope and at the call depth in which it began (`Outcome.Balanced`).  So
the depth is always the number of calls that are being run, one inside the other (`VisitsUnder`); it
never passes the limit, and a stack overflow is what a run ends with exactly if one more call would
take it past the limit.
-/

namespace Lox

variable {α : Type}

/-- A run that began in `s` ended in the same scope, at the same call depth. -/
def Outcome.Balanced (s : RunState) : Outcome RunState α → Prop
  | .ok _ s' => s'.scope = s.scope ∧ s'.depth = s.depth
  | .raised _ s' => s'.scope = s.scope ∧ s'.depth = s.depth
  | .outOfFuel => True

/-- A run that goes the same way as itself is balanced. -/
theorem Replays.balanced {Q : α → Prop} {x : Run α} (h : Replays (fun _ => True) #[] True Q x x)
    (s : RunState) : (x s).Balanced s := by
  have hend := h s fun _ _ _ _ _ => trivial
  cases ho : x s with
  | ok a s' =>
    rw [ho] at hend
    exact ⟨hend.2.1.scope, hend.2.1.depth⟩
  | raised fault s' =>
    rw [ho] at hend
    exact ⟨hend.2.scope, hend.2.depth⟩
  | outOfFuel => trivial

theorem Outcome.Balanced.depth_eq {s s' : RunState} {a : α} {o : Outcome RunState α}
    (h : o.Balanced s) (ho : o = .ok a s') : s'.depth = s.depth := by
  subst ho
  exact h.2

theorem Outcome.Balanced.scope_eq {s s' : RunState} {a : α} {o : Outcome RunState α}
    (h : o.Balanced s) (ho : o = .ok a s') : s'.scope = s.scope := by
  subst ho
  exact h.1

section Runs

variable (ctx : Context) (n : Nat)

theorem runsReplay_self : RunsReplay (fun _ => True) #[] True ctx ctx n n :=
  replays (.refl _ _) (Nat.le_refl n) fun _ => rfl

theorem evaluate_balanced (e : Expr) (s : RunState) : (evaluate ctx n e s).Balanced s :=
  ((runsReplay_self ctx n).expr fun _ _ => trivial).balanced s

theorem execute_balanced (st : Stmt) (s : RunState) : (execute ctx n st s).Balanced s :=
  ((runsReplay_self ctx n).stmt fun _ _ => trivial).balanced s

theorem collect_balanced (es : List Expr) (s : RunState) :
    (Action.collect (evaluate ctx n) es s).Balanced s :=
  (Replays.collect fun _ _ => (runsReplay_self ctx n).expr fun _ _ => trivial).balanced s

theorem untilReturn_balanced (body : List Stmt) (s : RunState) :
    (Action.untilReturn (execute ctx n) body s).Balanced s :=
  (Replays.untilReturn fun _ _ => (runsReplay_self ctx n).stmt fun _ _ => trivial).balanced s

theorem throughout_balanced (p : Program) (s : RunState) :
    (Action.throughout (execute ctx n) p s).Balanced s :=
  (Replays.throughout fun _ _ => (runsReplay_self ctx n).stmt fun _ _ => trivial).balanced s

/-- Statements in a scope of their own, whatever scope that is. -/
theorem inScope_balanced (e : ScopeId) (body : List Stmt) (s : RunState) :
    (Run.inScope e (Action.untilReturn (execute ctx n) body) s).Balanced s :=
  (Replays.inScope e (.untilReturn fun _ _ =>
    (runsReplay_self ctx n).stmt fun _ _ => trivial)).balanced s

theorem call_balanced (paren : Token) (callee : Value) (vs : List Value) (s : RunState) :
    (Run.call ctx (Action.untilReturn (execute ctx n)) paren callee vs s).Balanced s :=
  (call_replays (runsReplay_self ctx n).body (.refl _ ctx) paren callee vs).balanced s

theorem invoke_balanced (callee : Callable) (vs : List Value) (s : RunState) :
    (Run.invoke (Action.untilReturn (execute ctx n)) callee vs s).Balanced s := by
  have hbody := (runsReplay_self ctx n).body
  cases callee with
  | function f => exact (callFunction_replays hbody (fun _ _ => trivial) vs).balanced s
  | native f => exact ⟨rfl, rfl⟩
  | cls c => exact (construct_replays hbody c vs).balanced s

end Runs

/-! ### The calls that are being run -/

/-- A statement that is run from an expression is in the body of the callee of a call. -/
def running : Part → Part → List Expr
  | .expr e, .stmt _ => [e]
  | _, _ => []

variable (ctx : Context)

/-- As `Visits`, with the calls whose callee is being run then, the outermost first. -/
inductive VisitsUnder : Nat → Part → RunState → List Expr → Nat → Part → RunState → Prop
  | here {n t s} : VisitsUnder n t s [] n t s
  | step {n t s u s' calls m v s''} (h : Calls ctx n t s u s')
      (hv : VisitsUnder n u s' calls m v s'') :
      VisitsUnder (n + 1) t s (running t u ++ calls) m v s''

variable {ctx} {n m : Nat} {t u v : Part} {s s' s'' : RunState} {calls : List Expr}

theorem VisitsUnder.visits (h : VisitsUnder ctx n t s calls m u s') : Visits ctx n t s m u s' := by
  induction h with
  | here => exact .here
  | step hc _ ih => exact .step hc ih

theorem Visits.exists_calls (h : Visits ctx n t s m u s') :
    ∃ calls, VisitsUnder ctx n t s calls m u s' := by
  induction h with
  | here => exact ⟨[], .here⟩
  | step hc _ ih =>
    obtain ⟨calls, hv⟩ := ih
    exact ⟨_, .step hc hv⟩

/-- A call that is not refused was within the limit. -/
theorem Applies.depth_eq {callee : Expr} {arguments : List Expr} {c : Callable} {vs : List Value}
    (h : Applies ctx n callee arguments s c vs s') :
    s'.depth = s.depth + 1 ∧ s'.depth ≤ ctx.maxDepth := by
  cases h with
  | mk hf hvs _ _ hdepth =>
    have hcallee := (evaluate_balanced ctx n _ _).depth_eq hf
    have harguments := (collect_balanced ctx n _ _).depth_eq hvs
    dsimp only
    omega

theorem Starts.depth_eq {vs : List Value} {c : Callable} {f : FunctionObject}
    (h : Starts vs c s f s') : s'.depth = s.depth := by
  cases h with
  | function he =>
    cases he
    rfl
  | construct hc he =>
    cases hc with
    | mk hi _ hg =>
      cases hi
      cases hg
      cases he
      rfl

/-- A node that is called is run at the depth of its caller; the body of a callee is one deeper. -/
theorem Calls.depth_eq (h : Calls ctx n t s u s') :
    s'.depth = s.depth + (running t u).length ∧ (s.depth ≤ ctx.maxDepth → s'.depth ≤ ctx.maxDepth) := by
  have hsame : s'.depth = s.depth → s'.depth = s.depth + 0 ∧
      (s.depth ≤ ctx.maxDepth → s'.depth ≤ ctx.maxDepth) := by omega
  cases h with
  | binaryRight hl => exact hsame ((evaluate_balanced ctx n _ _).depth_eq hl)
  | logicalRight hl _ => exact hsame ((evaluate_balanced ctx n _ _).depth_eq hl)
  | argument hf hvs _ =>
    exact hsame (((collect_balanced ctx n _ _).depth_eq hvs).trans
      ((evaluate_balanced ctx n _ _).depth_eq hf))
  | body ha hs hb _ =>
    have happlied := ha.depth_eq
    have hbody := ((untilReturn_balanced ctx n _ _).depth_eq hb).trans hs.depth_eq
    exact ⟨hbody.trans happlied.1, fun _ => hbody ▸ happlied.2⟩
  | setValue ho => exact hsame ((evaluate_balanced ctx n _ _).depth_eq ho)
  | block he hb _ =>
    cases he
    have hbody := Outcome.Balanced.depth_eq (untilReturn_balanced ..) hb
    exact hsame hbody
  | thenBranch hv _ => exact hsame ((evaluate_balanced ctx n _ _).depth_eq hv)
  | elseBranch hv _ => exact hsame ((evaluate_balanced ctx n _ _).depth_eq hv)
  | loopBody hv _ => exact hsame ((evaluate_balanced ctx n _ _).depth_eq hv)
  | loopAgain hv _ hb =>
    exact hsame (((execute_balanced ctx n _ _).depth_eq hb).trans
      ((evaluate_balanced ctx n _ _).depth_eq hv))
  | _ => exact hsame rfl

/-- The depth at a node is the number of calls being run there, and stays within the limit. -/
theorem VisitsUnder.depth_eq (h : VisitsUnder ctx n t s calls m u s') :
    s'.depth = s.depth + calls.length ∧ (s.depth ≤ ctx.maxDepth → s'.depth ≤ ctx.maxDepth) := by
  induction h with
  | here => exact ⟨rfl, id⟩
  | step hc _ ih =>
    obtain ⟨hfirst, hbound⟩ := hc.depth_eq
    rw [List.length_append]
    exact ⟨by omega, fun h => ih.2 (hbound h)⟩

/-! ### Programs -/

namespace Interpreter

/-- At the globals, outside of all calls. -/
structure AtRest (i : Interpreter) : Prop where
  scope : i.scope = i.globals
  depth : i.depth = 0

/-- During the run of a program, with any table, a node is visited while calls are being run. -/
inductive VisitsUnder (fuel : Nat) (i : Interpreter) (p : Program) (table : Resolution)
    (calls : List Expr) (m : Nat) (t : Part) (s : RunState) : Prop
  | mk {k : Nat} {st : Stmt} {s₁ : RunState} (hfits : i.config.fitsStack = true)
      (hb : Action.throughout (execute (i.learn table).context fuel) (p.take k)
        (i.learn table).start = .ok () s₁)
      (hi : p[k]? = some st)
      (hv : Lox.VisitsUnder (i.learn table).context fuel (.stmt st) s₁ calls m t s)

/-- During the run of a program, a call comes at a callable callee with as many arguments as it takes, at
such a depth. -/
def ArrivesAt (depth fuel : Nat) (i : Interpreter) (p : Program) (table : Resolution)
    (paren : Token) : Prop :=
  ∃ calls m id callee arguments s s',
    i.VisitsUnder fuel p table calls (m + 1) (.expr (.call id callee paren arguments)) s ∧
      Arrives (i.learn table).context m callee arguments s s' ∧ s'.depth = depth

variable {i j : Interpreter} {fuel : Nat} {p : Program} {table : Resolution} {report : Report}

theorem AtRest.of_create {registry : NativeRegistry} {config : Config}
    (h : Interpreter.create registry config = .ok i) : i.AtRest := by
  obtain ⟨st, -, rfl⟩ := create_eq h
  exact ⟨rfl, rfl⟩

theorem AtRest.of_interpret (h : i.interpret fuel p table = some (report, j)) : j.AtRest := by
  unfold interpret at h
  dsimp only at h
  split at h
  · split at h <;> cases h <;> exact ⟨rfl, rfl⟩
  · cases h
    exact ⟨rfl, rfl⟩

/-- At rest an interpreter is its globals, store and table. -/
theorem AtRest.eq (hi : i.AtRest) (hj : j.AtRest) (hconfig : i.config = j.config)
    (hglobals : i.globals = j.globals) (hstore : i.store = j.store) (htable : i.table = j.table) :
    i = j := by
  cases i
  cases j
  cases hi.scope
  cases hi.depth
  cases hj.scope
  cases hj.depth
  cases hconfig
  cases hglobals
  cases hstore
  cases htable
  rfl

theorem VisitsUnder.depth_eq (h : i.AtRest) (hv : i.VisitsUnder fuel p table calls m t s) :
    s.depth = calls.length ∧ s.depth ≤ i.config.maxCallDepth := by
  cases hv with
  | mk _ hb _ hv =>
    have hstart : (i.learn table).start.depth = 0 := h.depth
    have hbefore := (throughout_balanced _ _ _ _).depth_eq hb
    obtain ⟨hcalls, hbound⟩ := hv.depth_eq
    exact ⟨by omega, hbound (by omega)⟩

/-- A program overflows the stack exactly if it comes at a call when the calls are nested as deeply as
they may. -/
theorem overflow_iff (h : i.AtRest) {limit : Int} {paren : Token} :
    (∃ output j, i.interpret fuel p table =
        some (⟨.failed ⟨.stackOverflow limit, paren⟩, output⟩, j)) ↔
      limit = i.config.maxCallDepth ∧
        i.ArrivesAt i.config.maxCallDepth fuel p table paren := by
  constructor
  · rintro ⟨output, j, hj⟩
    have hfits : i.config.fitsStack = true := by
      by_contra hno
      rw [interpret_of_not_fits (eq_false_of_ne_true hno)] at hj
      cases hj
    rw [interpret_of_fits hfits] at hj
    cases hr : Action.throughout (execute (i.learn table).context fuel) p (i.learn table).start with
    | raised fault s =>
      rw [hr] at hj
      obtain rfl : fault = .error ⟨.stackOverflow limit, paren⟩ := by
        cases fault <;> cases hj
        rfl
      have hfault : (Action.throughout (execute (i.learn table).context fuel) p
          (i.learn table).start).store = .raised (.error ⟨.stackOverflow limit, paren⟩) s.store := by
        rw [hr]
        rfl
      obtain ⟨k, st, hi, s₁, hb, hev⟩ := Program.outcome_raised_iff.1 hfault
      cases hev with
      | @raise m u s₂ _ _ hv hr =>
        obtain ⟨hlimit, id, callee, arguments, s₃, rfl, harrives, hdepth⟩ := hr.stackOverflow
        obtain ⟨calls, hv⟩ := hv.exists_calls
        have hvisits : i.VisitsUnder fuel p table calls (m + 1) _ s₂ := .mk hfits hb hi hv
        refine ⟨hlimit, calls, m, id, callee, arguments, s₂, s₃, hvisits, harrives, ?_⟩
        have hsame : s₃.depth = s₂.depth := by
          cases harrives with
          | mk hf hvs =>
            exact ((collect_balanced _ m _ _).depth_eq hvs).trans
              ((evaluate_balanced _ m _ _).depth_eq hf)
        have hbound := (hvisits.depth_eq h).2
        have hmax : i.config.maxCallDepth ≤ s₃.depth := hdepth
        omega
    | ok a s =>
      rw [hr] at hj
      cases hj
    | outOfFuel =>
      rw [hr] at hj
      cases hj
  · rintro ⟨rfl, calls, m, id, callee, arguments, s, s', hv, harrives, hdepth⟩
    cases hv with
    | @mk k st s₁ hfits hb hi hv =>
      have hraises : Raises (i.learn table).context m (.expr (.call id callee paren arguments)) s
          (.error ⟨.stackOverflow i.config.maxCallDepth, paren⟩) s'.store :=
        harrives.raises (Nat.le_of_eq hdepth.symm)
      have hfault := Program.outcome_raised_iff.2 ⟨k, st, hi, s₁, hb, .raise hv.visits hraises⟩
      cases ho : Action.throughout (execute (i.learn table).context fuel) p (i.learn table).start with
      | raised fault s₂ =>
        rw [ho] at hfault
        obtain rfl : fault = .error ⟨.stackOverflow i.config.maxCallDepth, paren⟩ :=
          (Outcome.raised.inj hfault).1
        refine ⟨s₂.printed.toList, ((i.learn table).resume s₂).atRest, ?_⟩
        rw [interpret_of_fits hfits, ho]
        rfl
      | ok a s₂ =>
        rw [ho] at hfault
        cases hfault
      | outOfFuel =>
        rw [ho] at hfault
        cases hfault

/-- Scope and call depth are the same after a run as before it, in any state and with any table, whether
it ends normally or not.  While a program runs that was started at rest, the depth is the number of
calls that are being run, within the limit; and it ends with a stack overflow exactly if a callable is
called with as many arguments as it takes when the depth is the limit.  After any program the
interpreter is at rest, and goes on like every other one at rest with the same globals, store and
table. -/
theorem balanced_and_bounded :
    (∀ ctx n s, (∀ e, (evaluate ctx n e s).Balanced s) ∧ (∀ st, (execute ctx n st s).Balanced s) ∧
      (∀ e body, (Run.inScope e (Action.untilReturn (execute ctx n) body) s).Balanced s) ∧
      (∀ paren v vs, (Run.call ctx (Action.untilReturn (execute ctx n)) paren v vs s).Balanced s) ∧
      ∀ c vs, (Run.invoke (Action.untilReturn (execute ctx n)) c vs s).Balanced s) ∧
    (∀ i : Interpreter, i.AtRest → ∀ fuel p table,
      (∀ calls m t s, i.VisitsUnder fuel p table calls m t s →
        s.depth = calls.length ∧ s.depth ≤ i.config.maxCallDepth) ∧
      (∀ calls m id callee paren arguments s c vs s',
        i.VisitsUnder fuel p table calls (m + 1) (.expr (.call id callee paren arguments)) s →
        Applies (i.learn table).context m callee arguments s c vs s' →
          s'.depth = calls.length + 1 ∧ s'.depth ≤ i.config.maxCallDepth) ∧
      ∀ limit paren,
        (∃ output j, i.interpret fuel p table =
          some (⟨.failed ⟨.stackOverflow limit, paren⟩, output⟩, j)) ↔
        limit = i.config.maxCallDepth ∧
          i.ArrivesAt i.config.maxCallDepth fuel p table paren) ∧
    (∀ registry config i, Interpreter.create registry config = .ok i → i.AtRest) ∧
    ∀ i fuel p table report i', Interpreter.interpret fuel i p table = some (report, i') →
      i'.AtRest ∧ ∀ j : Interpreter, j.AtRest → j.config = i'.config → j.globals = i'.globals →
        j.store = i'.store → j.table = i'.table →
          ∀ fuel q table, i'.interpret fuel q table = j.interpret fuel q table := by
  refine ⟨fun ctx n s => ⟨fun e => evaluate_balanced ctx n e s, fun st => execute_balanced ctx n st s,
    fun e body => inScope_balanced ctx n e body s, fun paren v vs => call_balanced ctx n paren v vs s,
    fun c vs => invoke_balanced ctx n c vs s⟩, ?_, fun _ _ _ => AtRest.of_create, ?_⟩
  · intro i hi fuel p table
    refine ⟨fun calls m t s hv => hv.depth_eq hi, ?_, fun limit paren => overflow_iff hi⟩
    intro calls m id callee paren arguments s c vs s' hv ha
    obtain ⟨hcalls, -⟩ := hv.depth_eq hi
    obtain ⟨hnext, hbound⟩ := ha.depth_eq
    exact ⟨by omega, hbound⟩
  · intro i fuel p table report i' h
    have hrest : i'.AtRest := .of_interpret h
    refine ⟨hrest, fun j hj hconfig hglobals hstore htable fuel q table => ?_⟩
    rw [hj.eq hrest hconfig hglobals hstore htable]

end Interpreter

/-! ### A function that calls itself -/

/-- A function that calls itself, and a call of it. -/
def Program.recursion : Program :=
  [.function ⟨0, ⟨.identifier, "f", .nil, 1⟩, [],
    [.expression 1 (.call 2 (.var ⟨3, ⟨.identifier, "f", .nil, 1⟩⟩) ⟨.rightParen, ")", .nil, 1⟩ [])]⟩,
   .expression 4 (.call 5 (.var ⟨6, ⟨.identifier, "f", .nil, 2⟩⟩) ⟨.rightParen, ")", .nil, 2⟩ [])]

/-- A new interpreter that nests two calls at most. -/
def Interpreter.shallow : Interpreter where
  config := { maxCallDepth := 2, natives := [], maxCallDepth_pos := Nat.two_pos }
  globals := ⟨0⟩
  store := (({} : Store).newScope {}).2
  scope := ⟨0⟩

/-- The third call of the function is one too many; it comes while the first two are being run. -/
theorem Interpreter.shallow_overflows :
    shallow.AtRest ∧ (∃ s s' id callee paren arguments c vs,
      shallow.VisitsUnder 9 .recursion ∅ [] 8 (.expr (.call id callee paren arguments)) s ∧
      Applies (shallow.learn ∅).context 7 callee arguments s c vs s' ∧ s.depth = 0 ∧ s'.depth = 1) ∧
    (∃ output j, shallow.interpret 9 .recursion ∅ =
      some (⟨.failed ⟨.stackOverflow 2, ⟨.rightParen, ")", .nil, 1⟩⟩, output⟩, j) ∧ j.AtRest) ∧
    shallow.ArrivesAt 2 9 .recursion ∅ ⟨.rightParen, ")", .nil, 1⟩ := by
  have hrest : shallow.AtRest := ⟨rfl, rfl⟩
  obtain ⟨-, hruns, -, hafter⟩ := balanced_and_bounded
  obtain ⟨hvisits, happlies, hoverflow⟩ := hruns shallow hrest 9 .recursion ∅
  have hreport : (shallow.interpret 9 .recursion ∅).map (·.1) =
      some ⟨.failed ⟨.stackOverflow 2, ⟨.rightParen, ")", .nil, 1⟩⟩, []⟩ := by decide +kernel
  obtain ⟨⟨report, j⟩, hj, rfl⟩ := Option.map_eq_some_iff.1 hreport
  refine ⟨hrest, ?_, ⟨_, j, hj, (hafter _ _ _ _ _ _ hj).1⟩, ((hoverflow 2 _).1 ⟨_, j, hj⟩).2⟩
  obtain ⟨s, hv, c, vs, s', ha⟩ : ∃ s, shallow.VisitsUnder 9 .recursion ∅ [] 8 (.expr (.call 5
        (.var ⟨6, ⟨.identifier, "f", .nil, 2⟩⟩) ⟨.rightParen, ")", .nil, 2⟩ [])) s ∧
      ∃ c vs s', Applies (shallow.learn ∅).context 7 (.var ⟨6, ⟨.identifier, "f", .nil, 2⟩⟩) [] s
        c vs s' :=
    ⟨_, .mk (k := 1) (by decide) (by rfl) (by rfl) (.step .expression .here), _, _, _,
      .mk (by rfl) (by rfl) (by rfl) (by rfl) (by decide)⟩
  exact ⟨s, s', _, _, _, _, c, vs, hv, ha, (hvisits _ _ _ _ hv).1,
    (happlies _ _ _ _ _ _ _ _ _ _ hv ha).1⟩

end Lox
