import Lox.Proofs.Run.Chain
import Lox.Proofs.Run.Splitting

/-!
# Runs with a higher limit on nested calls

A higher limit changes nothing for a run that keeps to the lower one: the two runs go the same way, step
by step, up to the call that the lower limit refuses (`Deepens`).  There the first run ends, since
nothing catches a stack overflow, and the second goes on, so that it prints what the first one has
printed and perhaps more.
-/

namespace Lox

variable {α β : Type}

/-! ### What is printed stays -/

/-- The lines printed in the end start with the given ones. -/
def Outcome.StartsWith (lines : Array String) : Outcome RunState α → Prop
  | .ok _ s => lines.toList <+: s.printed.toList
  | .raised _ s => lines.toList <+: s.printed.toList
  | .outOfFuel => True

/-- A run that goes the same way after any lines leaves them there. -/
theorem Replays.startsWith {Q : α → Prop} {x : Run α}
    (h : ∀ lines, Replays (fun _ => True) lines True Q x x) (s : RunState) :
    (x s).StartsWith s.printed := by
  have hend := h s.printed { s with printed := #[] } fun _ _ _ _ _ => trivial
  have hs : ({ s with printed := #[] } : RunState).after s.printed = s := by simp [RunState.after]
  rw [hs] at hend
  cases ho : x { s with printed := #[] } with
  | ok a t =>
    rw [ho] at hend
    rw [hend.1]
    simp [Outcome.StartsWith, RunState.after]
  | raised fault t =>
    rw [ho] at hend
    rw [hend.1]
    simp [Outcome.StartsWith, RunState.after]
  | outOfFuel =>
    rw [ho] at hend
    rw [hend trivial]
    trivial

theorem Outcome.StartsWith.trans {lines : Array String} {s : RunState} {o : Outcome RunState α}
    (h : lines.toList <+: s.printed.toList) (ho : o.StartsWith s.printed) : o.StartsWith lines := by
  cases o with
  | ok a t => exact h.trans ho
  | raised fault t => exact h.trans ho
  | outOfFuel => trivial

/-! ### Rules -/

/-- The error of a call that is nested too deeply. -/
def overflow (limit : Nat) (paren : Token) : Fault := .error ⟨.stackOverflow limit, paren⟩

/-- From every state the second run goes the same way as the first, or the first one overflows the stack
when it has printed what the second one starts with; and the second one leaves the lines there that were
printed before. -/
structure Deepens (limit : Nat) (x x' : Run α) : Prop where
  same : ∀ s, x' s = x s ∨ ∃ paren t, x s = .raised (overflow limit paren) t ∧
    (x' s).StartsWith t.printed
  startsWith : ∀ s, (x' s).StartsWith s.printed

namespace Deepens

variable {limit : Nat}

/-- A run that takes no notice of the limit. -/
theorem of_replays {x : Run α} (h : ∀ lines, Replays (fun _ => True) lines True anyResult x x) :
    Deepens limit x x :=
  ⟨fun _ => .inl rfl, Replays.startsWith h⟩

theorem pure (a : α) : Deepens limit (Pure.pure a) (Pure.pure a) :=
  of_replays fun _ => .pure trivial

theorem fail (cause : RuntimeCause) (token : Token) :
    Deepens limit (Action.fail cause token : Run α) (Action.fail cause token) :=
  of_replays fun _ => .fail cause token

theorem bind {x x' : Run α} {f f' : α → Run β} (hx : Deepens limit x x')
    (hf : ∀ a, Deepens limit (f a) (f' a)) : Deepens limit (x >>= f) (x' >>= f') := by
  -- the second run keeps the lines that its first part starts with
  have hrest : ∀ s lines, (x' s).StartsWith lines → ((x' >>= f') s).StartsWith lines := by
    intro s lines h
    rw [Action.bind_apply]
    cases ho : x' s with
    | ok a t =>
      rw [ho] at h
      exact Outcome.StartsWith.trans h ((hf a).startsWith t)
    | raised fault t =>
      rw [ho] at h
      exact h
    | outOfFuel => trivial
  refine ⟨fun s => ?_, fun s => hrest s _ (hx.startsWith s)⟩
  rcases hx.same s with he | ⟨paren, t, ho, hp⟩
  · rw [Action.bind_apply, Action.bind_apply, he]
    cases ho : x s with
    | ok a t => exact (hf a).same t
    | raised fault t => exact .inl rfl
    | outOfFuel => exact .inl rfl
  · refine .inr ⟨paren, t, ?_, hrest s _ hp⟩
    rw [Action.bind_apply, ho]

theorem inScope {x x' : Run α} (e : ScopeId) (hx : Deepens limit x x') :
    Deepens limit (Run.inScope e x) (Run.inScope e x') := by
  have hrest : ∀ s lines, (x' { s with scope := e }).StartsWith lines →
      (Run.inScope e x' s).StartsWith lines := by
    intro s lines h
    unfold Run.inScope
    cases ho : x' { s with scope := e } <;> rw [ho] at h <;> exact h
  refine ⟨fun s => ?_, fun s => hrest s _ (hx.startsWith _)⟩
  rcases hx.same { s with scope := e } with he | ⟨paren, t, ho, hp⟩
  · refine .inl ?_
    unfold Run.inScope
    rw [he]
  · refine .inr ⟨paren, { t with scope := s.scope }, ?_, hrest s _ hp⟩
    unfold Run.inScope
    rw [ho]

theorem deeper {x x' : Run α} (hx : Deepens limit x x') :
    Deepens limit (Run.deeper x) (Run.deeper x') := by
  have hrest : ∀ s lines, (x' { s with depth := s.depth + 1 }).StartsWith lines →
      (Run.deeper x' s).StartsWith lines := by
    intro s lines h
    unfold Run.deeper
    cases ho : x' { s with depth := s.depth + 1 } <;> rw [ho] at h <;> exact h
  refine ⟨fun s => ?_, fun s => hrest s _ (hx.startsWith _)⟩
  rcases hx.same { s with depth := s.depth + 1 } with he | ⟨paren, t, ho, hp⟩
  · refine .inl ?_
    unfold Run.deeper
    rw [he]
  · refine .inr ⟨paren, { t with depth := t.depth - 1 }, ?_, hrest s _ hp⟩
    unfold Run.deeper
    rw [ho]

/-! ### Lists -/

theorem collect {f f' : α → Run β} (h : ∀ a, Deepens limit (f a) (f' a)) (as : List α) :
    Deepens limit (Action.collect f as) (Action.collect f' as) := by
  induction as with
  | nil => exact .pure _
  | cons a as ih => exact (h a).bind fun b => ih.bind fun bs => .pure _

theorem untilReturn {f f' : α → Run Completion} (h : ∀ a, Deepens limit (f a) (f' a))
    (as : List α) : Deepens limit (Action.untilReturn f as) (Action.untilReturn f' as) := by
  induction as with
  | nil => exact .pure _
  | cons a as ih =>
    refine (h a).bind fun c => ?_
    cases c with
    | normal => exact ih
    | returned v => exact .pure _

theorem throughout {f f' : α → Run Completion} (h : ∀ a, Deepens limit (f a) (f' a))
    (as : List α) : Deepens limit (Action.throughout f as) (Action.throughout f' as) := by
  induction as with
  | nil => exact .pure _
  | cons a as ih => exact (h a).bind fun _ => ih

end Deepens

/-! ### Calls -/

section Calls

variable {limit : Nat} {runBody runBody' : List Stmt → Run Completion}
  (hbody : ∀ body, Deepens limit (runBody body) (runBody' body))

include hbody

theorem callFunction_deepens (f : FunctionObject) (vs : List Value) :
    Deepens limit (Run.callFunction runBody f vs) (Run.callFunction runBody' f vs) := by
  have henter : Deepens limit (Run.enterFunction f vs) (Run.enterFunction f vs) :=
    .of_replays fun _ => .make fun _ hst => hst
  refine henter.bind fun scope => (Deepens.inScope scope (hbody _)).bind fun c => ?_
  cases f.isInitializer with
  | true => exact .of_replays fun _ => (Replays.read _).bind fun this _ => .ofScope this
  | false => cases c <;> exact .pure _

theorem invoke_deepens (callee : Callable) (vs : List Value) :
    Deepens limit (Run.invoke runBody callee vs) (Run.invoke runBody' callee vs) := by
  cases callee with
  | function f => exact callFunction_deepens hbody f vs
  | native f => exact .pure _
  | cls c =>
    have hmade : Deepens limit (Run.alloc (·.newInstance c)) (Run.alloc (·.newInstance c)) :=
      .of_replays fun _ => .make fun _ hst => hst
    have hinit : Deepens limit (Run.ask (·.initializer? c)) (Run.ask (·.initializer? c)) :=
      .of_replays fun _ => .read _
    refine hmade.bind fun i => hinit.bind fun f => ?_
    cases f with
    | none => exact .pure _
    | some f =>
      have hbind : Deepens limit (Run.alloc (·.bind f (.inst i))) (Run.alloc (·.bind f (.inst i))) :=
        .of_replays fun _ => .make fun _ hst => hst
      exact hbind.bind fun g => (callFunction_deepens hbody g vs).bind fun _ => .pure _

/-- A call is the one place that takes notice of the limit. -/
theorem call_deepens {ctx : Context} {m : Nat} (hm : ctx.maxDepth ≤ m) (hl : limit = ctx.maxDepth)
    (paren : Token) (v : Value) (vs : List Value) : Deepens limit (Run.call ctx runBody paren v vs)
      (Run.call { ctx with maxDepth := m } runBody' paren v vs) := by
  subst hl
  unfold Run.call
  have hcallable : Deepens ctx.maxDepth (Run.ask (·.callable? v)) (Run.ask (·.callable? v)) :=
    .of_replays fun _ => .read _
  refine hcallable.bind fun c => ?_
  cases c with
  | none => exact .fail _ _
  | some c =>
    have harity : Deepens ctx.maxDepth (Run.ask (·.arity c)) (Run.ask (·.arity c)) :=
      .of_replays fun _ => .read _
    refine harity.bind fun arity => ?_
    by_cases h : (vs.length : Int) = arity
    · rw [if_neg (not_not.2 h), if_neg (not_not.2 h)]
      have hinvoke := Deepens.deeper (invoke_deepens hbody c vs)
      -- the second run checks the depth against its own limit
      have hstarts : ∀ s : RunState, (((Run.callDepth >>= fun depth =>
          if m ≤ depth then Action.fail (.stackOverflow m) paren
          else Run.deeper (Run.invoke runBody' c vs)) : Run Value) s).StartsWith s.printed := by
        intro s
        rw [Run.callDepth_bind]
        split
        · exact List.prefix_rfl
        · exact hinvoke.startsWith s
      refine ⟨fun s => ?_, hstarts⟩
      by_cases hdepth : ctx.maxDepth ≤ s.depth
      · refine .inr ⟨paren, s, ?_, hstarts s⟩
        rw [Run.callDepth_bind, if_pos hdepth]
        rfl
      · rw [Run.callDepth_bind, Run.callDepth_bind, if_neg hdepth,
          if_neg (fun h => hdepth (Nat.le_trans hm h))]
        exact hinvoke.same s
    · rw [if_pos h, if_pos h]
      exact .fail _ _

end Calls

/-! ### Whole runs -/

section Runs

variable (ctx : Context) (m n : Nat)

/-- Runs with so much fuel. -/
structure RunsDeepen : Prop where
  expr : ∀ e, Deepens ctx.maxDepth (evaluate ctx n e) (evaluate { ctx with maxDepth := m } n e)
  stmt : ∀ st, Deepens ctx.maxDepth (execute ctx n st) (execute { ctx with maxDepth := m } n st)

variable {ctx m n}

/-- Names and methods are looked up regardless of the limit. -/
theorem lookUp_deepens (id : NodeId) (name : Token) : Deepens ctx.maxDepth (Run.lookUp ctx id name)
    (Run.lookUp { ctx with maxDepth := m } id name) :=
  .of_replays fun _ => lookUp_replays (.refl _ ctx) trivial name

theorem superMethod_deepens (id : NodeId) (method : Token) : Deepens ctx.maxDepth
    (Run.superMethod ctx id method) (Run.superMethod { ctx with maxDepth := m } id method) :=
  .of_replays fun _ => superMethod_replays (.refl _ ctx) trivial method

theorem assign_deepens (id : NodeId) (name : Token) (v : Value) : Deepens ctx.maxDepth
    (Run.assign ctx id name v) (Run.assign { ctx with maxDepth := m } id name v) :=
  .of_replays fun _ => assign_replays (.refl _ ctx) trivial name v

variable (ih : RunsDeepen ctx m n)

include ih

/-- One step of the induction, for expressions. -/
theorem evaluate_deepens (hm : ctx.maxDepth ≤ m) (e : Expr) : Deepens ctx.maxDepth
    (evaluate ctx (n + 1) e) (evaluate { ctx with maxDepth := m } (n + 1) e) := by
  cases e with
  | literal id value => exact .of_replays fun _ => .ofExcept _
  | var ref => exact lookUp_deepens ref.id ref.name
  | assign id target equals value =>
    exact (ih.expr value).bind fun v => (assign_deepens id _ v).bind fun _ => .pure _
  | binary id left operator right =>
    exact (ih.expr left).bind fun l => (ih.expr right).bind fun r =>
      .of_replays fun _ => .ofExcept _
  | logical id left operator right =>
    refine (ih.expr left).bind fun l => ?_
    cases operator.decidesLogical l with
    | true => exact .pure _
    | false => exact ih.expr right
  | unary id operator operand =>
    exact (ih.expr operand).bind fun v => .of_replays fun _ => .ofExcept _
  | grouping id inner => exact ih.expr inner
  | call id callee paren arguments =>
    exact (ih.expr callee).bind fun f => (Deepens.collect ih.expr arguments).bind fun vs =>
      call_deepens (Deepens.untilReturn ih.stmt) hm rfl paren f vs
  | get id object name =>
    refine (ih.expr object).bind fun v => ?_
    cases v with
    | inst i => exact .of_replays fun _ => getProperty_replays i name
    | _ => exact .fail _ _
  | set id object name value =>
    refine (ih.expr object).bind fun v => ?_
    cases v with
    | inst i =>
      exact (ih.expr value).bind fun w => .of_replays fun _ =>
        (Replays.modifyStore (f := (·.setField i name.lexeme w)) fun _ hst => hst).bind
          fun _ _ => .pure trivial
    | _ => exact .fail _ _
  | this id keyword => exact lookUp_deepens id keyword
  | super id keyword method => exact superMethod_deepens id method

/-- One step of the induction, for statements. -/
theorem execute_deepens (st : Stmt) : Deepens ctx.maxDepth
    (execute ctx (n + 1) st) (execute { ctx with maxDepth := m } (n + 1) st) := by
  have hcurrent : Deepens ctx.maxDepth Run.currentScope Run.currentScope :=
    .of_replays fun _ => .currentScope
  cases st with
  | block id body =>
    refine hcurrent.bind fun current => Deepens.bind ?_ fun scope =>
      (Deepens.untilReturn ih.stmt body).inScope scope
    exact .of_replays fun _ => .make fun _ hst => hst
  | expression id e => exact (ih.expr e).bind fun v => .pure _
  | print id e =>
    exact (ih.expr e).bind fun v => .of_replays fun _ => (Replays.read _).bind fun line _ =>
      (Replays.print line).bind fun _ _ => .pure trivial
  | varDecl id name initializer =>
    cases initializer with
    | none => exact .of_replays fun _ => (Replays.define _ _).bind fun _ _ => .pure trivial
    | some e =>
      exact (ih.expr e).bind fun v => .of_replays fun _ => (Replays.define _ v).bind
        fun _ _ => .pure trivial
  | branch id condition thenBranch elseBranch =>
    refine (ih.expr condition).bind fun v => ?_
    cases v.truthy with
    | true => exact ih.stmt thenBranch
    | false =>
      cases elseBranch with
      | none => exact .pure _
      | some st => exact ih.stmt st
  | loop id condition body =>
    refine (ih.expr condition).bind fun v => ?_
    cases v.truthy with
    | true =>
      refine (ih.stmt body).bind fun c => ?_
      cases c with
      | normal => exact ih.stmt _
      | returned w => exact .pure _
    | false => exact .pure _
  | function f =>
    exact .of_replays fun _ => Replays.currentScope.bind fun scope _ =>
      (closeOver_replays (fun _ _ => trivial) _ _).bind fun id _ => (Replays.define _ _).bind
        fun _ _ => .pure trivial
  | ret id keyword value =>
    cases value with
    | none => exact .pure _
    | some e => exact (ih.expr e).bind fun v => .pure _
  | classDecl id name superclass methods =>
    have hclass : ∀ c, Deepens ctx.maxDepth (Run.declareClass name c methods)
        (Run.declareClass name c methods) := fun c =>
      .of_replays fun _ => declareClass_replays (fun _ _ _ _ => trivial) name c
    cases superclass with
    | none => exact (hclass none).bind fun _ => .pure _
    | some ref =>
      refine (ih.expr (.var ref)).bind fun v => ?_
      have hsuper : Deepens ctx.maxDepth (Run.superclass ref.name v)
          (Run.superclass ref.name v) := by
        cases v with
        | cls c => exact .pure _
        | _ => exact .fail _ _
      exact hsuper.bind fun c => (hclass (some c)).bind fun _ => .pure _

omit ih in
/-- With a higher limit a run goes the same way, up to a stack overflow. -/
theorem runsDeepen (hm : ctx.maxDepth ≤ m) (n : Nat) : RunsDeepen ctx m n := by
  induction n with
  | zero =>
    exact ⟨fun _ => ⟨fun _ => .inl rfl, fun _ => trivial⟩,
      fun _ => ⟨fun _ => .inl rfl, fun _ => trivial⟩⟩
  | succ n ih => exact ⟨evaluate_deepens ih hm, execute_deepens ih⟩

end Runs

/-! ### Interpreters -/

/-- The same settings with another limit on nested calls. -/
def Config.withLimit (c : Config) (m : Nat) (h : 0 < m) : Config :=
  { c with maxCallDepth := m, maxCallDepth_pos := h }

namespace Interpreter

/-- The same interpreter with another limit on nested calls. -/
def withLimit (i : Interpreter) (m : Nat) (h : 0 < m) : Interpreter :=
  { i with config := i.config.withLimit m h }

variable {i j : Interpreter} {m n : Nat} {h : 0 < m} {p : Program} {table : Resolution} {report : Report}

/-- A program does not change the settings. -/
theorem interpret_config (hr : i.interpret n p table = some (report, j)) : j.config = i.config := by
  unfold interpret at hr
  dsimp only at hr
  split at hr
  · split at hr <;> cases hr <;> rfl
  · cases hr
    rfl

/-- With a higher limit, for which there is the stack too, a program does the same, or it overflowed
the stack with the lower limit and prints what it printed then before anything else. -/
theorem interpret_withLimit (hm : i.config.maxCallDepth ≤ m)
    (hfits : (i.config.withLimit m h).fitsStack = i.config.fitsStack) (n : Nat) (p : Program)
    (table : Resolution) :
    (i.withLimit m h).interpret n p table =
        (i.interpret n p table).map (fun (report, j) => (report, j.withLimit m h)) ∨
      ∃ paren output j, i.interpret n p table =
          some (⟨.failed ⟨.stackOverflow i.config.maxCallDepth, paren⟩, output⟩, j) ∧
        ∀ report' j', (i.withLimit m h).interpret n p table = some (report', j') →
          output <+: report'.output := by
  cases hc : i.config.fitsStack with
  | false =>
    have hc' : (i.withLimit m h).config.fitsStack = false := hfits.trans hc
    refine .inl ?_
    rw [interpret_of_not_fits hc, interpret_of_not_fits hc']
    rfl
  | true =>
    have hc' : (i.withLimit m h).config.fitsStack = true := hfits.trans hc
    have hruns : RunsDeepen (i.learn table).context m n := runsDeepen hm n
    rw [interpret_of_fits hc, interpret_of_fits hc']
    have hboth := (Deepens.throughout hruns.stmt p).same (i.learn table).start
    have hstart : ((i.withLimit m h).learn table).start = (i.learn table).start := rfl
    have hctx : ((i.withLimit m h).learn table).context =
      { (i.learn table).context with maxDepth := m } := rfl
    rw [hstart, hctx]
    rcases hboth with he | ⟨paren, t, ho, hp⟩
    · refine .inl ?_
      rw [he]
      cases Action.throughout (execute (i.learn table).context n) p (i.learn table).start <;> rfl
    · refine .inr ⟨paren, t.printed.toList, _, by rw [ho]; rfl, fun report' j' hr => ?_⟩
      cases ho' : Action.throughout
          (execute { (i.learn table).context with maxDepth := m } n) p (i.learn table).start with
      | ok a t' =>
        rw [ho'] at hp hr
        cases hr
        exact hp
      | raised fault t' =>
        rw [ho'] at hp hr
        cases hr
        exact hp
      | outOfFuel =>
        rw [ho'] at hr
        cases hr

end Interpreter

/-! ### Sessions -/

/-- A program overflowed the stack. -/
def RunResult.Overflows (r : RunResult) : Prop :=
  ∃ output limit paren, r = .failed output ⟨.stackOverflow limit, paren⟩

theorem RunResult.not_overflows_succeeded (output : List String) :
    ¬ (succeeded output).Overflows := by
  rintro ⟨_, _, _, h⟩
  cases h

namespace Session

/-- The same session with another limit on nested calls. -/
def withLimit (s : Session) (m : Nat) (h : 0 < m) : Session :=
  { s with interpreter := s.interpreter.withLimit m h }

/-- What a session hands back for programs that it is given one after the other, and the session then. -/
inductive Yields : Session → List Program → List RunResult → Session → Prop
  | nil {s} : Yields s [] [] s
  | cons {s p r s₁ ps rs t} (hp : s.Gives p r s₁) (hps : Yields s₁ ps rs t) :
      Yields s (p :: ps) (r :: rs) t

variable {s s' t : Session} {m n : Nat} {h : 0 < m} {p : Program} {ps : List Program} {r : RunResult}

theorem Gives.config_eq (hg : s.Gives p r s') : s'.interpreter.config = s.interpreter.config := by
  obtain ⟨n, hr⟩ := hg
  rcases run_cases hr with ⟨-, -, rfl⟩ | ⟨-, report, -, hres⟩
  · rfl
  · exact Interpreter.interpret_config hres

theorem create_withLimit (registry : NativeRegistry) (config : Config) :
    create registry (config.withLimit m h) = (create registry config).map (·.withLimit m h) := by
  unfold create Interpreter.create
  simp only [Config.withLimit]
  split <;> rfl

/-- One program, with the same fuel. -/
theorem run_withLimit (hm : s.interpreter.config.maxCallDepth ≤ m)
    (hfits : (s.interpreter.config.withLimit m h).fitsStack = s.interpreter.config.fitsStack)
    (n : Nat) (p : Program) :
    (s.withLimit m h).run n p = (s.run n p).map (fun (r, t) => (r, t.withLimit m h)) ∨
      ∃ r t, s.run n p = some (r, t) ∧ r.Overflows ∧
        ∀ r' t', (s.withLimit m h).run n p = some (r', t') → r.output <+: r'.output := by
  cases he : p.resolve.hasErrors with
  | true =>
    refine .inl ?_
    unfold run
    dsimp only
    rw [if_pos he, if_pos he]
    rfl
  | false =>
    rw [run_of_resolved he, run_of_resolved he]
    rcases Interpreter.interpret_withLimit hm hfits n p p.resolve.table with
      hi | ⟨paren, output, j, hi, hprefix⟩
    · refine .inl ?_
      have hi' : (s.withLimit m h).interpreter.interpret n p p.resolve.table = _ := hi
      rw [hi']
      cases s.interpreter.interpret n p p.resolve.table <;> rfl
    · refine .inr ⟨_, _, by rw [hi]; rfl, ⟨output, _, paren, rfl⟩, fun r' t' hr => ?_⟩
      obtain ⟨⟨report, j'⟩, hj, hrt⟩ := Option.map_eq_some_iff.1 hr
      cases hrt
      rw [RunResult.output_ofReport]
      exact hprefix report j' hj

/-- One program, with as much fuel as it takes. -/
theorem gives_withLimit (hm : s.interpreter.config.maxCallDepth ≤ m)
    (hfits : (s.interpreter.config.withLimit m h).fitsStack = s.interpreter.config.fitsStack)
    (hno : ∀ r t, s.Gives p r t → ¬ r.Overflows) (r : RunResult) (t' : Session) :
    (s.withLimit m h).Gives p r t' ↔ ∃ t, s.Gives p r t ∧ t' = t.withLimit m h := by
  have hsame : ∀ n, (s.withLimit m h).run n p =
      (s.run n p).map (fun (r, t) => (r, t.withLimit m h)) := by
    intro n
    rcases run_withLimit hm hfits n p with he | ⟨r, t, hr, hover, -⟩
    · exact he
    · exact absurd hover (hno r t ⟨n, hr⟩)
  constructor
  · rintro ⟨n, hr⟩
    rw [hsame] at hr
    obtain ⟨⟨r₁, t⟩, hr₁, he⟩ := Option.map_eq_some_iff.1 hr
    cases he
    exact ⟨t, ⟨n, hr₁⟩, rfl⟩
  · rintro ⟨t, ⟨n, hr⟩, rfl⟩
    refine ⟨n, ?_⟩
    rw [hsame, hr]
    rfl

end Session

/-! ### A function that prints and calls itself -/

/-- A function that prints a line and calls itself, and a call of it. -/
def Program.printingRecursion : Program :=
  [.function ⟨0, ⟨.identifier, "f", .nil, 1⟩, [],
    [.print 1 (.literal 2 (.string "x")),
     .expression 3 (.call 4 (.var ⟨5, ⟨.identifier, "f", .nil, 1⟩⟩) ⟨.rightParen, ")", .nil, 1⟩ [])]⟩,
   .expression 6 (.call 7 (.var ⟨8, ⟨.identifier, "f", .nil, 2⟩⟩) ⟨.rightParen, ")", .nil, 2⟩ [])]

namespace Session

/-- A session that hands back one result for a program that does not overflow the stack never sees an
overflow while it is given that program alone. -/
theorem Gives.never_overflows {s t : Session} {p : Program} {r : RunResult} (hg : s.Gives p r t)
    (hr : ¬ r.Overflows) (qs : List Program) (rs : List RunResult) (t' : Session) (hqs : qs <+: [p])
    (hy : s.Yields qs rs t') : ∀ r' ∈ rs, ¬ r'.Overflows := by
  cases hy with
  | nil => exact fun r' hr' => by cases hr'
  | cons hp hps =>
    obtain ⟨rfl, hnil⟩ := List.cons_prefix_cons.1 hqs
    obtain rfl := List.prefix_nil.1 hnil
    cases hps
    obtain ⟨rfl, -⟩ := hg.unique hp
    simpa using hr

end Session

end Lox
