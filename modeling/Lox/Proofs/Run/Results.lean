import Lox.Proofs.Run.Accumulation
import Lox.Proofs.Run.Endings
import Lox.Proofs.Run.Reads

/-!
# What a session hands back

A result is a rejection, a success or a failure (`ResultKind`), and it tells of its own run only: its
diagnostics are those of the resolver or the one error that ended the run, and its lines are those that
were printed at the nodes the run visited, up to the error, which is the last thing that happens.  The
stream has the lines of all runs, also of those that crashed.

A session writes to three places: the lines and the errors of the current run, which are cleared when
the next one begins, and the stream, which is never cleared (`Recorder`).  What they hold when a run
begins makes no difference to its result.
-/

namespace Lox

/-! ### Runs of programs -/

/-- The element at which a run over a list stops. -/
theorem Action.throughout_raised {σ α : Type} {f : α → Action σ Completion} {as : List α} {s s' : σ}
    {fault : Fault} (h : Action.throughout f as s = .raised fault s') :
    ∃ k a s₁, as[k]? = some a ∧ Action.throughout f (as.take k) s = .ok () s₁ ∧
      f a s₁ = .raised fault s' := by
  induction as generalizing s with
  | nil => cases h
  | cons a as ih =>
    rw [Action.throughout, Action.bind_apply] at h
    cases ha : f a s with
    | ok c s₁ =>
      rw [ha] at h
      obtain ⟨k, b, s₂, hk, hb, hf⟩ := ih h
      refine ⟨k + 1, b, s₂, hk, ?_, hf⟩
      rw [List.take_succ_cons, Action.throughout, Action.bind_apply, ha]
      exact hb
    | raised fault' s₁ =>
      rw [ha] at h
      cases h
      exact ⟨0, a, s, rfl, rfl, ha⟩
    | outOfFuel =>
      rw [ha] at h
      cases h

namespace Interpretation

/-- Line number `k` is printed during the run of a program. -/
inductive Prints (I : Interpretation) : Nat → String → Prop
  | mk {m : Nat} {id : NodeId} {e : Expr} {s s' : RunState} {v : Value}
      (hv : I.Visits (m + 1) (.stmt (.print id e)) s) (he : evaluate I.context m e s = .ok v s') :
      I.Prints s'.printed.size (s'.store.display v)

variable {I : Interpretation} {report : Report} {i : Interpreter}

/-- The lines that are reported are those that were printed, by their numbers. -/
theorem output_iff (hr : I.result? = some (report, i)) (k : Nat) (line : String) :
    report.output[k]? = some line ↔ I.Prints k line := by
  rcases result_cases hr with ⟨hfits, rfl, -⟩ | ⟨s, h⟩
  · constructor
    · intro hline
      cases hline
    · rintro ⟨⟨hyes, -⟩, -⟩
      cases hfits.symm.trans hyes
  · rw [h.output]
    constructor
    · intro hline
      have hlogs : Logs I.Prints I.ready.start I.ending := by
        refine .throughout fun j st s₁ hj hb => ?_
        refine ((runs_logged I.context I.fuel).stmt st s₁).mono fun k line hp => ?_
        cases hp with
        | mk hv he => exact .mk (.mk h.fits hb hj hv) he
      exact (hlogs.of_state? h.state).new k line (Nat.zero_le k) hline
    · rintro ⟨⟨-, hb, hj, hv⟩, he⟩
      have hp : Lox.Prints I.context I.fuel _ _ _ _ := .mk hv he
      exact hp.leadsTo (Visits.leadsTo_program hj hb .here) h.state

/-- A node that is visited is run to its end, or the fault that ends it is the end of the whole run: no
store and no line comes after it. -/
theorem visited_ends {s : RunState} (h : I.EndedIn report i s) {m : Nat} {t : Part} {s₁ : RunState}
    (hv : I.Visits m t s₁) :
    (∃ s₂, t.ending I.context m s₁ = .ok () s₂) ∨
      ∃ fault s₂, t.ending I.context m s₁ = .raised fault s₂ ∧ I.ending = .raised fault s ∧
        s₂.store = s.store ∧ s₂.printed = s.printed := by
  obtain ⟨-, hb, hj, hv⟩ := hv
  have hlead : (t.ending I.context m s₁).LeadsTo I.ending := hv.leadsTo_program hj hb
  have hstate := h.state
  cases ht : t.ending I.context m s₁ with
  | ok a s₂ => exact .inl ⟨s₂, rfl⟩
  | raised fault s₂ =>
    rw [ht] at hlead
    obtain ⟨s₃, ho, hstore, hprinted⟩ := hlead
    rw [ho] at hstate
    cases hstate
    exact .inr ⟨fault, s₂, rfl, ho, hstore.symm, hprinted.symm⟩
  | outOfFuel =>
    rw [ht] at hlead
    rw [show I.ending = .outOfFuel from hlead] at hstate
    cases hstate

/-- No statement is run after one that raised a fault. -/
theorem take_le_of_raised {k j : Nat} {st : Stmt} {s s₁ s₂ : RunState} {fault : Fault}
    (hk : I.program[k]? = some st)
    (hb : Action.throughout (execute I.context I.fuel) (I.program.take k) I.ready.start = .ok () s₁)
    (hraised : execute I.context I.fuel st s₁ = .raised fault s₂)
    (hj : Action.throughout (execute I.context I.fuel) (I.program.take j) I.ready.start = .ok () s) :
    j ≤ k := by
  by_contra hlt
  have hk' : (I.program.take j)[k]? = some st := by
    rw [List.getElem?_take_of_lt (Nat.lt_of_not_le hlt), hk]
  have hb' : Action.throughout (execute I.context I.fuel) ((I.program.take j).take k)
      I.ready.start = .ok () s₁ := by
    rw [List.take_take, Nat.min_eq_left (Nat.le_of_lt (Nat.lt_of_not_le hlt))]
    exact hb
  have hlead := Outcome.LeadsTo.throughout (execute_logs I.context I.fuel) hk' hb'
  rw [hraised, hj] at hlead
  obtain ⟨s₃, ho, -⟩ := hlead
  cases ho

/-- A fault stops the run of a program in a state: no statement is run after the one that raises it, and
of the nodes that were visited those that did not come to their end were stopped by it, with the store
and the lines of that state. -/
structure StopsAt (I : Interpretation) (fault : Fault) (s : RunState) : Prop where
  statement : ∃ k st s₁, I.program[k]? = some st ∧
    Action.throughout (execute I.context I.fuel) (I.program.take k) I.ready.start = .ok () s₁ ∧
    execute I.context I.fuel st s₁ = .raised fault s ∧
    ∀ j s₂, Action.throughout (execute I.context I.fuel) (I.program.take j) I.ready.start =
      .ok () s₂ → j ≤ k
  visited : ∀ m t s₁, I.Visits m t s₁ → (∃ s₂, t.ending I.context m s₁ = .ok () s₂) ∨
    ∃ s₂, t.ending I.context m s₁ = .raised fault s₂ ∧ s₂.store = s.store ∧ s₂.printed = s.printed

theorem EndedIn.stopsAt {s : RunState} {fault : Fault} (h : I.EndedIn report i s)
    (ho : I.ending = .raised fault s) : I.StopsAt fault s where
  statement := by
    obtain ⟨k, st, s₁, hk, hb, hraised⟩ := Action.throughout_raised ho
    exact ⟨k, st, s₁, hk, hb, hraised, fun j s₂ hj => take_le_of_raised hk hb hraised hj⟩
  visited m t s₁ hv := by
    rcases visited_ends h hv with hok | ⟨fault', s₂, hraised, ho', hstore, hprinted⟩
    · exact .inl hok
    · cases ho.symm.trans ho'
      exact .inr ⟨s₂, hraised, hstore, hprinted⟩

/-- A program that is completed leaves no visited node without its end. -/
theorem EndedIn.finished {s : RunState} (h : I.EndedIn report i s) (ho : I.ending = .ok () s) {m : Nat}
    {t : Part} {s₁ : RunState} (hv : I.Visits m t s₁) : ∃ s₂, t.ending I.context m s₁ = .ok () s₂ := by
  rcases visited_ends h hv with hok | ⟨fault, s₂, -, ho', -⟩
  · exact hok
  · cases ho.symm.trans ho'

end Interpretation

/-! ### Codes -/

/-- A diagnostic has one of the codes of a series: its name and two digits. -/
def Diagnostic.InSeries (d : Diagnostic) (series : String) : Prop :=
  ∃ a b : Char, a.isDigit ∧ b.isDigit ∧ d.code = series ++ String.ofList [a, b]

theorem StaticError.inSeries (e : StaticError) : e.diagnostic.InSeries "E3" := by
  have hcode : ∃ b : Char, b.isDigit ∧ e.cause.code = "E3" ++ String.ofList ['0', b] := by
    cases e.cause
    exacts [⟨'1', rfl, rfl⟩, ⟨'2', rfl, rfl⟩, ⟨'3', rfl, rfl⟩, ⟨'4', rfl, rfl⟩, ⟨'5', rfl, rfl⟩,
      ⟨'6', rfl, rfl⟩, ⟨'7', rfl, rfl⟩, ⟨'8', rfl, rfl⟩]
  obtain ⟨b, hb, hcode⟩ := hcode
  exact ⟨'0', b, rfl, hb, hcode⟩

theorem RuntimeError.inSeries (e : RuntimeError) : e.diagnostic.InSeries "E4" := by
  have hcode : ∃ b : Char, b.isDigit ∧ e.cause.code = "E4" ++ String.ofList ['0', b] := by
    cases e.cause
    exacts [⟨'1', rfl, rfl⟩, ⟨'1', rfl, rfl⟩, ⟨'1', rfl, rfl⟩, ⟨'2', rfl, rfl⟩, ⟨'3', rfl, rfl⟩,
      ⟨'4', rfl, rfl⟩, ⟨'5', rfl, rfl⟩, ⟨'6', rfl, rfl⟩, ⟨'7', rfl, rfl⟩, ⟨'7', rfl, rfl⟩,
      ⟨'8', rfl, rfl⟩]
  obtain ⟨b, hb, hcode⟩ := hcode
  exact ⟨'0', b, rfl, hb, hcode⟩

/-! ### The accumulators of a session -/

/-- What a run hands back if it does not crash. -/
structure Summary where
  success : Bool
  output : List String
  diagnostics : List Diagnostic
  staticErrors : Bool
  runtimeError : Bool

namespace RunResult

/-- The errors that are reported while the program runs. -/
def runtimeErrors : RunResult → List RuntimeError
  | failed _ e => [e]
  | _ => []

/-- A crash hands nothing back. -/
def summary? : RunResult → Option Summary
  | crashed .. => none
  | r => some ⟨r.success, r.output, r.diagnostics, r.hasStaticErrors, r.hasRuntimeError⟩

end RunResult

/-- Where a session writes to: the lines and the errors of the current run, and the stream. -/
structure Recorder where
  lines : List String
  errors : List RuntimeError
  stream : String

namespace Recorder

/-- Each line goes to the lines of the run and to the stream. -/
def write (c : Recorder) (line : String) : Recorder :=
  { c with lines := c.lines ++ [line], stream := c.stream ++ textOfLines [line] }

def report (c : Recorder) (e : RuntimeError) : Recorder := { c with errors := c.errors ++ [e] }

/-- What is done when a run begins. -/
def clear (c : Recorder) : Recorder := { c with lines := [], errors := [] }

/-- What is handed back when a run has ended. -/
def summary (c : Recorder) (completed : Bool) : Summary :=
  ⟨completed, c.lines, c.errors.map RuntimeError.diagnostic, false, !completed⟩

/-- A run that writes to a recorder, and the interpreter and the recorder after it. -/
def run (n : Nat) (c : Recorder) (i : Interpreter) (p : Program) :
    Option (Option Summary × Interpreter × Recorder) :=
  let resolved := p.resolve
  if resolved.hasErrors then
    some (some ⟨false, [], resolved.diagnostics, true, false⟩, i, c.clear)
  else
    match i.interpret n p resolved.table with
    | none => none
    | some (report, i) =>
      let c := report.output.foldl write c.clear
      match report.ending with
      | .completed => some (some (c.summary true), i, c)
      | .failed e => some (some ((c.report e).summary false), i, c.report e)
      | .crashed _ => some (none, i, c)

theorem foldl_write (ls : List String) (c : Recorder) :
    ls.foldl write c = { c with lines := c.lines ++ ls, stream := c.stream ++ textOfLines ls } := by
  induction ls generalizing c with
  | nil => simp [textOfLines]
  | cons l ls ih =>
    rw [List.foldl_cons, ih, ← List.singleton_append, textOfLines_append]
    simp [write, String.append_assoc]

/-- A run comes to the same whatever lines and errors there were before. -/
theorem run_eq (n : Nat) (c : Recorder) (i : Interpreter) (p : Program) :
    c.run n i p = (Session.run n ⟨i, c.stream⟩ p).map fun (r, s) =>
      (r.summary?, s.interpreter, ⟨r.output, r.runtimeErrors, s.stream⟩) := by
  unfold run
  dsimp only
  cases he : p.resolve.hasErrors with
  | true =>
    unfold Session.run
    dsimp only
    rw [if_pos rfl, if_pos he]
    rfl
  | false =>
    rw [if_neg (by simp), Session.run_of_resolved he]
    cases i.interpret n p p.resolve.table with
    | none => rfl
    | some x =>
      obtain ⟨⟨ending, output⟩, j⟩ := x
      simp only [foldl_write, Option.map_some]
      cases ending with
      | completed => rfl
      | failed e => rfl
      | crashed fault => rfl

end Recorder

/-! ### Results -/

/-- What a result can be. -/
inductive ResultKind
  | rejection | success | failure

namespace Session

/-- A program of a session, with its own table. -/
def interpretation (s : Session) (p : Program) (n : Nat) : Interpretation :=
  ⟨s.interpreter, p, p.resolve.table, n⟩

/-- A program is rejected for what a resolver of its own finds, and the session is as it was. -/
structure Rejects (s : Session) (p : Program) (r : RunResult) (s' : Session) : Prop where
  success : r.success = false
  staticErrors : r.hasStaticErrors = true
  runtimeError : r.hasRuntimeError = false
  diagnostics : r.diagnostics ≠ []
  codes : ∀ d ∈ r.diagnostics, d.InSeries "E3"
  fresh : ∀ earlier : Resolver, r.diagnostics = (earlier.resolve p).diagnostics
  output : r.output = []
  unchanged : s' = s

/-- A program is completed: every node that is visited comes to its end, and the lines are those that
were printed. -/
structure Succeeds (s : Session) (p : Program) (n : Nat) (r : RunResult) : Prop where
  accepted : p.resolve.hasErrors = false
  success : r.success = true
  staticErrors : r.hasStaticErrors = false
  runtimeError : r.hasRuntimeError = false
  diagnostics : r.diagnostics = []
  output : ∀ i line, r.output[i]? = some line ↔ (s.interpretation p n).Prints i line
  finished : ∀ m t s₁, (s.interpretation p n).Visits m t s₁ →
    ∃ s₂, t.ending (s.interpretation p n).context m s₁ = .ok () s₂

/-- A program fails by an error, which is the one diagnostic and stops the run: the lines are those that
were printed until then, and the store is as it was then. -/
structure Fails (s : Session) (p : Program) (n : Nat) (r : RunResult) (s' : Session) : Prop where
  accepted : p.resolve.hasErrors = false
  success : r.success = false
  staticErrors : r.hasStaticErrors = false
  runtimeError : r.hasRuntimeError = true
  output : ∀ i line, r.output[i]? = some line ↔ (s.interpretation p n).Prints i line
  stopped : ∃ e s₁, r.diagnostics = [RuntimeError.diagnostic e] ∧ e.diagnostic.InSeries "E4" ∧
    (s.interpretation p n).StopsAt (.error e) s₁ ∧ r.output = s₁.printed.toList ∧
    s'.interpreter.store = s₁.store

/-- A result is of a kind. -/
def HasKind (s : Session) (p : Program) (n : Nat) (r : RunResult) (s' : Session) : ResultKind → Prop
  | .rejection => s.Rejects p r s'
  | .success => s.Succeeds p n r
  | .failure => s.Fails p n r s'

variable {s s' : Session} {p : Program} {n : Nat} {r : RunResult}

theorem rejects_of_errors (h : p.resolve.hasErrors = true) :
    s.Rejects p (.rejected p.resolve.errors) s where
  success := rfl
  staticErrors := rfl
  runtimeError := rfl
  diagnostics hnil := by
    have hempty : p.resolve.errors = [] := by simpa [RunResult.diagnostics] using hnil
    simp [Resolver.hasErrors, hempty] at h
  codes d hd := by
    obtain ⟨e, -, rfl⟩ := List.mem_map.1 hd
    exact e.inSeries
  fresh _ := rfl
  output := rfl
  unchanged := rfl

/-- No result is of two kinds. -/
theorem HasKind.unique {k k' : ResultKind} (h : s.HasKind p n r s' k) (h' : s.HasKind p n r s' k') :
    k = k' := by
  cases k <;> cases k'
  case rejection.rejection => rfl
  case success.success => rfl
  case failure.failure => rfl
  case rejection.success => cases h.staticErrors.symm.trans h'.staticErrors
  case rejection.failure => cases h.staticErrors.symm.trans h'.staticErrors
  case success.rejection => cases h.staticErrors.symm.trans h'.staticErrors
  case success.failure => cases h.success.symm.trans h'.success
  case failure.rejection => cases h.staticErrors.symm.trans h'.staticErrors
  case failure.success => cases h.success.symm.trans h'.success

/-- The lines of a program that is not rejected are those printed during its run, however it ends. -/
theorem output_iff (h : s.run n p = some (r, s')) (he : p.resolve.hasErrors = false) (i : Nat)
    (line : String) : r.output[i]? = some line ↔ (s.interpretation p n).Prints i line := by
  rcases run_cases h with ⟨he', -⟩ | ⟨-, report, rfl, hres⟩
  · cases he.symm.trans he'
  · rw [RunResult.output_ofReport]
    have hres : (s.interpretation p n).result? = some (report, s'.interpreter) := hres
    exact Interpretation.output_iff hres i line

/-- A run that does not crash has a result of some kind. -/
theorem exists_kind (h : s.run n p = some (r, s')) (hr : ∀ output fault, r ≠ .crashed output fault) :
    ∃ k, s.HasKind p n r s' k := by
  have houtput := output_iff h
  rcases run_cases h with ⟨he, rfl, rfl⟩ | ⟨he, report, rfl, hres⟩
  · exact ⟨.rejection, rejects_of_errors he⟩
  · have hres : (s.interpretation p n).result? = some (report, s'.interpreter) := hres
    obtain ⟨ending, output⟩ := report
    rcases Interpretation.result_cases hres with ⟨-, hrefused, -⟩ | ⟨s₁, hend⟩
    · cases hrefused
      exact absurd rfl (hr _ _)
    · rcases hend.reported with ⟨ho, hcompleted⟩ | ⟨fault, ho, hraised⟩
      · obtain rfl : ending = .completed := hcompleted
        exact ⟨.success, he, rfl, rfl, rfl, rfl, houtput he, fun m t s₂ hv => hend.finished ho hv⟩
      · obtain rfl : ending = Interpreter.endingOf fault := hraised
        cases fault with
        | error e =>
          refine ⟨.failure, he, rfl, rfl, rfl, houtput he, e, s₁, rfl, e.inSeries, hend.stopsAt ho, ?_, ?_⟩
          · exact hend.output
          · exact hend.store
        | _ => exact absurd rfl (hr _ _)

/-- One run adds its lines to the stream. -/
theorem stream_of_run (h : s.run n p = some (r, s')) :
    s'.stream = s.stream ++ textOfLines r.output := by
  cases he : p.resolve.hasErrors with
  | true =>
    unfold run at h
    dsimp only at h
    rw [if_pos he] at h
    cases h
    simp [RunResult.output, textOfLines]
  | false =>
    rw [run_of_resolved he] at h
    obtain ⟨⟨report, i⟩, -, hresult⟩ := Option.map_eq_some_iff.1 h
    cases hresult
    rw [RunResult.output_ofReport]

/-- Many runs add all of their lines. -/
theorem Yields.stream_eq {ps : List Program} {rs : List RunResult} (h : s.Yields ps rs s') :
    s'.stream = s.stream ++ textOfLines (rs.flatMap fun r => r.output) := by
  induction h with
  | nil => simp [textOfLines]
  | cons hp _ ih =>
    obtain ⟨n, hr⟩ := hp
    rw [ih, stream_of_run hr, List.flatMap_cons, textOfLines_append, String.append_assoc]

/-- In whatever state a session is, and so after any history: a run that does not crash gives exactly one
kind of result; the lines of a run that is not rejected are those that were printed during it, also if
it crashes; the lines and errors that were recorded before make no difference; and the stream of a new
session is all the lines of its runs. -/
theorem results_consistent :
    (∀ (s : Session) p n r s', s.run n p = some (r, s') →
      ((∀ output fault, r ≠ .crashed output fault) → ∃! k, s.HasKind p n r s' k) ∧
      (p.resolve.hasErrors = false →
        ∀ i line, r.output[i]? = some line ↔ (s.interpretation p n).Prints i line)) ∧
    (∀ n (c : Recorder) i p, c.run n i p = (run n ⟨i, c.stream⟩ p).map fun (r, s') =>
      (r.summary?, s'.interpreter, ⟨r.output, r.runtimeErrors, s'.stream⟩)) ∧
    ∀ registry config (s₀ : Session), create registry config = .ok s₀ →
      ∀ ps rs s, s₀.Yields ps rs s → s.stream = textOfLines (rs.flatMap fun r => r.output) := by
  refine ⟨fun s p n r s' h => ⟨fun hr => ?_, output_iff h⟩, Recorder.run_eq, ?_⟩
  · obtain ⟨k, hk⟩ := exists_kind h hr
    exact ⟨k, hk, fun k' hk' => hk'.unique hk⟩
  · intro registry config s₀ hcreate ps rs s hy
    obtain ⟨i, -, rfl⟩ := create_eq hcreate
    rw [hy.stream_eq, String.empty_append]

/-- After a crash, a failure and a rejection the farewell succeeds with its own line alone, and the
stream has the lines of them all. -/
theorem farewell_consistent :
    ∃ s₀ s s' r₁ r₂ r₃ r, create {} { natives := [] } = .ok s₀ ∧
      s₀.Yields [.skippedBranch, .stray, .twice] [r₁, r₂, r₃] s ∧
      s.run 9 .farewell = some (r, s') ∧ r₁ = .crashed ["b"] (.scope (.unbound "a" 0)) ∧
      r₂ = .failed ["nil"] ⟨.undefinedVariable, ⟨.identifier, "z", .nil, 3⟩⟩ ∧
      r₃ = .rejected [⟨.duplicateDeclaration, ⟨.identifier, "y", .nil, 2⟩⟩] ∧
      r = .succeeded ["end"] ∧ s.stream = "b\nnil\n" ∧ ∃! k, s.HasKind .farewell 9 r s' k := by
  have hnew : ∃ s₀, create {} { natives := [] } = .ok s₀ ∧
      ((s₀.run 9 .skippedBranch).bind fun r₁ => (r₁.2.run 9 .stray).bind fun r₂ =>
        (r₂.2.run 9 .twice).bind fun r₃ => (r₃.2.run 9 .farewell).map fun r =>
          [r₁.1, r₂.1, r₃.1, r.1]) =
        some [.crashed ["b"] (.scope (.unbound "a" 0)),
          .failed ["nil"] ⟨.undefinedVariable, ⟨.identifier, "z", .nil, 3⟩⟩,
          .rejected [⟨.duplicateDeclaration, ⟨.identifier, "y", .nil, 2⟩⟩], .succeeded ["end"]] :=
    ⟨_, rfl, by decide +kernel⟩
  obtain ⟨s₀, hcreate, hruns⟩ := hnew
  obtain ⟨⟨r₁, s₁⟩, hfirst, hruns⟩ := Option.bind_eq_some_iff.1 hruns
  obtain ⟨⟨r₂, s₂⟩, hsecond, hruns⟩ := Option.bind_eq_some_iff.1 hruns
  obtain ⟨⟨r₃, s⟩, hthird, hruns⟩ := Option.bind_eq_some_iff.1 hruns
  obtain ⟨⟨r, s'⟩, hfourth, hresults⟩ := Option.map_eq_some_iff.1 hruns
  cases hresults
  have hyields : s₀.Yields [.skippedBranch, .stray, .twice] [_, _, _] s :=
    .cons ⟨9, hfirst⟩ (.cons ⟨9, hsecond⟩ (.cons ⟨9, hthird⟩ .nil))
  obtain ⟨hkinds, -, hstream⟩ := results_consistent
  refine ⟨s₀, s, s', _, _, _, _, hcreate, hyields, hfourth, rfl, rfl, rfl, rfl, ?_, ?_⟩
  · rw [hstream {} { natives := [] } s₀ hcreate _ _ s hyields]
    decide
  · exact (hkinds s .farewell 9 _ s' hfourth).1 fun output fault h => by cases h

end Session

end Lox
