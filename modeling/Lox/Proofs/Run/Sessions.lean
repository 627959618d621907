import Lox.Session
import Lox.Proofs.Check
import Lox.Proofs.Run.History

/-!
# Sessions never crash

A session that is given well-formed programs hands back a result for each: the static errors, or what
the program did until it was completed or failed by an error of its own.  No other fault arises,
whatever functions, methods and instances of earlier programs the program uses.  The one exception is
a limit on nested calls for which the host cannot set aside the stack; then no program runs.
-/

namespace Lox

/-- Programs that are given to a session one after the other, and the session after them. -/
inductive Session.Given (registry : NativeRegistry) (config : Config) : List Program → Session → Prop
  | create {s : Session} (h : Session.create registry config = .ok s) : Given registry config [] s
  | run {ps : List Program} {p : Program} {fuel : Nat} {result : RunResult} {s s' : Session}
      (h : Given registry config ps s) (hr : s.run fuel p = some (result, s')) :
      Given registry config (ps ++ [p]) s'

/-- A program of a session as an episode of its interpreter. -/
def Session.episode (s : Session) (fuel : Nat) (p : Program) : Episode := ⟨s.interpreter, p, fuel⟩

namespace Session

variable {registry : NativeRegistry} {config : Config} {ps : List Program} {p : Program}
  {fuel : Nat} {result : RunResult} {s s' : Session}

/-- A program either breaks static rules, or is an episode of the interpreter. -/
theorem run_cases (h : s.run fuel p = some (result, s')) :
    (p.resolve.hasErrors = true ∧ result = .rejected p.resolve.errors ∧ s' = s) ∨
      (p.resolve.hasErrors = false ∧ ∃ report, result = .ofReport report ∧
        (s.episode fuel p).result? = some (report, s'.interpreter)) := by
  unfold run at h
  dsimp only at h
  split at h
  · rename_i he
    cases h
    exact .inl ⟨he, rfl, rfl⟩
  · rename_i he
    split at h
    · cases h
    · rename_i report i hi
      cases h
      exact .inr ⟨eq_false_of_ne_true he, report, rfl, hi⟩

/-- The programs of a session that broke no static rule, in their order, are a history of its
interpreter. -/
theorem Given.exists_history_filter (h : Given registry config ps s) :
    ∃ Es, History registry config Es s.interpreter ∧
      programs Es = ps.filter fun p => !p.resolve.hasErrors := by
  induction h with
  | create h =>
    obtain ⟨i, hi, rfl⟩ := Session.create_eq h
    exact ⟨[], .create hi, rfl⟩
  | @run ps p fuel result s s' _ hr ih =>
    obtain ⟨Es, hE, hps⟩ := ih
    rw [List.filter_append]
    rcases run_cases hr with ⟨he, -, rfl⟩ | ⟨he, report, -, hres⟩
    · exact ⟨Es, hE, by simp [hps, he]⟩
    · refine ⟨Es ++ [s.episode fuel p], .interpret hE hres, ?_⟩
      rw [programs_append, hps]
      simp [episode, he]

/-- The programs of a session that were run are a history of its interpreter. -/
theorem Given.exists_history (h : Given registry config ps s) :
    ∃ Es, History registry config Es s.interpreter ∧
      ∀ p ∈ programs Es, p ∈ ps ∧ p.resolve.hasErrors = false := by
  obtain ⟨Es, hE, hps⟩ := h.exists_history_filter
  refine ⟨Es, hE, fun p hp => ?_⟩
  rw [hps] at hp
  simpa using List.mem_filter.1 hp

end Session

namespace Episode

variable {E : Episode} {Es : List Episode} {report : Report} {i : Interpreter}

/-- Where the programs obey the strict discipline, if all operators and literals can be evaluated, a run
ends by itself or by an error of the program. -/
theorem Ended.not_crashed {hf : Fits True (Es ++ [E])} {ht} (hev : (E.setting Es True hf ht).Evaluable)
    (hs : StoreOk (E.setting Es True hf ht) E.interpreter.store)
    (hscope : E.interpreter.scope = E.interpreter.globals)
    (hfits : E.interpreter.config.fitsStack = true) (h : E.Ended report i) :
    report.ending = .completed ∨ ∃ e, report.ending = .failed e := by
  cases h with
  | refused hno =>
    rw [hfits] at hno
    cases hno
  | completed => exact .inl rfl
  | raised _ hrun =>
    have hsafe := run_safe hs hscope hfits
    rw [hrun] at hsafe
    rcases hsafe.2.error trivial hev with ⟨e, rfl⟩ | ⟨x, d, o, -, hx⟩
    · exact .inr ⟨e, rfl⟩
    · exact absurd (Setting.sure_of_strict _ trivial o x) hx

/-- Without the stack for it nothing is run. -/
theorem Ended.refused_of (h : E.Ended report i) (hfits : E.interpreter.config.fitsStack = false) :
    report = ⟨.crashed .stackTooLarge, []⟩ := by
  cases h with
  | refused => rfl
  | completed hyes =>
    rw [hfits] at hyes
    cases hyes
  | raised hyes =>
    rw [hfits] at hyes
    cases hyes

end Episode

/-- A class `A`, and a variable `f` that holds a method of an instance of it. -/
def Program.boundMethod : Program :=
  [.classDecl 0 ⟨.identifier, "A", .nil, 1⟩ none
    [⟨1, ⟨.identifier, "m", .nil, 1⟩, [⟨.identifier, "x", .nil, 1⟩],
      [.print 2 (.this 3 ⟨.kwThis, "this", .nil, 1⟩),
       .print 4 (.var ⟨5, ⟨.identifier, "x", .nil, 1⟩⟩)]⟩],
   .varDecl 6 ⟨.identifier, "f", .nil, 2⟩ (some
    (.get 7 (.call 8 (.var ⟨9, ⟨.identifier, "A", .nil, 2⟩⟩) ⟨.rightParen, ")", .nil, 2⟩ [])
      ⟨.identifier, "m", .nil, 2⟩))]

/-- A call of what the variable `f` holds. -/
def Program.callOfF : Program :=
  [.expression 10 (.call 11 (.var ⟨12, ⟨.identifier, "f", .nil, 1⟩⟩) ⟨.rightParen, ")", .nil, 1⟩
    [.literal 13 (.string "x")])]

end Lox
