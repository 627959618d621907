import Lox.Proofs.Run.Account
import Lox.Proofs.Run.Splitting

/-!
# Programs with any table

An interpreter runs every program with whatever table it is given (`Interpretation`), also with one that
the resolver would never make.  The stores that a run comes to are those before and after it, at each node
that is visited, and before and after each change (`Interpretation.Reaches`).  If each change goes up in
some preorder, all of them lie between the first store and a last one, whether or not the run ends
(`Interpretation.between`).
-/

namespace Lox

/-! ### From a first store to a last one -/

/-- The stores that an event is about. -/
def Event.stores : Event → List Store
  | .visit _ _ s => [s.store]
  | .change st st' => [st, st']
  | .raise _ st => [st]

/-- A run ends with a store, normally or by a fault. -/
def Outcome.EndsWith : Outcome Store Unit → Store → Prop
  | .ok _ st, st' => st = st'
  | .raised _ st, st' => st = st'
  | .outOfFuel, _ => True

/-- The state in which a run ends, normally or by a fault. -/
def Outcome.state? {α : Type} : Outcome RunState α → Option RunState
  | .ok _ s => some s
  | .raised _ s => some s
  | .outOfFuel => none

/-- All stores of a run lie between the first one and a last one, with which the run ends if it does. -/
def Between (R : Store → Store → Prop) (M : Event → Prop) (st : Store) (o : Outcome Store Unit) : Prop :=
  ∃ last, R st last ∧ o.EndsWith last ∧ ∀ ev, M ev → ∀ st' ∈ ev.stores, R st st' ∧ R st' last

section

variable {R : Store → Store → Prop} (refl : ∀ st, R st st)
  (trans : ∀ {st st' st''}, R st st' → R st' st'' → R st st'')

include refl trans

theorem Between.account : Account (Between R) where
  less h := by
    rintro ⟨last, hlast, ho, hall⟩
    exact ⟨last, hlast, ho, fun ev hev => hall ev (h ev hev)⟩
  done st := ⟨st, refl st, rfl, fun ev hev => hev.elim⟩
  next := by
    rintro M N st st' o ⟨mid, hmid, rfl, hbefore⟩ ⟨last, hlast, ho, hafter⟩
    refine ⟨last, trans hmid hlast, ho, fun ev hev st'' hst => ?_⟩
    rcases hev with hev | hev
    · exact ⟨(hbefore ev hev st'' hst).1, trans (hbefore ev hev st'' hst).2 hlast⟩
    · exact ⟨trans hmid (hafter ev hev st'' hst).1, (hafter ev hev st'' hst).2⟩

/-- If at some nodes each change goes up, and these lead only to such nodes, then all stores of a run
at such a node lie between two. -/
theorem Between.accounts {ctx : Context} {V : Nat → Part → RunState → Prop}
    (hstep : ∀ {m t s st st'}, V (m + 1) t s → Changes ctx m t s st st' → R st st')
    (hcall : ∀ {m t s u s'}, V (m + 1) t s → Calls ctx m t s u s' → V m u s') :
    Accounts (Between R) ctx V where
  account := Between.account refl trans
  stop _ := by
    refine ⟨_, refl _, trivial, ?_⟩
    rintro ev rfl st' hst
    obtain rfl := List.mem_singleton.1 hst
    exact ⟨refl _, refl _⟩
  visit _ := by
    refine ⟨_, refl _, rfl, ?_⟩
    rintro ev rfl st' hst
    obtain rfl := List.mem_singleton.1 hst
    exact ⟨refl _, refl _⟩
  change {_ _ _ st st'} hv hc := by
    have hup := hstep hv hc
    refine ⟨st', hup, rfl, ?_⟩
    rintro ev rfl st'' hst
    simp only [Event.stores, List.mem_cons, List.not_mem_nil, or_false] at hst
    rcases hst with rfl | rfl
    · exact ⟨refl _, hup⟩
    · exact ⟨hup, refl _⟩
  raise _ _ := by
    refine ⟨_, refl _, rfl, ?_⟩
    rintro ev rfl st' hst
    obtain rfl := List.mem_singleton.1 hst
    exact ⟨refl _, refl _⟩
  call hv hc _ _ := hcall hv hc

end

/-! ### Interpretations -/

/-- A program that is given to an interpreter with a table, be it the one that the resolver makes for it
or any other, and with the fuel for its run. -/
structure Interpretation where
  interpreter : Interpreter
  program : Program
  table : Resolution
  fuel : Nat

namespace Interpretation

/-- The interpreter when the run starts: it knows the table. -/
def ready (I : Interpretation) : Interpreter := I.interpreter.learn I.table

def context (I : Interpretation) : Context := I.ready.context

/-- How the run ends, and the interpreter after it. -/
def result? (I : Interpretation) : Option (Report × Interpreter) :=
  I.interpreter.interpret I.fuel I.program I.table

/-- How the run of the statements ends. -/
def ending (I : Interpretation) : Outcome RunState Unit :=
  Action.throughout (execute I.context I.fuel) I.program I.ready.start

/-- During the run a node is evaluated or executed in a state, with so much fuel left. -/
inductive Visits (I : Interpretation) (m : Nat) (t : Part) (s : RunState) : Prop
  | mk {i : Nat} {st : Stmt} {s₁ : RunState} (hfits : I.interpreter.config.fitsStack = true)
      (hb : Action.throughout (execute I.context I.fuel) (I.program.take i) I.ready.start = .ok () s₁)
      (hi : I.program[i]? = some st) (hv : Lox.Visits I.context I.fuel (.stmt st) s₁ m t s)

/-- A store is reached during the run of a program. -/
inductive Reaches (I : Interpretation) : Store → Prop
  | start : I.Reaches I.interpreter.store
  | visit {m t s} (hv : I.Visits m t s) : I.Reaches s.store
  | before {m t s st st'} (hv : I.Visits (m + 1) t s) (hc : Changes I.context m t s st st') : I.Reaches st
  | after {m t s st st'} (hv : I.Visits (m + 1) t s) (hc : Changes I.context m t s st st') : I.Reaches st'
  | ended {report i} (hr : I.result? = some (report, i)) : I.Reaches i.store

variable {I : Interpretation} {report : Report} {i : Interpreter}

theorem Visits.call {m : Nat} {t u : Part} {s s' : RunState} (hv : I.Visits (m + 1) t s)
    (hc : Calls I.context m t s u s') : I.Visits m u s' := by
  obtain ⟨hfits, hb, hi, hv⟩ := hv
  exact .mk hfits hb hi (hv.trans (.step hc .here))

/-- The run of the statements ended in a state, and the report and the interpreter tell of it. -/
structure EndedIn (I : Interpretation) (report : Report) (i : Interpreter) (s : RunState) : Prop where
  fits : I.interpreter.config.fitsStack = true
  state : I.ending.state? = some s
  reported : (I.ending = .ok () s ∧ report.ending = .completed) ∨
    ∃ fault, I.ending = .raised fault s ∧ report.ending = Interpreter.endingOf fault
  output : report.output = s.printed.toList
  store : i.store = s.store

/-- Either there was not the stack to run anything, or the run ended in a state. -/
theorem result_cases (hr : I.result? = some (report, i)) :
    (I.interpreter.config.fitsStack = false ∧ report = ⟨.crashed .stackTooLarge, []⟩ ∧
      i.store = I.interpreter.store) ∨ ∃ s, I.EndedIn report i s := by
  cases hfits : I.interpreter.config.fitsStack with
  | false =>
    have hrefused := hr.symm.trans (Interpreter.interpret_of_not_fits hfits I.program I.table I.fuel)
    cases hrefused
    exact .inl ⟨rfl, rfl, rfl⟩
  | true =>
    have hend := hr.symm.trans (Interpreter.interpret_of_fits hfits I.program I.table I.fuel)
    change some (report, i) = I.ready.conclude I.ending at hend
    refine .inr ?_
    cases ho : I.ending with
    | ok a s =>
      rw [ho] at hend
      cases hend
      exact ⟨s, hfits, by rw [ho]; rfl, .inl ⟨ho, rfl⟩, rfl, rfl⟩
    | raised fault s =>
      rw [ho] at hend
      cases hend
      exact ⟨s, hfits, by rw [ho]; rfl, .inr ⟨fault, ho, rfl⟩, rfl, rfl⟩
    | outOfFuel =>
      rw [ho] at hend
      cases hend

section

variable {R : Store → Store → Prop} (refl : ∀ st, R st st)
  (trans : ∀ {st st' st''}, R st st' → R st' st'' → R st st'')
  (hstep : ∀ {m t s st st'}, I.Visits (m + 1) t s → Changes I.context m t s st st' → R st st')

include refl trans hstep

/-- The stores of one run lie between that before it and a last one. -/
theorem between : ∃ last, (∀ st, I.Reaches st → R I.interpreter.store st ∧ R st last) ∧
    ∀ report i, I.result? = some (report, i) → i.store = last := by
  cases hfits : I.interpreter.config.fitsStack with
  | false =>
    have hnone : ∀ {m t s}, ¬ I.Visits m t s := by
      rintro m t s ⟨h, -⟩
      cases hfits.symm.trans h
    have hend : ∀ report i, I.result? = some (report, i) → i.store = I.interpreter.store := by
      intro report i hr
      rcases result_cases hr with ⟨-, -, hsame⟩ | ⟨s, h⟩
      · exact hsame
      · cases hfits.symm.trans h.fits
    refine ⟨I.interpreter.store, fun st hst => ?_, hend⟩
    cases hst with
    | start => exact ⟨refl _, refl _⟩
    | visit hv => exact absurd hv hnone
    | before hv => exact absurd hv hnone
    | after hv => exact absurd hv hnone
    | ended hr =>
      rw [hend _ _ hr]
      exact ⟨refl _, refl _⟩
  | true =>
    obtain ⟨last, hlast, hends, hall⟩ := (Between.accounts refl trans hstep Visits.call).program
      (n := I.fuel) (p := I.program) (s := I.ready.start)
      fun k st s' hi hb _ => .mk hfits hb hi .here
    have hend : ∀ report i, I.result? = some (report, i) → i.store = last := by
      intro report i hr
      rcases result_cases hr with ⟨hno, -⟩ | ⟨s, h⟩
      · cases hfits.symm.trans hno
      · change I.ending.store.EndsWith last at hends
        rcases h.reported with ⟨ho, -⟩ | ⟨fault, ho, -⟩
        · rw [ho] at hends
          exact h.store.trans hends
        · rw [ho] at hends
          exact h.store.trans hends
    refine ⟨last, fun st hst => ?_, hend⟩
    cases hst with
    | start => exact ⟨refl _, hlast⟩
    | @visit m t s hv =>
      obtain ⟨-, hb, hi, hv⟩ := hv
      exact hall (.visit m t s) ⟨_, _, hi, _, hb, .visit hv⟩ _ List.mem_cons_self
    | @before m t s _ st' hv hc =>
      obtain ⟨-, hb, hi, hv⟩ := hv
      exact hall (.change st st') ⟨_, _, hi, _, hb, .change hv hc⟩ _ List.mem_cons_self
    | @after m t s st₁ _ hv hc =>
      obtain ⟨-, hb, hi, hv⟩ := hv
      exact hall (.change st₁ st) ⟨_, _, hi, _, hb, .change hv hc⟩ _
        (List.mem_cons_of_mem _ List.mem_cons_self)
    | ended hr =>
      rw [hend _ _ hr]
      exact ⟨hlast, refl _⟩

end

end Interpretation

/-- What interpreters may have come to: new ones, and those that have run a program with any table. -/
inductive Interpreter.Reachable (registry : NativeRegistry) (config : Config) : Interpreter → Prop
  | create {i : Interpreter} (h : Interpreter.create registry config = .ok i) : Reachable registry config i
  | interpret {I : Interpretation} {report : Report} {i : Interpreter}
      (h : Reachable registry config I.interpreter) (hr : I.result? = some (report, i)) :
      Reachable registry config i

end Lox
