import Lox.Session
import Lox.Proofs.Check
import Lox.Proofs.Scoping.Sequence
import Lox.Proofs.Run.Replay
import Lox.Proofs.Run.Sessions

/-!
# Splitting a program over several runs

A session that is given one program after another does what it would do if it were given both as one
program: the table grows beforehand by entries of nodes that no function there is has, and neither the
way back to the globals nor the lines printed before make a difference (`Session.run_append`).  How
much fuel each of the runs needs does not matter.
-/

namespace Lox

theorem Resolution.union_assoc (t u v : Resolution) : t ∪ u ∪ v = t ∪ (u ∪ v) := by
  refine Std.ExtTreeMap.ext_getElem? fun id => ?_
  simp only [Std.ExtTreeMap.getElem?_union, Option.or_assoc]

/-- A table makes no difference at a node on top of another one. -/
def Resolution.Leaves (u t : Resolution) (id : NodeId) : Prop := (t ∪ u)[id]? = t[id]?

theorem Resolution.leaves_of_none {u : Resolution} {id : NodeId} (h : u[id]? = none)
    (t : Resolution) : u.Leaves t id := by
  rw [Leaves, Std.ExtTreeMap.getElem?_union, h, Option.none_or]

theorem Resolution.leaves_of_same {u t : Resolution} {id : NodeId} {d : Nat} (hu : u[id]? = some d)
    (ht : t[id]? = some d) : u.Leaves t id := by
  rw [Leaves, Std.ExtTreeMap.getElem?_union, hu, ht, Option.some_or]

/-! ### Interpreters -/

namespace Interpreter

/-- What a run comes to that ended so. -/
def conclude (i : Interpreter) : Outcome RunState Unit → Option (Report × Interpreter)
  | .ok _ s => some (⟨.completed, s.printed.toList⟩, (i.resume s).atRest)
  | .raised fault s => some (⟨endingOf fault, s.printed.toList⟩, (i.resume s).atRest)
  | .outOfFuel => none

variable {i : Interpreter} {p q : Program} {n k : Nat}

theorem interpret_of_fits (hfits : i.config.fitsStack = true) (p : Program) (table : Resolution)
    (n : Nat) : i.interpret n p table = (i.learn table).conclude
      (Action.throughout (execute (i.learn table).context n) p (i.learn table).start) := by
  unfold interpret conclude
  exact if_pos hfits

theorem interpret_of_not_fits (hfits : i.config.fitsStack = false) (p : Program)
    (table : Resolution) (n : Nat) : i.interpret n p table =
      some (⟨.crashed .stackTooLarge, []⟩, (i.learn table).atRest) := by
  unfold interpret
  exact if_neg (by simpa [learn] using hfits)

theorem endingOf_ne_completed (fault : Fault) : endingOf fault ≠ .completed := by
  cases fault <;> simp [endingOf]

/-- More fuel never changes a run that ends. -/
theorem interpret_mono {table : Resolution} {x : Report × Interpreter}
    (h : i.interpret n p table = some x) (hnk : n ≤ k) : i.interpret k p table = some x := by
  cases hfits : i.config.fitsStack with
  | false =>
    rw [interpret_of_not_fits hfits] at h ⊢
    exact h
  | true =>
    rw [interpret_of_fits hfits] at h ⊢
    have hreplay : Replays (fun _ => True) #[] False anyResult
        (Action.throughout (execute (i.learn table).context n) p)
        (Action.throughout (execute (i.learn table).context k) p) :=
      throughout_replays (.refl _ _) hnk False.elim fun _ _ => trivial
    have hend := hreplay (i.learn table).start fun _ _ _ _ _ => trivial
    rw [RunState.after_empty] at hend
    cases ho : Action.throughout (execute (i.learn table).context n) p (i.learn table).start with
    | ok a t =>
      rw [ho] at hend h
      rw [hend.1, RunState.after_empty]
      exact h
    | raised fault t =>
      rw [ho] at hend h
      rw [hend.1, RunState.after_empty]
      exact h
    | outOfFuel =>
      rw [ho] at h
      cases h

/-- What a run comes to after other lines. -/
theorem conclude_after {K : NodeId → Prop} {lines : Array String} {s : RunState}
    {o o' : Outcome RunState Unit} (h : SameEnding K lines True s anyResult o o') :
    i.conclude o' = (i.conclude o).map fun (r, i') => (⟨r.ending, lines.toList ++ r.output⟩, i') := by
  cases o with
  | ok a t =>
    rw [h.1]
    simp [conclude, RunState.after, resume]
  | raised fault t =>
    rw [h.1]
    simp [conclude, RunState.after, resume]
  | outOfFuel =>
    rw [h trivial]
    rfl

theorem learn_learn (i : Interpreter) (t u : Resolution) :
    (i.learn t).learn u = i.learn (t ∪ u) := by
  simp [learn, Resolution.union_assoc]

/-- Going on with a second program is the same as running it on its own: it starts in the same state,
apart from the lines printed. -/
theorem conclude_second {t : RunState} {tq : Resolution} (hfits : i.config.fitsStack = true)
    (hscope : t.scope = i.globals) (hdepth : t.depth = 0) :
    (i.learn tq).conclude (Action.throughout (execute (i.learn tq).context n) q t) =
      ((i.resume t).atRest.interpret n q tq).map fun (r, j) =>
        (⟨r.ending, t.printed.toList ++ r.output⟩, j) := by
  have hreplay : Replays (fun _ => True) t.printed True anyResult
      (Action.throughout (execute (i.learn tq).context n) q)
      (Action.throughout (execute (i.learn tq).context n) q) :=
    throughout_replays (.refl _ _) (Nat.le_refl n) (fun _ => rfl) fun _ _ => trivial
  have hend := hreplay ((i.resume t).atRest.learn tq).start fun _ _ _ _ _ => trivial
  have hstart : ((i.resume t).atRest.learn tq).start.after t.printed = t := by
    cases t
    cases hscope
    cases hdepth
    simp [RunState.after, start, learn, atRest, resume]
  rw [hstart] at hend
  rw [interpret_of_fits (i := (i.resume t).atRest) hfits]
  exact conclude_after hend

/-- Two programs in one run, if the table of the second changes nothing at the nodes of the first and
of the functions there are. -/
theorem interpret_append {tp tq : Resolution} (hscope : i.scope = i.globals) (hdepth : i.depth = 0)
    (hfunctions : i.store.FunctionsIn (tq.Leaves (i.table ∪ tp)))
    (hp : (Part.program p).NodesIn (tq.Leaves (i.table ∪ tp))) :
    i.interpret n (p ++ q) (tp ∪ tq) = (i.interpret n p tp).bind fun (r, i₁) =>
      if r.ending = .completed then
        (i₁.interpret n q tq).map fun (r', i₂) => (⟨r'.ending, r.output ++ r'.output⟩, i₂)
      else some (r, i₁.learn tq) := by
  cases hfits : i.config.fitsStack with
  | false =>
    rw [interpret_of_not_fits hfits, interpret_of_not_fits hfits, ← learn_learn]
    rfl
  | true =>
    rw [interpret_of_fits hfits, interpret_of_fits hfits, ← learn_learn, Action.throughout_append,
      Action.bind_apply]
    have hctx : (i.learn tp).context.AgreesOn (tq.Leaves (i.table ∪ tp))
        ((i.learn tp).learn tq).context := ⟨rfl, fun _ h => h, rfl⟩
    have hreplay : Replays (tq.Leaves (i.table ∪ tp)) #[] True anyResult
        (Action.throughout (execute (i.learn tp).context n) p)
        (Action.throughout (execute ((i.learn tp).learn tq).context n) p) :=
      throughout_replays hctx (Nat.le_refl n) (fun _ => rfl) hp
    have hend : SameEnding (tq.Leaves (i.table ∪ tp)) #[] True (i.learn tp).start anyResult
        (Action.throughout (execute (i.learn tp).context n) p (i.learn tp).start)
        (Action.throughout (execute ((i.learn tp).learn tq).context n) p
          ((i.learn tp).learn tq).start) := by
      have hend := hreplay (i.learn tp).start hfunctions
      rwa [RunState.after_empty] at hend
    cases ho : Action.throughout (execute (i.learn tp).context n) p (i.learn tp).start with
    | outOfFuel =>
      rw [ho] at hend
      rw [hend trivial]
      rfl
    | raised fault t =>
      rw [ho] at hend
      rw [hend.1, RunState.after_empty]
      exact (if_neg (endingOf_ne_completed fault)).symm
    | ok a t =>
      rw [ho] at hend
      obtain ⟨hend, hstays, -⟩ := hend
      rw [hend, RunState.after_empty]
      show ((i.learn tp).learn tq).conclude
        (Action.throughout (execute ((i.learn tp).learn tq).context n) q t) = _
      rw [conclude_second (i := i.learn tp) hfits (hstays.scope.trans hscope)
        (hstays.depth.trans hdepth), conclude, Option.bind_some]
      dsimp only
      rw [if_pos rfl]

end Interpreter

/-- The functions that runs leave behind are those of their programs. -/
theorem History.functionsIn {K : NodeId → Prop} {registry : NativeRegistry} {config : Config}
    {Es : List Episode} {i : Interpreter} (h : History registry config Es i)
    (hK : ∀ p ∈ programs Es, (Part.program p).NodesIn K) : i.store.FunctionsIn K := by
  induction h with
  | create h =>
    obtain ⟨st, hi, rfl⟩ := Interpreter.create_eq h
    intro id f hf
    rw [(Store.onlyNatives_newScope.install hi).1.functions] at hf
    cases hf
  | @interpret Es E report i h hr ih =>
    rw [programs_append] at hK
    have hstart := ih fun p hp => hK p (List.mem_append_left _ hp)
    have hreplay : Replays K #[] False anyResult (Action.throughout (execute E.context E.fuel) E.program)
        (Action.throughout (execute E.context E.fuel) E.program) :=
      throughout_replays (.refl _ _) (Nat.le_refl _) False.elim (hK E.program (by simp))
    have hend := hreplay E.ready.start hstart
    cases Episode.ended_of_result? hr with
    | refused => exact hstart
    | completed _ hrun =>
      rw [hrun] at hend
      exact hend.2.1.functions
    | raised _ hrun =>
      rw [hrun] at hend
      exact hend.2.functions

/-! ### Nodes in common -/

namespace Program

variable {p q r : Program} {ps : List Program} {id : NodeId} {d : Nat}

/-- Two programs have no node in common. -/
def Apart (p q : Program) : Prop := ∀ id, (Part.program p).HasNode id → ¬ (Part.program q).HasNode id

/-- A program does not resolve a node of another one in another way. -/
def ResolvesAlike (q r : Program) : Prop :=
  ∀ id, (Part.program r).HasNode id → ∀ d, q.resolve.table[id]? = some d → r.resolve.table[id]? = some d

theorem hasNode_of_entry (h : p.resolve.table[id]? = some d) : (Part.program p).HasNode id := by
  obtain ⟨a, P, ha, hid, -⟩ := exists_place_of_entry h
  exact ⟨a, P.part, part?_of_place? ha, hid⟩

/-- Programs whose nodes are told apart by their identities have none in common, unless they are the
same program. -/
theorem eq_of_hasNode (h : DistinctNodes ps) (hp : p ∈ ps) (hq : q ∈ ps)
    (hpid : (Part.program p).HasNode id) (hqid : (Part.program q).HasNode id) : p = q := by
  obtain ⟨a, t, ha, ht⟩ := hpid
  obtain ⟨b, u, hb, hu⟩ := hqid
  exact (h.part_unique hp hq ha hb ht hu).1

theorem apart_of_distinct (h : DistinctNodes ps) (hp : p ∈ ps) (hq : q ∈ ps) (hne : p ≠ q) :
    p.Apart q :=
  fun _ hpid hqid => hne (eq_of_hasNode h hp hq hpid hqid)

theorem resolvesAlike_of_distinct (h : DistinctNodes ps) (hq : q ∈ ps) (hr : r ∈ ps) :
    q.ResolvesAlike r := by
  intro id hid d hd
  obtain rfl := eq_of_hasNode h hq hr (hasNode_of_entry hd) hid
  exact hd

/-- A program has no entries for the nodes of one that it is apart from. -/
theorem Apart.entry_eq_none (h : p.Apart q) (hid : (Part.program p).HasNode id) :
    q.resolve.table[id]? = none := by
  cases hq : q.resolve.table[id]? with
  | none => rfl
  | some d => exact absurd (hasNode_of_entry hq) (h id hid)

theorem Apart.disjoint (h : p.Apart q) (id : NodeId) :
    p.resolve.table[id]? = none ∨ q.resolve.table[id]? = none := by
  cases hp : p.resolve.table[id]? with
  | none => exact .inl rfl
  | some d => exact .inr (h.entry_eq_none (hasNode_of_entry hp))

/-- What a program resolves of the nodes of earlier programs is in their table already. -/
theorem ResolvesAlike.entry {table : Resolution} (ht : IsTableOf table ps)
    (hq : ∀ r ∈ ps, q.ResolvesAlike r) (hr : r ∈ ps) (hid : (Part.program r).HasNode id)
    (hd : q.resolve.table[id]? = some d) : table[id]? = some d := by
  obtain ⟨e, he⟩ := Option.isSome_iff_exists.1 (ht.complete r hr id d (hq r hr id hid d hd))
  -- The entry may be that of yet another program, which was resolved later.
  obtain ⟨r', hr', hre⟩ := ht.sound id e he
  rw [he, ← hre, hq r' hr' id (hasNode_of_entry hre) d hd]

end Program

/-! ### Sessions -/

namespace RunResult

/-- The same result after other lines. -/
def precededBy (lines : List String) : RunResult → RunResult
  | rejected errors => rejected errors
  | succeeded output => succeeded (lines ++ output)
  | failed output e => failed (lines ++ output) e
  | crashed output fault => crashed (lines ++ output) fault

@[simp] theorem success_precededBy (lines : List String) (r : RunResult) :
    (r.precededBy lines).success = r.success := by
  cases r <;> rfl

@[simp] theorem diagnostics_precededBy (lines : List String) (r : RunResult) :
    (r.precededBy lines).diagnostics = r.diagnostics := by
  cases r <;> rfl

theorem output_precededBy (lines : List String) {r : RunResult} (h : r.hasStaticErrors = false) :
    (r.precededBy lines).output = lines ++ r.output := by
  cases r with
  | rejected => cases h
  | _ => rfl

theorem ofReport_precededBy (lines : List String) (r : Report) :
    (ofReport r).precededBy lines = ofReport ⟨r.ending, lines ++ r.output⟩ := by
  unfold ofReport
  cases r.ending <;> rfl

theorem success_ofReport (r : Report) : (ofReport r).success = true ↔ r.ending = .completed := by
  unfold ofReport
  cases r.ending <;> simp [success]

theorem output_ofReport (r : Report) : (ofReport r).output = r.output := by
  unfold ofReport
  cases r.ending <;> rfl

end RunResult

theorem textOfLines_append (ls ms : List String) :
    textOfLines (ls ++ ms) = textOfLines ls ++ textOfLines ms := by
  simp [textOfLines, String.join_append]

namespace Session

variable {registry : NativeRegistry} {config : Config} {ps : List Program} {p q : Program}
  {s s' : Session} {result : RunResult} {n k : Nat}

theorem run_of_resolved (h : p.resolve.hasErrors = false) (n : Nat) (s : Session) :
    s.run n p = (s.interpreter.interpret n p p.resolve.table).map fun (report, i) =>
      (.ofReport report, ⟨i, s.stream ++ textOfLines report.output⟩) := by
  unfold run
  dsimp only
  rw [if_neg (by simp [h])]
  cases s.interpreter.interpret n p p.resolve.table <;> rfl

/-- More fuel never changes what a session hands back. -/
theorem run_mono (h : s.run n p = some (result, s')) (hnk : n ≤ k) :
    s.run k p = some (result, s') := by
  cases he : p.resolve.hasErrors with
  | true =>
    unfold run at h ⊢
    dsimp only at h ⊢
    rw [if_pos he] at h ⊢
    exact h
  | false =>
    rw [run_of_resolved he] at h ⊢
    obtain ⟨x, hx, hresult⟩ := Option.map_eq_some_iff.1 h
    rw [Interpreter.interpret_mono hx hnk, Option.map_some, hresult]

/-- With the same fuel, a session that is given two programs as one does what it does if it is given
one after the other; when the first one fails, the second has only been resolved. -/
theorem run_append (hapart : p.Apart q) (h : Given registry config ps s)
    (halike : ∀ r ∈ ps, r.resolve.hasErrors = false → q.ResolvesAlike r)
    (hp : p.resolve.hasErrors = false) (hq : q.resolve.hasErrors = false) (n : Nat) :
    s.run n (p ++ q) = (s.run n p).bind fun (r₁, s₁) =>
      if r₁.success then (s₁.run n q).map fun (r₂, s₂) => (r₂.precededBy r₁.output, s₂)
      else some (r₁, { s₁ with interpreter := s₁.interpreter.learn q.resolve.table }) := by
  obtain ⟨Es, hE, hps⟩ := h.exists_history
  have hfunctions : s.interpreter.store.FunctionsIn
      (q.resolve.table.Leaves (s.interpreter.table ∪ p.resolve.table)) := by
    refine hE.functionsIn fun r hr id hid => ?_
    cases hd : q.resolve.table[id]? with
    | none => exact Resolution.leaves_of_none hd _
    | some d =>
      have ht := Program.ResolvesAlike.entry hE.isTableOf
        (fun r hr => halike r (hps r hr).1 (hps r hr).2) hr hid hd
      refine Resolution.leaves_of_same hd ?_
      rw [Std.ExtTreeMap.getElem?_union, ht, (hapart.disjoint id).resolve_right (by simp [hd]),
        Option.none_or]
  have hnodes : (Part.program p).NodesIn
      (q.resolve.table.Leaves (s.interpreter.table ∪ p.resolve.table)) :=
    fun _ hid => Resolution.leaves_of_none (hapart.entry_eq_none hid) _
  rw [run_of_resolved (by rw [Program.hasErrors_append, hp, hq]; rfl), Program.table_append,
    Interpreter.interpret_append hE.scope hE.depth hfunctions hnodes, run_of_resolved hp]
  cases s.interpreter.interpret n p p.resolve.table with
  | none => rfl
  | some x =>
    obtain ⟨r₁, i₁⟩ := x
    simp only [Option.bind_some, Option.map_some, RunResult.success_ofReport,
      RunResult.output_ofReport]
    split
    · rw [run_of_resolved hq]
      simp only [Option.map_map]
      refine congrArg (Option.map · _) (funext fun (r₂, i₂) => ?_)
      simp only [Function.comp, RunResult.ofReport_precededBy, textOfLines_append, String.append_assoc]
    · rfl

/-- A session hands this back for a program, with enough fuel. -/
def Gives (s : Session) (p : Program) (result : RunResult) (s' : Session) : Prop :=
  ∃ fuel, s.run fuel p = some (result, s')

theorem Gives.unique {result' : RunResult} {s'' : Session} (h : s.Gives p result s')
    (h' : s.Gives p result' s'') : result = result' ∧ s' = s'' := by
  obtain ⟨n, hn⟩ := h
  obtain ⟨k, hk⟩ := h'
  have hn := run_mono hn (Nat.le_max_left n k)
  have hk := run_mono hk (Nat.le_max_right n k)
  rw [hn] at hk
  cases hk
  exact ⟨rfl, rfl⟩

/-- Splitting a program in two changes nothing.  Its errors are those of the one part and then those
of the other, and its table is put together from the tables of both, which have no node in common.
Unless there are static errors, a session that is given the whole program does what it does if it is
given one part after the other; if the first part fails, the second has been resolved, and that is all.
Functions of the programs that were run before may still be called, so the second part must not resolve
their nodes in another way; it does not if it has nodes of its own, or was among them. -/
theorem gives_append (hapart : p.Apart q) :
    ((p ++ q).resolve.errors = p.resolve.errors ++ q.resolve.errors ∧
      (p ++ q).resolve.table = p.resolve.table ∪ q.resolve.table ∧
      ∀ id : NodeId, p.resolve.table[id]? = none ∨ q.resolve.table[id]? = none) ∧
    ∀ registry config ps (s : Session), Given registry config ps s →
      (∀ r ∈ ps, r.resolve.hasErrors = false → q.ResolvesAlike r) →
      p.resolve.hasErrors = false → q.resolve.hasErrors = false →
      ∀ result s', s.Gives (p ++ q) result s' ↔
        (∃ r₁ s₁ r₂, s.Gives p r₁ s₁ ∧ r₁.success = true ∧ s₁.Gives q r₂ s' ∧
          result = r₂.precededBy r₁.output) ∨
        ∃ s₁, s.Gives p result s₁ ∧ result.success = false ∧
          s' = { s₁ with interpreter := s₁.interpreter.learn q.resolve.table } := by
  refine ⟨⟨Program.errors_append p q, Program.table_append p q, hapart.disjoint⟩, ?_⟩
  intro registry config ps s h halike hp hq result s'
  have happend := run_append hapart h halike hp hq
  constructor
  · rintro ⟨n, hn⟩
    rw [happend] at hn
    obtain ⟨⟨r₁, s₁⟩, hfirst, hrest⟩ := Option.bind_eq_some_iff.1 hn
    dsimp only at hrest
    split at hrest
    · rename_i hok
      obtain ⟨⟨r₂, s₂⟩, hsecond, hresult⟩ := Option.map_eq_some_iff.1 hrest
      cases hresult
      exact .inl ⟨r₁, s₁, r₂, ⟨n, hfirst⟩, hok, ⟨n, hsecond⟩, rfl⟩
    · rename_i hfail
      cases hrest
      exact .inr ⟨s₁, ⟨n, hfirst⟩, eq_false_of_ne_true hfail, rfl⟩
  · rintro (⟨r₁, s₁, r₂, ⟨n, hfirst⟩, hok, ⟨k, hsecond⟩, rfl⟩ | ⟨s₁, ⟨n, hfirst⟩, hfail, rfl⟩)
    · refine ⟨max n k, ?_⟩
      rw [happend, run_mono hfirst (Nat.le_max_left n k), Option.bind_some]
      dsimp only
      rw [if_pos hok, run_mono hsecond (Nat.le_max_right n k), Option.map_some]
    · refine ⟨n, ?_⟩
      rw [happend, hfirst, Option.bind_some]
      dsimp only
      rw [if_neg (by simp [hfail])]

end Session

/-! ### A call and a farewell -/

/-- A block that prints its variable. -/
def Program.farewell : Program :=
  [.block 14 [.varDecl 15 ⟨.identifier, "y", .nil, 1⟩ (some (.literal 16 (.string "end"))),
    .print 17 (.var ⟨18, ⟨.identifier, "y", .nil, 1⟩⟩)]]

/-- The call of a method of an earlier program and the farewell are given as one program. -/
theorem Session.callOfF_farewell :
    ∃ s s', Session.Given {} { natives := [] } [.boundMethod] s ∧
      Program.Apart .callOfF .farewell ∧
      (∀ r ∈ [Program.boundMethod], r.resolve.hasErrors = false → Program.farewell.ResolvesAlike r) ∧
      Program.callOfF.resolve.hasErrors = false ∧ Program.farewell.resolve.hasErrors = false ∧
      Program.farewell.resolve.table[18]? = some 0 ∧
      s.Gives (.callOfF ++ .farewell) (.succeeded ["A instance", "x", "end"]) s' := by
  have hnew : ∃ s, Session.create {} { natives := [] } = .ok s ∧
      ((s.run 9 .boundMethod).bind fun r => (r.2.run 9 .callOfF).bind fun r₁ =>
        (r₁.2.run 9 .farewell).map fun r₂ => (r₁.1, r₂.1)) =
        some (.succeeded ["A instance", "x"], .succeeded ["end"]) := ⟨_, rfl, by decide +kernel⟩
  obtain ⟨s₀, hcreate, hruns⟩ := hnew
  obtain ⟨⟨result, s⟩, hbound, hruns⟩ := Option.bind_eq_some_iff.1 hruns
  obtain ⟨⟨r₁, s₁⟩, hfirst, hruns⟩ := Option.bind_eq_some_iff.1 hruns
  obtain ⟨⟨r₂, s₂⟩, hsecond, hresults⟩ := Option.map_eq_some_iff.1 hruns
  cases hresults
  have hgiven : Session.Given {} { natives := [] } [.boundMethod] s := .run (.create hcreate) hbound
  have hfarewell : DistinctNodes [.farewell] := .of_within 3 (by decide) (by decide)
  have hcalled : DistinctNodes [.callOfF, .farewell] :=
    .pair (.of_within 4 (by decide) (by decide)) hfarewell 4 (by decide) (by decide) (by decide)
  have hearlier : DistinctNodes [.boundMethod, .farewell] :=
    .pair (.of_within 4 (by decide) (by decide)) hfarewell 4 (by decide) (by decide) (by decide)
  have hapart : Program.Apart .callOfF .farewell :=
    Program.apart_of_distinct hcalled (by simp) (by simp) fun h => by cases h
  have halike : ∀ r ∈ [Program.boundMethod], r.resolve.hasErrors = false →
      Program.farewell.ResolvesAlike r := by
    intro r hr _
    obtain rfl := List.mem_singleton.1 hr
    exact Program.resolvesAlike_of_distinct hearlier (by simp) (by simp)
  refine ⟨s, s₂, hgiven, hapart, halike, by decide, by decide, by decide, ?_⟩
  refine ((Session.gives_append hapart).2 _ _ _ s hgiven halike (by decide) (by decide) _ s₂).2 ?_
  exact .inl ⟨_, s₁, _, ⟨9, hfirst⟩, rfl, ⟨9, hsecond⟩, rfl⟩

end Lox
