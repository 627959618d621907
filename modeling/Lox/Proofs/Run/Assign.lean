import Lox.Proofs.Check
import Lox.Proofs.Scoping.Rules
import Lox.Proofs.Run.History
import Lox.Proofs.Run.Introduced

/-!
# Assignments and the bindings they write

An assignment overwrites one binding that is there already, or it fails and changes nothing, with two
exceptions in local scopes: inside of the initializer of the variable it assigns, which is bound only
afterwards, and where the variable is declared by a declaration that stands alone as a branch or loop
body, which may not have been come to (`Program.MayPrecede`).  Apart from these, scopes gain the names
that are declared in them, parameters, `this` and `super` (`Episode.assignments_overwrite`).
-/

namespace Lox

/-- A name may be assigned at an address before it is bound, in the region at a distance from there:
because the address lies in its initializer, or because its declaration stands alone as a branch. -/
def Program.MayPrecede (p : Program) (a : Address) (d : Nat) (x : String) : Prop :=
  ∃ r, (p.regions a)[d]? = some r ∧ (p.DeclaresBare r x ∨ d = 0 ∧ p.InInitializer a x)

/-- One binding is overwritten: the scope binds the name already, and no other name or scope is
touched. -/
structure Store.Overwrites (st : Store) (e : ScopeId) (x : String) (v : Value) (st' : Store) :
    Prop where
  bound : st.binds e x
  read? : ∀ e' y, st'.read? e' y = if e' = e ∧ y = x then some v else st.read? e' y
  binds : ∀ e' y, st'.binds e' y = st.binds e' y

theorem Store.overwrites_define {st : Store} {e : ScopeId} {x : String} (v : Value)
    (h : st.binds e x) : st.Overwrites e x v (st.define e x v) := by
  obtain ⟨w, hw⟩ := Option.isSome_iff_exists.1 h
  have hscope : (st.scope? e).isSome := by
    cases hs : st.scope? e with
    | none => simp [Store.read?, hs] at hw
    | some _ => rfl
  have hread : ∀ e' y, (st.define e x v).read? e' y =
      if e' = e ∧ y = x then some v else st.read? e' y := fun e' y => by
    simp [read?_define, hscope]
  refine ⟨h, hread, fun e' y => ?_⟩
  rw [Store.binds, hread]
  split
  · rename_i hy
    rw [hy.1, hy.2, h]
    rfl
  · rfl

variable {S : Setting} {Γ : Nesting} {s : RunState} {id : NodeId} {target value : Expr}
  {equals : Token}

/-- In a clean setting only variables are assigned. -/
theorem At.assigns_variable (h : At S Γ (.expr (.assign id target equals value)) s) (hc : S.clean) :
    ∃ ref, target = .var ref := by
  have hv := (S.fit hc h.known).violations
  cases target with
  | var ref => exact ⟨ref, rfl⟩
  | _ => simp [Place.violations, Part.violations, Expr.asVariable?] at hv

/-- In a clean setting an assignment leads to a scope that binds the name, unless the name waits for
its initializer or is not sure to be bound; or there is no scope that it leads to. -/
theorem At.assignedScope {ref : VarRef}
    (h : At S Γ (.expr (.assign id (.var ref) equals value)) s) (hc : S.clean) :
    Run.assignedScope S.context id ref.name s = .raised (.error ⟨.undefinedVariable, ref.name⟩) s ∨
      ∃ e, Run.assignedScope S.context id ref.name s = .ok e s ∧
        (s.store.binds e ref.name.lexeme ∨ ∃ d f, S.context.table[id]? = some d ∧ Γ[d]? = some f ∧
          (¬ S.sure f.opener ref.name.lexeme ∨ d = 0 ∧ Γ.isPending ref.name.lexeme)) := by
  cases hd : S.context.table[id]? with
  | none =>
    cases ho : s.store.owner? S.context.globals ref.name.lexeme with
    | some e =>
      exact .inr ⟨e, Run.assignedScope_of_global hd ho, .inl (Store.isSome_of_owner? ho)⟩
    | none => exact .inl (Run.assignedScope_of_undefined hd ho)
  | some d =>
    have hdist : Γ.distance? ref.name.lexeme = some d := h.distance?_eq rfl (.inl rfl) hd
    obtain ⟨f, e, hf, he, hact⟩ := h.mirrors.scopeAt hdist
    refine .inr ⟨e, ?_, ?_⟩
    · rw [Run.assignedScope_of_local hd, he]
      rfl
    · obtain ⟨f', hf', hready⟩ := (S.fit hc h.known).ready_or_pending hdist
      obtain rfl := Option.some.inj (hf.symm.trans hf')
      by_cases hsure : S.sure f.opener ref.name.lexeme
      · rcases hready with hr | hpending
        · exact .inl (hact.bound hc _ hsure trivial hr)
        · exact .inr ⟨d, f, rfl, hf, .inr hpending⟩
      · exact .inr ⟨d, f, rfl, hf, .inl hsure⟩

/-! An assignment whose value and scope are known. -/

section

variable {ctx : Context} {n : Nat} {v : Value} {s₁ : RunState}

theorem evaluate_assign_of_ok {e : ScopeId} (hv : evaluate ctx n value s = .ok v s₁)
    (he : Run.assignedScope ctx id (target.assignedName equals) s₁ = .ok e s₁) :
    evaluate ctx (n + 1) (.assign id target equals value) s =
      .ok v { s₁ with store := s₁.store.define e (target.assignedName equals).lexeme v } := by
  rw [evaluate, Action.bind_apply, hv]
  show (Run.assign ctx id (target.assignedName equals) v >>= fun _ => pure v) s₁ = _
  rw [Action.bind_apply, Run.assign, Action.bind_apply, he]
  rfl

theorem evaluate_assign_of_raised {fault : Fault} (hv : evaluate ctx n value s = .ok v s₁)
    (he : Run.assignedScope ctx id (target.assignedName equals) s₁ = .raised fault s₁) :
    evaluate ctx (n + 1) (.assign id target equals value) s = .raised fault s₁ := by
  rw [evaluate, Action.bind_apply, hv]
  show (Run.assign ctx id (target.assignedName equals) v >>= fun _ => pure v) s₁ = _
  rw [Action.bind_apply, Run.assign, Action.bind_apply, he]

end

section

variable {registry : NativeRegistry} {config : Config} {Es : List Episode} {E : Episode}

namespace Episode

/-! ### Where names come from -/

/-- A name gets bound in a scope while a node is visited. -/
def Binds (E : Episode) (e : ScopeId) (x : String) : Prop :=
  ∃ m t s, E.Visits (m + 1) t s ∧ (Introduces E.context m t s e x ∨ Creates E.context m t s e x)

theorem allows (hfits : E.interpreter.config.fitsStack = true) {i : Nat} {st : Stmt} {s : RunState}
    (hb : Action.throughout (execute E.context E.fuel) (E.program.take i) E.ready.start = .ok () s)
    (hi : E.program[i]? = some st) : Allows E.Binds E.context E.fuel (.stmt st) s :=
  fun m u s' _ _ hv hx => ⟨m, u, s', .mk hfits hb hi hv, hx⟩

theorem throughout_adds (hfits : E.interpreter.config.fitsStack = true) (k : Nat) :
    Adds E.Binds E.ready.start
      (Action.throughout (execute E.context E.fuel) (E.program.take k) E.ready.start) :=
  .throughout (fun _ _ _ hi hb => (adds_only E.fuel).stmt (allows hfits hb hi)) k

/-- Wherever a node is visited, a name is bound before the run or gets bound during it. -/
theorem Visits.addsOnly {m : Nat} {t : Part} {s : RunState} (hv : E.Visits m t s) :
    E.interpreter.store.AddsOnly E.Binds s.store := by
  obtain ⟨hfits, hb, hi, hv⟩ := hv
  exact ((throughout_adds hfits _).of_ok hb).names.trans ((allows hfits hb hi).visited hv)

/-- When the run has ended, a name was bound before it or got bound during it. -/
theorem Ended.addsOnly {report : Report} {i : Interpreter} (h : E.Ended report i) :
    E.interpreter.store.AddsOnly E.Binds i.store := by
  cases h with
  | refused => exact .refl _
  | completed hfits hrun =>
    have hadds := throughout_adds hfits E.program.length
    rw [List.take_length, hrun] at hadds
    exact hadds.names
  | raised hfits hrun =>
    have hadds := throughout_adds hfits E.program.length
    rw [List.take_length, hrun] at hadds
    exact hadds.names

/-! ### What assignments do -/

/-- The node is one of the programs, and may assign a name before it is bound. -/
def MayPrecede (E : Episode) (Es : List Episode) (t : Part) (x : String) : Prop :=
  ∃ F ∈ Es ++ [E], ∃ a id d, F.program.part? a = some t ∧ t.id? = some id ∧
    E.context.table[id]? = some d ∧ F.program.MayPrecede a d x

/-- Where an assignment leads to that is visited, in a program that breaks no static rule. -/
theorem assignedScope_cases {hf : Fits True (Es ++ [E]) .loose}
    {ht : IsTableOf E.context.table (programs (Es ++ [E]))}
    (hs : StoreOk (E.setting Es True hf ht) E.interpreter.store)
    (hscope : E.interpreter.scope = E.interpreter.globals) {m : Nat}
    (hv : E.Visits (m + 1) (.expr (.assign id target equals value)) s) {v : Value} {s₁ : RunState}
    (he : evaluate E.context m value s = .ok v s₁) :
    ∃ ref, target = .var ref ∧
      (Run.assignedScope E.context id ref.name s₁ =
          .raised (.error ⟨.undefinedVariable, ref.name⟩) s₁ ∨
        ∃ e, Run.assignedScope E.context id ref.name s₁ = .ok e s₁ ∧
          (s₁.store.binds e ref.name.lexeme ∨
            E.MayPrecede Es (.expr (.assign id target equals value)) ref.name.lexeme)) := by
  obtain ⟨Γ, hat⟩ := at_of_visits hs hscope hv
  obtain ⟨ref, rfl⟩ := hat.assigns_variable trivial
  refine ⟨ref, rfl, ?_⟩
  have hvalue : At _ Γ (.expr value) s := hat.subexpr (.refl hat.store) 0 rfl
  have hat₁ := hat.later (hvalue.evaluated (hv.opensOk.call .assigned) he)
  rcases hat₁.assignedScope trivial with hraised | ⟨e, hok, hb⟩
  · exact .inl hraised
  · refine .inr ⟨e, hok, hb.imp_right ?_⟩
    rintro ⟨d, f, hd, hfr, hearly⟩
    obtain ⟨F, hF, a, ha, -, -⟩ := hat.known
    obtain ⟨G, hG, b, r, hb, hr, hbare⟩ := exists_region_of_known hf ht hat.known hfr
    -- the node stands at one address only
    obtain ⟨hFG, rfl, -⟩ := hf.distinct.part_unique (List.mem_map_of_mem hG)
      (List.mem_map_of_mem hF) hb (Program.part?_of_place? ha) rfl rfl
    refine ⟨G, hG, b, id, d, hb, rfl, hd, r, hr, hearly.imp (hbare _) fun ⟨hzero, hpending⟩ => ?_⟩
    rw [hFG]
    exact ⟨hzero, (Program.isPending_iff ha _).1 hpending⟩

/-- The run of a program that breaks no static rule, after any others that break none.  When an
assignment that is visited has its value, it either fails with an error at the name, and nothing is
changed; or it writes the name in one scope, where it overwrites a binding, unless it may precede the
binding.  And the names that are bound, at every node and in the end, were bound before the run or are
introduced by a node that is visited, if not by such an assignment. -/
theorem assignments_overwrite (h : History registry config Es E.interpreter)
    (hd : DistinctNodes (programs (Es ++ [E])))
    (hp : ∀ p ∈ programs (Es ++ [E]), p.resolve.hasErrors = false) :
    (∀ m id target equals value s v s₁,
      E.Visits (m + 1) (.expr (.assign id target equals value)) s →
      evaluate E.context m value s = .ok v s₁ → ∃ ref, target = .var ref ∧
        (evaluate E.context (m + 1) (.assign id target equals value) s =
            .raised (.error ⟨.undefinedVariable, ref.name⟩) s₁ ∨
          ∃ e, evaluate E.context (m + 1) (.assign id target equals value) s =
              .ok v { s₁ with store := s₁.store.define e ref.name.lexeme v } ∧
            (s₁.store.Overwrites e ref.name.lexeme v (s₁.store.define e ref.name.lexeme v) ∨
              E.MayPrecede Es (.expr (.assign id target equals value)) ref.name.lexeme))) ∧
    ∀ st, ((∃ m t s, E.Visits m t s ∧ st = s.store) ∨
        ∃ report i, E.result? = some (report, i) ∧ st = i.store) →
      ∀ e x, st.binds e x → E.interpreter.store.binds e x ∨
        ∃ m t s, E.Visits (m + 1) t s ∧
          (Introduces E.context m t s e x ∨
            Creates E.context m t s e x ∧ E.MayPrecede Es t x) := by
  have hf : Fits True (Es ++ [E]) .loose := ⟨hd, fun _ p hmem => ⟨trivial, hp p hmem⟩⟩
  have hs := h.storeOk E rfl hf h.isTableOf_context
  refine ⟨fun m id target equals value s v s₁ hv he => ?_, fun st hst e x hx => ?_⟩
  · obtain ⟨ref, rfl, hcases⟩ := assignedScope_cases hs h.scope hv he
    refine ⟨ref, rfl, ?_⟩
    rcases hcases with hraised | ⟨e, hok, hb⟩
    · exact .inl (evaluate_assign_of_raised he hraised)
    · exact .inr ⟨e, evaluate_assign_of_ok he hok, hb.imp_left (Store.overwrites_define v)⟩
  · have hadds : E.interpreter.store.AddsOnly E.Binds st := by
      rcases hst with ⟨m, t, s, hv, rfl⟩ | ⟨report, i, hr, rfl⟩
      · exact hv.addsOnly
      · exact (ended_of_result? hr).addsOnly
    refine (hadds e x hx).imp_right ?_
    rintro ⟨m, t, s, hv, hi | hc⟩
    · exact ⟨m, t, s, hv, .inl hi⟩
    · refine ⟨m, t, s, hv, .inr ⟨hc, ?_⟩⟩
      cases hc with
      | mk hval he hnew =>
        obtain ⟨ref, rfl, hcases⟩ := assignedScope_cases hs h.scope hv hval
        rcases hcases with hraised | ⟨e', hok, hb⟩
        · cases hraised.symm.trans he
        · cases hok.symm.trans he
          rcases hb with hb | hb
          · cases hb.symm.trans hnew
          · exact hb

end Episode

end

/-! ### An assignment in the initializer of its variable -/

/-- A block with a variable whose initializer assigns it, and an assignment after that. -/
def Program.ownInitializer : Program :=
  [.block 0
    [.varDecl 1 ⟨.identifier, "a", .nil, 1⟩ (some
      (.assign 2 (.var ⟨3, ⟨.identifier, "a", .nil, 1⟩⟩) ⟨.equal, "=", .nil, 1⟩
        (.literal 4 (.string "x")))),
     .expression 5
      (.assign 6 (.var ⟨7, ⟨.identifier, "a", .nil, 2⟩⟩) ⟨.equal, "=", .nil, 2⟩
        (.literal 8 (.string "y")))]]

/-- The block, as the first program of an interpreter. -/
def Episode.ownInitializer : Episode where
  interpreter := {
    config := { natives := [], maxCallDepth_pos := Config.defaultDepth_pos }
    globals := ⟨0⟩
    store := (({} : Store).newScope {}).2
    scope := ⟨0⟩ }
  program := .ownInitializer
  fuel := 9

/-- The second assignment overwrites the binding of `a`, and `a` is all that the run introduces. -/
theorem Episode.ownInitializer_assigns :
    History {} { natives := [] } [] ownInitializer.interpreter ∧
      DistinctNodes (programs [ownInitializer]) ∧
      (∀ p ∈ programs [ownInitializer], p.resolve.hasErrors = false) ∧
      ∃ s s₁ e,
        ownInitializer.Visits 7 (.expr
          (.assign 6 (.var ⟨7, ⟨.identifier, "a", .nil, 2⟩⟩) ⟨.equal, "=", .nil, 2⟩
            (.literal 8 (.string "y")))) s ∧
        evaluate ownInitializer.context 6 (.literal 8 (.string "y")) s = .ok (.string "y") s₁ ∧
        s₁.store.Overwrites e "a" (.string "y") (s₁.store.define e "a" (.string "y")) := by
  have hh : History {} { natives := [] } [] ownInitializer.interpreter := .create rfl
  have hd : DistinctNodes (programs [ownInitializer]) := .of_within 5 (by decide) (by decide)
  have hp : ∀ p ∈ programs [ownInitializer], p.resolve.hasErrors = false := by
    intro p hp
    obtain rfl := List.mem_singleton.1 hp
    decide
  have hv : ∃ s, ownInitializer.Visits 7 (.expr
      (.assign 6 (.var ⟨7, ⟨.identifier, "a", .nil, 2⟩⟩) ⟨.equal, "=", .nil, 2⟩
        (.literal 8 (.string "y")))) s ∧
      ∃ w s', evaluate ownInitializer.context 7
        (.assign 6 (.var ⟨7, ⟨.identifier, "a", .nil, 2⟩⟩) ⟨.equal, "=", .nil, 2⟩
          (.literal 8 (.string "y"))) s = .ok w s' := by
    refine ⟨?s, .mk (i := 0) (by decide) (by rfl) (by rfl) ?h, _, _, by rfl⟩
    case h =>
      refine .step (.block (i := 1) (by rfl) (by rfl) rfl) ?_
      refine .step .expression ?_
      exact .here
  obtain ⟨s, hv, w, s', heval⟩ := hv
  obtain ⟨ref, href, hcases⟩ := (assignments_overwrite hh hd hp).1 6 6 _ _ _ s (.string "y") s hv rfl
  obtain rfl := Expr.var.inj href
  refine ⟨hh, hd, hp, s, s, ?_⟩
  rcases hcases with hraised | ⟨e, -, hwrites⟩
  · cases hraised.symm.trans heval
  · refine ⟨e, hv, rfl, hwrites.resolve_right ?_⟩
    rintro ⟨F, hF, a, id, d, ha, hid, hdist, r, hr, hearly⟩
    obtain rfl := List.mem_singleton.1 hF
    obtain ⟨-, rfl, -⟩ := hd.part_unique List.mem_cons_self List.mem_cons_self
      (show Program.ownInitializer.part? [0, 1, 0] = some _ from rfl) ha rfl rfl
    rcases hearly with ⟨b, t, i, c, ht, hbranches, -⟩ | ⟨-, b, t, hb, hx, -⟩
    · have hnone : ∀ at? ∈ (Part.program ownInitializer.program).within 5,
          at?.2.branches = false := by decide
      rw [hnone (b, t) (Part.mem_within (by decide) ht)] at hbranches
      cases hbranches
    · have hnone : ∀ at? ∈ ownInitializer.program.around [0, 1, 0],
          at?.2.declaresVariable? ≠ some "a" := by decide
      exact hnone (b, t) hb hx

/-- The first one binds `a` before it is declared. -/
theorem Program.ownInitializer_creates :
    ¬ ∀ registry config (E : Episode) m id ref equals value s v s₁ w s',
      History registry config [] E.interpreter → DistinctNodes [E.program] →
      E.program.resolve.hasErrors = false →
      E.Visits (m + 1) (.expr (.assign id (.var ref) equals value)) s →
      evaluate E.context m value s = .ok v s₁ →
      evaluate E.context (m + 1) (.assign id (.var ref) equals value) s = .ok w s' →
      ∀ e x, s'.store.binds e x → s₁.store.binds e x := by
  intro h
  have hv : ∃ s s₁ v w s', Episode.ownInitializer.Visits 7 (.expr
      (.assign 2 (.var ⟨3, ⟨.identifier, "a", .nil, 1⟩⟩) ⟨.equal, "=", .nil, 1⟩
        (.literal 4 (.string "x")))) s ∧
      evaluate Episode.ownInitializer.context 6 (.literal 4 (.string "x")) s = .ok v s₁ ∧
      evaluate Episode.ownInitializer.context 7
        (.assign 2 (.var ⟨3, ⟨.identifier, "a", .nil, 1⟩⟩) ⟨.equal, "=", .nil, 1⟩
          (.literal 4 (.string "x"))) s = .ok w s' ∧
      s'.store.binds ⟨1⟩ "a" = true ∧ s₁.store.binds ⟨1⟩ "a" = false := by
    refine ⟨?s, ?s₁, ?v, ?w, ?s', .mk (i := 0) (by decide) (by rfl) (by rfl) ?h, ?value,
      ?assign, ?after, ?before⟩
    case h =>
      refine .step (.block (i := 0) (by rfl) (by rfl) rfl) ?_
      refine .step .initializer ?_
      exact .here
    case value => rfl
    case assign => rfl
    case after => rfl
    case before => rfl
  obtain ⟨s, s₁, v, w, s', hv, hvalue, heval, hafter, hbefore⟩ := hv
  have hbound := h {} { natives := [] } .ownInitializer 6 _ _ _ _ s v s₁ w s' (.create rfl)
    (.of_within 5 (by decide) (by decide)) (by decide) hv hvalue heval ⟨1⟩ "a" hafter
  cases hbefore.symm.trans hbound

end Lox
