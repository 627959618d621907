import Lox.Proofs.Run.Balance

/-!
# Programs without loops end

A program without loops ends, whatever its functions, methods and initializers call: one more unit of
fuel is used for each step down the tree, and each call that is entered takes up one of the calls that
may still be nested.  So the fuel needed at a node is bounded by its own depth and, for each of these
calls, the depth of the deepest body (`Part.Covered`), and that for a whole program is known beforehand
(`Session.run_terminates`).
-/

namespace Lox

/-! ### Parts without loops -/

namespace Part

def isLoop : Part → Bool
  | stmt (.loop ..) => true
  | _ => false

/-- No loop is in a part. -/
def LoopFree (t : Part) : Prop := ∀ a u, t.at? a = some u → u.isLoop = false

variable {t c : Part} {n k : Nat}

theorem LoopFree.of_mem (h : t.LoopFree) (hc : c ∈ t.children) : c.LoopFree :=
  All.of_mem (P := fun u => u.isLoop = false) h hc

/-- A function has the same loops as a declaration and as a method. -/
theorem LoopFree.method {f : FunctionDecl} (h : (stmt (.function f)).LoopFree) :
    (Part.method f).LoopFree :=
  All.method (P := fun u => u.isLoop = false) h fun _ => rfl

/-- A part has no loops if none of the parts down to its depth is one. -/
theorem LoopFree.of_within (n : Nat) (hd : t.depthAtMost n)
    (h : (t.within n).all fun (_, u) => !u.isLoop) : t.LoopFree := by
  refine All.of_within n hd fun at? hat => ?_
  simpa using List.all_eq_true.1 h at? hat

theorem depthAtMost_of_mem (h : t.depthAtMost n) (hc : c ∈ t.children) :
    ∃ k, n = k + 1 ∧ c.depthAtMost k := by
  cases n with
  | zero =>
    rw [depthAtMost, List.isEmpty_iff] at h
    rw [h] at hc
    cases hc
  | succ n => exact ⟨n, rfl, List.all_eq_true.1 h c hc⟩

theorem depthAtMost_mono (h : t.depthAtMost n) (hnk : n ≤ k) : t.depthAtMost k := by
  induction k generalizing t n with
  | zero => rwa [Nat.le_zero.1 hnk] at h
  | succ k ih =>
    refine List.all_eq_true.2 fun c hc => ?_
    obtain ⟨m, rfl, hm⟩ := depthAtMost_of_mem h hc
    exact ih hm (Nat.le_of_succ_le_succ hnk)

theorem exists_depthAtMost (t : Part) : ∃ n, t.depthAtMost n := by
  induction t using children_induction with
  | step t ih =>
    have hall : ∀ cs : List Part, (∀ c ∈ cs, c ∈ t.children) →
        ∃ n, ∀ c ∈ cs, c.depthAtMost n := by
      intro cs hcs
      induction cs with
      | nil => exact ⟨0, fun c hc => by cases hc⟩
      | cons c cs ihcs =>
        rw [List.forall_mem_cons] at hcs
        obtain ⟨i, hi⟩ := List.getElem?_of_mem hcs.1
        obtain ⟨n, hn⟩ := ih i c hi
        obtain ⟨k, hk⟩ := ihcs hcs.2
        refine ⟨max n k, List.forall_mem_cons.2 ⟨depthAtMost_mono hn (Nat.le_max_left n k), ?_⟩⟩
        exact fun d hd => depthAtMost_mono (hk d hd) (Nat.le_max_right n k)
    obtain ⟨n, hn⟩ := hall t.children fun _ hc => hc
    exact ⟨n + 1, List.all_eq_true.2 hn⟩

end Part

/-- A function whose body has no loops and is not deeper. -/
structure FunctionDecl.Covered (b : Nat) (f : FunctionDecl) : Prop where
  loopFree : (Part.method f).LoopFree
  depth : (Part.method f).depthAtMost b

/-! ### Where a run goes on -/

/-- A node that is called is a child, or the same loop again, or a statement of the body that a call is
applied to. -/
inductive GoesOn (ctx : Context) (n : Nat) : Part → RunState → Part → RunState → Prop
  | child {t s u s'} (hc : u ∈ t.children) (hdepth : s'.depth = s.depth) : GoesOn ctx n t s u s'
  | again {id condition body s s'} : GoesOn ctx n (.stmt (.loop id condition body)) s
      (.stmt (.loop id condition body)) s'
  | body {id callee paren arguments s c vs s₁ f s₂ st s'}
      (ha : Applies ctx n callee arguments s c vs s₁) (hs : Starts vs c s₁ f s₂)
      (hst : st ∈ f.declaration.body) (hdepth : s'.depth = s₁.depth) :
      GoesOn ctx n (.expr (.call id callee paren arguments)) s (.stmt st) s'

variable {ctx : Context} {n : Nat} {t u : Part} {s s' : RunState}

theorem Calls.goesOn (h : Calls ctx n t s u s') : GoesOn ctx n t s u s' := by
  have hdepth := h.depth_eq.1
  cases h with
  | @assigned id target equals value =>
    refine .child (List.mem_map_of_mem ?_) rfl
    cases ht : target.asVariable? <;> simp [Expr.children, ht]
  | argument hf hvs hi =>
    exact .child (List.mem_map_of_mem (List.mem_cons_of_mem _ (List.mem_of_getElem? hi))) hdepth
  | body ha hs hb hi =>
    have hbody := Outcome.Balanced.depth_eq (untilReturn_balanced ..) hb
    exact .body ha hs (List.mem_of_getElem? hi) (hbody.trans hs.depth_eq)
  | block he hb hi => exact .child (List.mem_map_of_mem (List.mem_of_getElem? hi)) hdepth
  | loopAgain => exact .again
  | _ => exact .child (by simp [Part.children, Expr.children]) hdepth

theorem Constructs.functions_iff {P : FunctionDecl → Prop} {c : ClassId} {f g : FunctionObject}
    (h : Constructs c s f g s') : s'.store.Functions P ↔ s.store.Functions P := by
  cases h with
  | mk hi hf hg =>
    cases hi
    cases hg
    exact Iff.rfl

/-- The initializer of a new instance is one of the functions there are. -/
theorem Constructs.declaration {P : FunctionDecl → Prop} {c : ClassId} {f g : FunctionObject}
    (hP : s.store.Functions P) (h : Constructs c s f g s') : P g.declaration := by
  cases h with
  | mk hi hf hg =>
    cases hi
    cases hg
    have hfound : P f.declaration := Store.Functions.method? (by exact hP) hf
    exact hfound

/-- The function that is started is one of the store. -/
theorem Starts.declaration {P : FunctionDecl → Prop} {callee : Expr} {arguments : List Expr}
    {c : Callable} {vs : List Value} {s₁ s₂ : RunState} {f : FunctionObject}
    (hP : s₁.store.Functions P) (ha : Applies ctx n callee arguments s c vs s₁)
    (h : Starts vs c s₁ f s₂) : P f.declaration := by
  cases h with
  | function he =>
    cases ha with
    | mk hf hvs hc => exact hP.callable? hc
  | construct hc he => exact hc.declaration hP

/-! ### The functions a run makes -/

/-- The functions that a node declares itself. -/
def Part.functions : Part → List FunctionDecl
  | .stmt (.function f) => [f]
  | .stmt (.classDecl _ _ _ methods) => methods
  | _ => []

namespace Store.Functions

variable {P : FunctionDecl → Prop} {st : Store}

theorem bindValue (h : st.Functions P) {f : FunctionObject} (hf : P f.declaration) (this : Value) :
    (st.bindValue f this).2.Functions P := by
  have hbound : (st.bind f this).2.Functions P := h
  exact hbound.newFunction hf

theorem methodScope (h : st.Functions P) (e : ScopeId) (c : Option ClassId) :
    (st.methodScope e c).2.Functions P := by
  cases c with
  | none => exact h
  | some c => exact h

theorem newMethods {fs : List FunctionDecl} (hfs : ∀ f ∈ fs, P f) (h : st.Functions P) (e : ScopeId)
    (table : Std.ExtTreeMap String FunctionId) : (newMethods e table fs st).2.Functions P := by
  induction fs generalizing table st with
  | nil => exact h
  | cons f fs ih =>
    rw [List.forall_mem_cons] at hfs
    exact ih hfs.2 (h.newFunction hfs.1) _

theorem makeClass {fs : List FunctionDecl} (hfs : ∀ f ∈ fs, P f) (h : st.Functions P) (x : String)
    (c : Option ClassId) (e : ScopeId) : (st.makeClass x c fs e).2.Functions P :=
  newMethods hfs h e ∅

end Store.Functions

/-- A node makes functions of its own declarations and of functions there are. -/
theorem Changes.functions {P : FunctionDecl → Prop} {st st' : Store} (h : Changes ctx n t s st st')
    (ht : ∀ f ∈ t.functions, P f) (hst : st.Functions P) : st'.Functions P := by
  cases h with
  | got ho hm => exact hst.bindValue (hst.member? hm) _
  | super hd hc ht hf => exact hst.bindValue (hst.method? hf) _
  | initialized ha hc =>
    cases hc with
    | mk hi hf hg =>
      cases hi
      cases hg
      exact hst
  | closed => exact hst.newFunction (ht _ List.mem_cons_self)
  | enclosed hc => exact hst.methodScope _ _
  | made hc he => exact hst.makeClass ht _ _ _
  | _ => exact hst

/-! ### Enough fuel -/

/-- What is left of a run with functions that are covered: it ends, and the functions there are then
are covered too. -/
def Finishes (b : Nat) (_ : Event → Prop) (st : Store) : Outcome Store Unit → Prop
  | .ok _ st' => st.Functions (·.Covered b) → st'.Functions (·.Covered b)
  | .raised _ st' => st.Functions (·.Covered b) → st'.Functions (·.Covered b)
  | .outOfFuel => ¬ st.Functions (·.Covered b)

theorem Finishes.account (b : Nat) : Account (Finishes b) where
  less _ h := h
  done _ h := h
  next := by
    intro M N st st' o h h'
    cases o with
    | ok a st'' => exact fun hst => h' (h hst)
    | raised fault st'' => exact fun hst => h' (h hst)
    | outOfFuel => exact fun hst => h' (h hst)

/-- A part is no deeper than the bodies, and there is fuel for its own depth and for a body in each call
that may still be nested. -/
structure Part.Covered (ctx : Context) (b n : Nat) (t : Part) (s : RunState) : Prop where
  loopFree : t.LoopFree
  fuel : ∃ k ≤ b, t.depthAtMost k ∧ k + (ctx.maxDepth - s.depth) * b < n
  store : s.store.Functions (·.Covered b)

namespace Part.Covered

variable {b : Nat}

/-- The functions that a part declares are covered. -/
theorem functions (h : t.Covered ctx b n s) : ∀ f ∈ t.functions, f.Covered b := by
  obtain ⟨k, hk, hdepth, -⟩ := h.fuel
  intro f hf
  cases t with
  | stmt st =>
    cases st with
    | function g =>
      obtain rfl := List.mem_singleton.1 hf
      refine ⟨h.loopFree.method, depthAtMost_mono ?_ hk⟩
      cases k <;> exact hdepth
    | classDecl id name superclass methods =>
      have hmem : Part.method f ∈ (Part.stmt (.classDecl id name superclass methods)).children :=
        List.mem_append_right _ (List.mem_map_of_mem hf)
      obtain ⟨m, rfl, hm⟩ := depthAtMost_of_mem hdepth hmem
      exact ⟨h.loopFree.of_mem hmem, depthAtMost_mono hm (Nat.le_of_succ_le hk)⟩
    | _ => cases hf
  | _ => cases hf

/-- Where a run goes on there is enough fuel, too. -/
theorem call (h : t.Covered ctx b (n + 1) s) (hc : Calls ctx n t s u s')
    (hstore : s'.store.Functions (·.Covered b))
    (happlied : ∀ id callee paren arguments st c vs s₁, t = .expr (.call id callee paren arguments) →
      u = .stmt st → Applies ctx n callee arguments s c vs s₁ → s₁.store.Functions (·.Covered b)) :
    u.Covered ctx b n s' := by
  obtain ⟨k, hk, hdepth, hfuel⟩ := h.fuel
  cases hc.goesOn with
  | child hmem hsame =>
    obtain ⟨m, rfl, hm⟩ := depthAtMost_of_mem hdepth hmem
    refine ⟨h.loopFree.of_mem hmem, ⟨m, Nat.le_of_succ_le hk, hm, ?_⟩, hstore⟩
    rw [hsame]
    omega
  | again => cases h.loopFree [] _ rfl
  | body ha hs hst hsame =>
    have hf := hs.declaration (happlied _ _ _ _ _ _ _ _ rfl rfl ha) ha
    have hmem := List.mem_map_of_mem (f := Part.stmt) hst
    obtain ⟨m, rfl, hm⟩ := depthAtMost_of_mem hf.depth hmem
    refine ⟨hf.loopFree.of_mem hmem, ⟨m, Nat.le_succ m, hm, ?_⟩, hstore⟩
    -- the call takes up one of those that may still be nested, which is fuel for a whole body
    obtain ⟨hnext, hlimit⟩ := ha.depth_eq
    have hleft : ctx.maxDepth - s.depth = (ctx.maxDepth - s'.depth) + 1 := by omega
    rw [hleft, Nat.add_mul, Nat.one_mul] at hfuel
    omega

/-- A run of a part that is covered ends, and makes only functions that are covered. -/
theorem accounts (ctx : Context) (b : Nat) : Accounts (Finishes b) ctx (Part.Covered ctx b) where
  account := Finishes.account b
  stop h := by
    obtain ⟨k, -, -, hfuel⟩ := h.fuel
    exact absurd hfuel (Nat.not_lt_zero _)
  visit _ h := h
  change h hch := hch.functions h.functions
  raise _ _ h := h
  call h hc hcomes happlied := by
    obtain ⟨M, hM⟩ := hcomes
    refine h.call hc (hM h.store) fun id callee paren arguments st c vs s₁ ht hu ha => ?_
    obtain ⟨N, hN⟩ := happlied id callee paren arguments st c vs s₁ ht hu ha
    exact hN h.store

end Part.Covered

/-! ### Programs -/

/-- A program without loops, no deeper than the bodies, ends if there is fuel for a body in each call
and for itself. -/
theorem Program.finishes (ctx : Context) (s : RunState) {b fuel : Nat} {p : Program}
    (hloop : (Part.program p).LoopFree) (hdepth : (Part.program p).depthAtMost b)
    (hfuel : (ctx.maxDepth + 1) * b ≤ fuel) (hstore : s.store.Functions (·.Covered b)) :
    ∃ st, ((Action.throughout (execute ctx fuel) p s).store = .ok () st ∨
        ∃ fault, (Action.throughout (execute ctx fuel) p s).store = .raised fault st) ∧
      st.Functions (·.Covered b) := by
  have hfinishes := (Part.Covered.accounts ctx b).program (n := fuel) (p := p) (s := s) ?_
  · cases ho : (Action.throughout (execute ctx fuel) p s).store with
    | ok a st =>
      rw [ho] at hfinishes
      exact ⟨st, .inl rfl, hfinishes hstore⟩
    | raised fault st =>
      rw [ho] at hfinishes
      exact ⟨st, .inr ⟨fault, rfl⟩, hfinishes hstore⟩
    | outOfFuel =>
      rw [ho] at hfinishes
      exact absurd hstore hfinishes
  · intro k st s' hi _ hcomes
    obtain ⟨M, hM⟩ := hcomes
    have hmem := List.mem_map_of_mem (f := Part.stmt) (List.mem_of_getElem? hi)
    obtain ⟨m, rfl, hm⟩ := Part.depthAtMost_of_mem hdepth hmem
    refine ⟨hloop.of_mem hmem, ⟨m, Nat.le_succ m, hm, ?_⟩, hM hstore⟩
    have hleft : (ctx.maxDepth - s'.depth) * (m + 1) ≤ ctx.maxDepth * (m + 1) :=
      Nat.mul_le_mul_right _ (Nat.sub_le _ _)
    rw [Nat.add_mul, Nat.one_mul] at hfuel
    omega

/-- An interpreter whose functions are covered runs such a program to its end. -/
theorem Interpreter.interpret_finishes {i : Interpreter} {b fuel : Nat} {p : Program}
    (table : Resolution) (hloop : (Part.program p).LoopFree) (hdepth : (Part.program p).depthAtMost b)
    (hfuel : (i.config.maxCallDepth + 1) * b ≤ fuel) (hstore : i.store.Functions (·.Covered b)) :
    ∃ report j, i.interpret fuel p table = some (report, j) ∧ j.store.Functions (·.Covered b) := by
  cases hfits : i.config.fitsStack with
  | false => exact ⟨_, _, interpret_of_not_fits hfits p table fuel, hstore⟩
  | true =>
    rw [interpret_of_fits hfits]
    obtain ⟨st, hend, hst⟩ := Program.finishes (i.learn table).context (i.learn table).start hloop
      hdepth hfuel hstore
    cases ho : Action.throughout (execute (i.learn table).context fuel) p (i.learn table).start with
    | ok a s =>
      rw [ho] at hend
      rcases hend with hend | ⟨fault, hend⟩ <;> cases hend
      exact ⟨_, _, rfl, hst⟩
    | raised fault s =>
      rw [ho] at hend
      rcases hend with hend | ⟨fault', hend⟩ <;> cases hend
      exact ⟨_, _, rfl, hst⟩
    | outOfFuel =>
      rw [ho] at hend
      rcases hend with hend | ⟨fault, hend⟩ <;> cases hend

/-! ### Sessions -/

/-- No loop is in a program. -/
abbrev Program.LoopFree (p : Program) : Prop := (Part.program p).LoopFree

namespace Session

variable {registry : NativeRegistry} {config : Config} {ps : List Program} {s s' : Session} {b : Nat}

/-- A session whose functions are covered hands back a result for such a program. -/
theorem run_finishes {p : Program} {fuel : Nat} (hloop : p.LoopFree)
    (hdepth : (Part.program p).depthAtMost b)
    (hfuel : (s.interpreter.config.maxCallDepth + 1) * b ≤ fuel)
    (hstore : s.interpreter.store.Functions (·.Covered b)) :
    ∃ result s', s.run fuel p = some (result, s') ∧
      s'.interpreter.store.Functions (·.Covered b) := by
  cases he : p.resolve.hasErrors with
  | true =>
    refine ⟨.rejected p.resolve.errors, s, ?_, hstore⟩
    unfold run
    exact if_pos he
  | false =>
    obtain ⟨report, j, hj, hj'⟩ := Interpreter.interpret_finishes p.resolve.table hloop hdepth hfuel
      hstore
    rw [run_of_resolved he, hj]
    exact ⟨_, _, rfl, hj'⟩

/-- The functions that programs without loops leave behind are covered. -/
theorem Given.functions (h : Given registry config ps s)
    (hps : ∀ q ∈ ps, q.LoopFree ∧ (Part.program q).depthAtMost b) :
    s.interpreter.store.Functions (·.Covered b) := by
  induction h with
  | @create s h =>
    obtain ⟨i, hi, rfl⟩ := Session.create_eq h
    exact Interpreter.functions_of_create hi _
  | @run ps p fuel result s s' h hr ih =>
    simp only [List.mem_append, List.mem_singleton, or_imp, forall_and, forall_eq] at hps
    -- the run ends in the same way with fuel for all bodies
    obtain ⟨result', s'', hr', hstore⟩ := run_finishes hps.1.2 hps.2.2
      (Nat.le_max_right fuel _) (ih fun q hq => ⟨hps.1.1 q hq, hps.2.1 q hq⟩)
    rw [run_mono hr (Nat.le_max_left _ _)] at hr'
    cases hr'
    exact hstore

theorem Given.config_eq (h : Given registry config ps s) : s.interpreter.config = config := by
  obtain ⟨Es, hE, -⟩ := h.exists_history
  exact hE.config_eq

/-- A session of programs without loops hands back a result for each, however recursive they are; there
is enough fuel if it lasts for the deepest program once outside of all calls and once in each call that
may be nested. -/
theorem run_terminates {p : Program} (h : Given registry config ps s)
    (hloop : ∀ q ∈ ps ++ [p], q.LoopFree) :
    (∃ result s', s.Gives p result s') ∧
      ∀ b, (∀ q ∈ ps ++ [p], (Part.program q).depthAtMost b) →
        ∀ fuel, (config.maxCallDepth + 1) * b ≤ fuel → (s.run fuel p).isSome := by
  simp only [List.mem_append, List.mem_singleton, or_imp, forall_and, forall_eq] at hloop ⊢
  have hbound : ∀ b, (∀ q ∈ ps, (Part.program q).depthAtMost b) ∧ (Part.program p).depthAtMost b →
      ∀ fuel, (config.maxCallDepth + 1) * b ≤ fuel → ∃ result s', s.run fuel p = some (result, s') := by
    intro b hdepth fuel hfuel
    rw [← h.config_eq] at hfuel
    obtain ⟨result, s', hr, -⟩ := run_finishes hloop.2 hdepth.2 hfuel
      (h.functions fun q hq => ⟨hloop.1 q hq, hdepth.1 q hq⟩)
    exact ⟨result, s', hr⟩
  constructor
  · -- one part around all programs, to have a common bound of their depths
    obtain ⟨b, hb⟩ := (Part.program ((ps ++ [p]).map (.block 0))).exists_depthAtMost
    have hdepth : ∀ q ∈ ps ++ [p], (Part.program q).depthAtMost b := by
      intro q hq
      obtain ⟨k, rfl, hk⟩ := Part.depthAtMost_of_mem hb
        (List.mem_map_of_mem (f := Part.stmt) (List.mem_map_of_mem hq))
      refine Part.depthAtMost_mono ?_ (Nat.le_succ k)
      cases k <;> exact hk
    obtain ⟨result, s', hr⟩ := hbound b ⟨fun q hq => hdepth q (List.mem_append_left _ hq),
      hdepth p (List.mem_append_right _ List.mem_cons_self)⟩ _ (Nat.le_refl _)
    exact ⟨result, s', _, hr⟩
  · intro b hdepth fuel hfuel
    obtain ⟨result, s', hr⟩ := hbound b hdepth fuel hfuel
    rw [hr]
    rfl

end Session

/-! ### Instances that make instances -/

/-- A class whose initializer makes another instance. -/
def Program.endlessClass : Program :=
  [.classDecl 0 ⟨.identifier, "A", .nil, 1⟩ none
    [⟨1, ⟨.identifier, "init", .nil, 1⟩, [],
      [.expression 2 (.call 3 (.var ⟨4, ⟨.identifier, "A", .nil, 1⟩⟩)
        ⟨.rightParen, ")", .nil, 1⟩ [])]⟩]]

/-- The class is asked for an instance. -/
def Program.callOfA : Program :=
  [.expression 5 (.call 6 (.var ⟨7, ⟨.identifier, "A", .nil, 1⟩⟩) ⟨.rightParen, ")", .nil, 1⟩ [])]

/-- A session that nests three calls at most hands back an error for the instance. -/
theorem Session.callOfA_terminates :
    ∃ s s', Session.Given {} { maxCallDepth := 3, natives := [] } [.endlessClass] s ∧
      (∀ q ∈ [Program.endlessClass] ++ [.callOfA], q.LoopFree) ∧
      (∀ q ∈ [Program.endlessClass] ++ [.callOfA], (Part.program q).depthAtMost 5) ∧
      (s.run 20 .callOfA).isSome ∧
      s.Gives .callOfA (.failed [] ⟨.stackOverflow 3, ⟨.rightParen, ")", .nil, 1⟩⟩) s' := by
  have hnew : ∃ s, Session.create {} { maxCallDepth := 3, natives := [] } = .ok s ∧
      ((s.run 20 .endlessClass).bind fun r => (r.2.run 20 .callOfA).map (·.1)) =
        some (.failed [] ⟨.stackOverflow 3, ⟨.rightParen, ")", .nil, 1⟩⟩) :=
    ⟨_, rfl, by decide +kernel⟩
  obtain ⟨s₀, hcreate, hruns⟩ := hnew
  obtain ⟨⟨result, s⟩, hfirst, hsecond⟩ := Option.bind_eq_some_iff.1 hruns
  obtain ⟨⟨result', s'⟩, hrun, rfl⟩ := Option.map_eq_some_iff.1 hsecond
  have hgiven := Session.Given.run (.create hcreate) hfirst
  have hloop : ∀ q ∈ [Program.endlessClass] ++ [.callOfA], q.LoopFree := by
    intro q hq
    rcases List.mem_append.1 hq with hq | hq <;> obtain rfl := List.mem_singleton.1 hq
    · exact .of_within 5 (by decide) (by decide)
    · exact .of_within 5 (by decide) (by decide)
  have hdepth : ∀ q ∈ [Program.endlessClass] ++ [.callOfA], (Part.program q).depthAtMost 5 := by
    intro q hq
    rcases List.mem_append.1 hq with hq | hq <;> obtain rfl := List.mem_singleton.1 hq <;> decide
  exact ⟨s, s', hgiven, hloop, hdepth,
    (Session.run_terminates hgiven hloop).2 5 hdepth 20 (by decide), 20, hrun⟩

end Lox
