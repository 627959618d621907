import Lox.Proofs.Run.Names

/-!
# Runs that go the same way

A run looks up in the resolution table only the nodes it is given and those of the functions there
are, it never looks at the lines printed before, and more fuel does not change it once it ends.  So it
goes the same way with another table that agrees on those nodes, after other lines, and with more fuel
(`replays`): the same result or fault in the same store, and the lines it prints come after the others.
-/

namespace Lox

/-- The same state, with lines printed before. -/
def RunState.after (lines : Array String) (s : RunState) : RunState :=
  { s with printed := lines ++ s.printed }

@[simp] theorem RunState.after_empty (s : RunState) : s.after #[] = s := by
  simp [after]

/-- All functions there are have their nodes among the given ones. -/
def Store.FunctionsIn (K : NodeId → Prop) (st : Store) : Prop :=
  ∀ id f, st.function? id = some f → (Part.method f.declaration).NodesIn K

/-- Two runs go the same way at the given nodes: they differ in the rest of the table only. -/
structure Context.AgreesOn (K : NodeId → Prop) (ctx ctx' : Context) : Prop where
  globals : ctx'.globals = ctx.globals
  table : ∀ id, K id → ctx'.table[id]? = ctx.table[id]?
  maxDepth : ctx'.maxDepth = ctx.maxDepth

theorem Context.AgreesOn.refl (K : NodeId → Prop) (ctx : Context) : ctx.AgreesOn K ctx :=
  ⟨rfl, fun _ _ => rfl, rfl⟩

variable (K : NodeId → Prop) (lines : Array String) (sameFuel : Prop) {α β : Type}

/-- From one state of a run to a later one at the same scope and call depth. -/
structure Stays (s t : RunState) : Prop where
  functions : t.store.FunctionsIn K
  scope : t.scope = s.scope
  depth : t.depth = s.depth

/-- How a run that started in `s` ended once, and how it ends after other lines; where it did not end
the first time, it does not end again if the fuel is the same. -/
def SameEnding (s : RunState) (Q : α → Prop) : Outcome RunState α → Outcome RunState α → Prop
  | .ok a t, o => o = .ok a (t.after lines) ∧ Stays K s t ∧ Q a
  | .raised fault t, o => o = .raised fault (t.after lines) ∧ Stays K s t
  | .outOfFuel, o => sameFuel → o = .outOfFuel

/-- A run goes the same way as another from every state, with results that satisfy `Q`. -/
def Replays (Q : α → Prop) (x x' : Run α) : Prop :=
  ∀ s, s.store.FunctionsIn K → SameEnding K lines sameFuel s Q (x s) (x' (s.after lines))

variable {K lines sameFuel}

/-- Any result. -/
def anyResult (_ : α) : Prop := True

namespace Store.FunctionsIn

variable {st : Store}

theorem functions (h : st.FunctionsIn K) : st.Functions fun f => (Part.method f).NodesIn K := h

theorem newFunction (h : st.FunctionsIn K) {f : FunctionObject}
    (hf : (Part.method f.declaration).NodesIn K) : (st.newFunction f).2.FunctionsIn K :=
  h.functions.newFunction hf

theorem method? (h : st.FunctionsIn K) {c : ClassId} {x : String} {f : FunctionObject}
    (hf : st.method? c x = some f) : (Part.method f.declaration).NodesIn K := h.functions.method? hf

theorem member? (h : st.FunctionsIn K) {i : InstanceId} {x : String} {f : FunctionObject}
    (hf : st.member? i x = some (.method f)) : (Part.method f.declaration).NodesIn K :=
  h.functions.member? hf

theorem callable? (h : st.FunctionsIn K) {v : Value} {f : FunctionObject}
    (hf : st.callable? v = some (.function f)) : (Part.method f.declaration).NodesIn K :=
  h.functions.callable? hf

end Store.FunctionsIn

theorem Stays.refl {s : RunState} (h : s.store.FunctionsIn K) : Stays K s s := ⟨h, rfl, rfl⟩

theorem Stays.trans {s t u : RunState} (h : Stays K s t) (h' : Stays K t u) : Stays K s u :=
  ⟨h'.functions, h'.scope.trans h.scope, h'.depth.trans h.depth⟩

theorem SameEnding.later {s t : RunState} {Q : α → Prop} {o o' : Outcome RunState α}
    (hs : Stays K s t) (h : SameEnding K lines sameFuel t Q o o') : SameEnding K lines sameFuel s Q o o' := by
  cases o with
  | ok a u => exact ⟨h.1, hs.trans h.2.1, h.2.2⟩
  | raised fault u => exact ⟨h.1, hs.trans h.2⟩
  | outOfFuel => exact h

/-! ### Rules -/

namespace Replays

variable {Q : α → Prop} {R : β → Prop}

theorem pure {a : α} (h : Q a) : Replays K lines sameFuel Q (Pure.pure a) (Pure.pure a) :=
  fun _ hs => ⟨rfl, .refl hs, h⟩

theorem raise (fault : Fault) :
    Replays K lines sameFuel Q (Action.raise fault) (Action.raise fault) := fun _ hs => ⟨rfl, .refl hs⟩

theorem fail (cause : RuntimeCause) (token : Token) :
    Replays K lines sameFuel Q (Action.fail cause token) (Action.fail cause token) := .raise _

theorem bind {x x' : Run α} {f f' : α → Run β} (hx : Replays K lines sameFuel Q x x')
    (hf : ∀ a, Q a → Replays K lines sameFuel R (f a) (f' a)) :
    Replays K lines sameFuel R (x >>= f) (x' >>= f') := by
  intro s hs
  have hx := hx s hs
  rw [Action.bind_apply, Action.bind_apply]
  cases ho : x s with
  | ok a t =>
    rw [ho] at hx
    obtain ⟨hx', hst, ha⟩ := hx
    rw [hx']
    exact (hf a ha t hst.functions).later hst
  | raised fault t =>
    rw [ho] at hx
    rw [hx.1]
    exact ⟨rfl, hx.2⟩
  | outOfFuel =>
    rw [ho] at hx
    intro he
    rw [hx he]

theorem mono {Q' : α → Prop} {x x' : Run α} (hx : Replays K lines sameFuel Q x x')
    (hQ : ∀ a, Q a → Q' a) : Replays K lines sameFuel Q' x x' := by
  intro s hs
  have hx := hx s hs
  cases ho : x s with
  | ok a t =>
    rw [ho] at hx
    exact ⟨hx.1, hx.2.1, hQ a hx.2.2⟩
  | raised fault t =>
    rw [ho] at hx
    exact hx
  | outOfFuel =>
    rw [ho] at hx
    exact hx

theorem currentScope :
    Replays K lines sameFuel anyResult Run.currentScope Run.currentScope :=
  fun _ hs => ⟨rfl, .refl hs, trivial⟩

theorem callDepth : Replays K lines sameFuel anyResult Run.callDepth Run.callDepth :=
  fun _ hs => ⟨rfl, .refl hs, trivial⟩

theorem ask {f : Store → α} (h : ∀ st, st.FunctionsIn K → Q (f st)) :
    Replays K lines sameFuel Q (Run.ask f) (Run.ask f) := fun s hs => ⟨rfl, .refl hs, h s.store hs⟩

theorem read (f : Store → α) : Replays K lines sameFuel anyResult (Run.ask f) (Run.ask f) :=
  .ask fun _ _ => trivial

theorem modifyStore {f : Store → Store} (h : ∀ st, st.FunctionsIn K → (f st).FunctionsIn K) :
    Replays K lines sameFuel anyResult (Run.modifyStore f) (Run.modifyStore f) :=
  fun s hs => ⟨rfl, ⟨h s.store hs, rfl, rfl⟩, trivial⟩

theorem alloc {f : Store → α × Store}
    (h : ∀ st, st.FunctionsIn K → (f st).2.FunctionsIn K ∧ Q (f st).1) :
    Replays K lines sameFuel Q (Run.alloc f) (Run.alloc f) :=
  fun s hs => ⟨rfl, ⟨(h s.store hs).1, rfl, rfl⟩, (h s.store hs).2⟩

/-- Making anything but a function. -/
theorem make {f : Store → α × Store} (h : ∀ st, st.FunctionsIn K → (f st).2.FunctionsIn K) :
    Replays K lines sameFuel anyResult (Run.alloc f) (Run.alloc f) :=
  .alloc fun st hst => ⟨h st hst, trivial⟩

theorem define (x : String) (v : Value) :
    Replays K lines sameFuel anyResult (Run.define x v) (Run.define x v) :=
  fun _ hs => ⟨rfl, ⟨hs, rfl, rfl⟩, trivial⟩

theorem print (line : String) :
    Replays K lines sameFuel anyResult (Run.print line) (Run.print line) := by
  intro s hs
  refine ⟨?_, ⟨hs, rfl, rfl⟩, trivial⟩
  show Outcome.ok () { s.after lines with printed := (lines ++ s.printed).push line } = _
  rw [Array.push_append]
  rfl

theorem ofScope (x : Except ScopeFault α) :
    Replays K lines sameFuel anyResult (Run.ofScope x) (Run.ofScope x) := by
  cases x with
  | ok a => exact .pure trivial
  | error fault => exact .raise _

theorem ofExcept (x : Except Fault α) :
    Replays K lines sameFuel anyResult (Action.ofExcept x) (Action.ofExcept x) := by
  cases x with
  | ok a => exact .pure trivial
  | error fault => exact .raise _

theorem inScope {x x' : Run α} (e : ScopeId) (hx : Replays K lines sameFuel Q x x') :
    Replays K lines sameFuel Q (Run.inScope e x) (Run.inScope e x') := by
  intro s hs
  have hx : SameEnding K lines sameFuel { s with scope := e } Q (x { s with scope := e })
      (x' { s.after lines with scope := e }) := hx _ hs
  unfold Run.inScope
  cases ho : x { s with scope := e } with
  | ok a t =>
    rw [ho] at hx
    rw [hx.1]
    exact ⟨rfl, ⟨hx.2.1.functions, rfl, hx.2.1.depth⟩, hx.2.2⟩
  | raised fault t =>
    rw [ho] at hx
    rw [hx.1]
    exact ⟨rfl, hx.2.functions, rfl, hx.2.depth⟩
  | outOfFuel =>
    rw [ho] at hx
    intro he
    rw [hx he]

theorem deeper {x x' : Run α} (hx : Replays K lines sameFuel Q x x') :
    Replays K lines sameFuel Q (Run.deeper x) (Run.deeper x') := by
  intro s hs
  have hx : SameEnding K lines sameFuel { s with depth := s.depth + 1 } Q
      (x { s with depth := s.depth + 1 })
      (x' { s.after lines with depth := (s.after lines).depth + 1 }) := hx _ hs
  unfold Run.deeper
  cases ho : x { s with depth := s.depth + 1 } with
  | ok a t =>
    rw [ho] at hx
    rw [hx.1]
    exact ⟨rfl, ⟨hx.2.1.functions, hx.2.1.scope, by rw [hx.2.1.depth]; rfl⟩, hx.2.2⟩
  | raised fault t =>
    rw [ho] at hx
    rw [hx.1]
    exact ⟨rfl, hx.2.functions, hx.2.scope, by rw [hx.2.depth]; rfl⟩
  | outOfFuel =>
    rw [ho] at hx
    intro he
    rw [hx he]

/-! ### Lists -/

theorem collect {f f' : α → Run β} {as : List α}
    (h : ∀ a ∈ as, Replays K lines sameFuel anyResult (f a) (f' a)) :
    Replays K lines sameFuel anyResult (Action.collect f as) (Action.collect f' as) := by
  induction as with
  | nil => exact .pure trivial
  | cons a as ih =>
    rw [List.forall_mem_cons] at h
    exact h.1.bind fun b _ => (ih h.2).bind fun bs _ => .pure trivial

theorem untilReturn {f f' : α → Run Completion} {as : List α}
    (h : ∀ a ∈ as, Replays K lines sameFuel anyResult (f a) (f' a)) :
    Replays K lines sameFuel anyResult (Action.untilReturn f as) (Action.untilReturn f' as) := by
  induction as with
  | nil => exact .pure trivial
  | cons a as ih =>
    rw [List.forall_mem_cons] at h
    refine h.1.bind fun c _ => ?_
    cases c with
    | normal => exact ih h.2
    | returned v => exact .pure trivial

theorem throughout {f f' : α → Run Completion} {as : List α}
    (h : ∀ a ∈ as, Replays K lines sameFuel anyResult (f a) (f' a)) :
    Replays K lines sameFuel anyResult (Action.throughout f as) (Action.throughout f' as) := by
  induction as with
  | nil => exact .pure trivial
  | cons a as ih =>
    rw [List.forall_mem_cons] at h
    exact h.1.bind fun _ _ => ih h.2

end Replays

/-! ### The operations of a run -/

section Operations

theorem bindValue_replays {f : FunctionObject} (hf : (Part.method f.declaration).NodesIn K)
    (this : Value) : Replays K lines sameFuel anyResult (Run.alloc (·.bindValue f this))
      (Run.alloc (·.bindValue f this)) := by
  refine .alloc fun st hst => ⟨?_, trivial⟩
  have hbound : (st.bind f this).2.FunctionsIn K := hst
  exact hbound.newFunction hf

theorem getProperty_replays (i : InstanceId) (name : Token) :
    Replays K lines sameFuel anyResult (Run.getProperty i name) (Run.getProperty i name) := by
  refine (Replays.ask (Q := fun m => ∀ f, m = some (.method f) →
    (Part.method f.declaration).NodesIn K) fun st hst f hf => hst.member? hf).bind fun m hm => ?_
  cases m with
  | none => exact .fail _ _
  | some m =>
    cases m with
    | field v => exact .pure trivial
    | method f => exact bindValue_replays (hm f rfl) _

theorem closeOver_replays {f : FunctionDecl} (hf : (Part.method f).NodesIn K) (scope : ScopeId)
    (isInitializer : Bool) : Replays K lines sameFuel anyResult
      (Run.closeOver scope isInitializer f) (Run.closeOver scope isInitializer f) :=
  .alloc fun _ hst => ⟨hst.newFunction hf, trivial⟩

theorem methodTable_replays {fs : List FunctionDecl} (hfs : ∀ f ∈ fs, (Part.method f).NodesIn K)
    (scope : ScopeId) (table : Std.ExtTreeMap String FunctionId) :
    Replays K lines sameFuel anyResult (Run.methodTable scope table fs)
      (Run.methodTable scope table fs) := by
  induction fs generalizing table with
  | nil => exact .pure trivial
  | cons f fs ih =>
    rw [List.forall_mem_cons] at hfs
    exact (closeOver_replays hfs.1 _ _).bind fun id _ => ih hfs.2 _

theorem declareMethods_replays {methods : List FunctionDecl}
    (hm : ∀ f ∈ methods, (Part.method f).NodesIn K) (name : Token) (superclass : Option ClassId)
    (scope methodScope : ScopeId) : Replays K lines sameFuel anyResult
      (Run.declareMethods name superclass methods scope methodScope)
      (Run.declareMethods name superclass methods scope methodScope) := by
  refine (methodTable_replays hm _ _).bind fun table _ => ?_
  refine (Replays.make fun _ hst => hst).bind fun c _ => (Replays.read _).bind fun owner _ => ?_
  cases owner with
  | some owner => exact .modifyStore fun _ hst => hst
  | none => exact .fail _ _

theorem declareClass_replays {methods : List FunctionDecl}
    (hm : ∀ f ∈ methods, (Part.method f).NodesIn K) (name : Token) (superclass : Option ClassId) :
    Replays K lines sameFuel anyResult (Run.declareClass name superclass methods)
      (Run.declareClass name superclass methods) := by
  refine (Replays.define _ _).bind fun _ _ => Replays.currentScope.bind fun scope _ => ?_
  cases superclass with
  | none => exact declareMethods_replays hm name none scope scope
  | some c =>
    exact (Replays.make fun _ hst => hst).bind fun methodScope _ =>
      declareMethods_replays hm name (some c) scope methodScope

/-! #### Calls -/

variable {runBody runBody' : List Stmt → Run Completion}

/-- The bodies of functions are run the same way. -/
def BodiesReplay (K : NodeId → Prop) (lines : Array String) (sameFuel : Prop)
    (runBody runBody' : List Stmt → Run Completion) : Prop :=
  ∀ f : FunctionDecl, (Part.method f).NodesIn K →
    Replays K lines sameFuel anyResult (runBody f.body) (runBody' f.body)

variable (hbody : BodiesReplay K lines sameFuel runBody runBody')

include hbody

theorem callFunction_replays {f : FunctionObject} (hf : (Part.method f.declaration).NodesIn K)
    (vs : List Value) : Replays K lines sameFuel anyResult (Run.callFunction runBody f vs)
      (Run.callFunction runBody' f vs) := by
  have henter : Replays K lines sameFuel anyResult (Run.enterFunction f vs)
      (Run.enterFunction f vs) := .make fun _ hst => hst
  refine henter.bind fun scope _ => (Replays.inScope scope (hbody _ hf)).bind fun c _ => ?_
  cases f.isInitializer with
  | true => exact (Replays.read _).bind fun this _ => .ofScope this
  | false =>
    cases c with
    | normal => exact .pure trivial
    | returned v => exact .pure trivial

theorem construct_replays (c : ClassId) (vs : List Value) :
    Replays K lines sameFuel anyResult (Run.construct runBody c vs)
      (Run.construct runBody' c vs) := by
  refine (Replays.make fun _ hst => hst).bind fun i _ => ?_
  refine (Replays.ask (Q := fun m => ∀ f, m = some f → (Part.method f.declaration).NodesIn K)
    fun st hst f hf => hst.method? hf).bind fun m hm => ?_
  cases m with
  | none => exact .pure trivial
  | some f =>
    refine Replays.bind (Q := fun g => (Part.method g.declaration).NodesIn K)
      (.alloc fun _ hst => ⟨hst, hm f rfl⟩) fun g hg => ?_
    exact (callFunction_replays hbody hg vs).bind fun _ _ => .pure trivial

theorem call_replays {ctx ctx' : Context} (hctx : ctx.AgreesOn K ctx') (paren : Token) (v : Value)
    (vs : List Value) : Replays K lines sameFuel anyResult (Run.call ctx runBody paren v vs)
      (Run.call ctx' runBody' paren v vs) := by
  unfold Run.call
  rw [hctx.maxDepth]
  refine (Replays.ask (Q := fun c => ∀ f, c = some (.function f) →
    (Part.method f.declaration).NodesIn K) fun st hst f hf => hst.callable? hf).bind fun c hc => ?_
  cases c with
  | none => exact .fail _ _
  | some c =>
    refine (Replays.read _).bind fun arity _ => ?_
    by_cases harity : (vs.length : Int) = arity
    · rw [if_neg (fun h => h harity), if_neg (fun h => h harity)]
      refine Replays.callDepth.bind fun depth _ => ?_
      by_cases hdepth : ctx.maxDepth ≤ depth
      · rw [if_pos hdepth, if_pos hdepth]
        exact .fail _ _
      · rw [if_neg hdepth, if_neg hdepth]
        refine .deeper ?_
        cases c with
        | function f => exact callFunction_replays hbody (hc f rfl) vs
        | native n => exact .pure trivial
        | cls c => exact construct_replays hbody c vs
    · rw [if_pos harity, if_pos harity]
      exact .fail _ _

end Operations

/-! ### What depends on the table -/

section Table

variable {ctx ctx' : Context} (hctx : ctx.AgreesOn K ctx')

include hctx

theorem lookUp_replays {id : NodeId} (hid : K id) (name : Token) :
    Replays K lines sameFuel anyResult (Run.lookUp ctx id name) (Run.lookUp ctx' id name) := by
  unfold Run.lookUp
  rw [hctx.table id hid, hctx.globals]
  cases ctx.table[id]? with
  | some d =>
    exact Replays.currentScope.bind fun scope _ => (Replays.read _).bind fun x _ => .ofScope x
  | none =>
    refine (Replays.read _).bind fun v _ => ?_
    cases v with
    | some v => exact .pure trivial
    | none => exact .fail _ _

theorem assign_replays {id : NodeId} (hid : K id) (name : Token) (v : Value) :
    Replays K lines sameFuel anyResult (Run.assign ctx id name v) (Run.assign ctx' id name v) := by
  have hscope : Replays K lines sameFuel anyResult (Run.assignedScope ctx id name)
      (Run.assignedScope ctx' id name) := by
    unfold Run.assignedScope
    rw [hctx.table id hid, hctx.globals]
    cases ctx.table[id]? with
    | some d =>
      exact Replays.currentScope.bind fun scope _ => (Replays.read _).bind fun x _ => .ofScope x
    | none =>
      refine (Replays.read _).bind fun e _ => ?_
      cases e with
      | some e => exact .pure trivial
      | none => exact .fail _ _
  exact hscope.bind fun _ _ => .modifyStore fun _ hst => hst

theorem superMethod_replays {id : NodeId} (hid : K id) (method : Token) :
    Replays K lines sameFuel anyResult (Run.superMethod ctx id method)
      (Run.superMethod ctx' id method) := by
  unfold Run.superMethod
  rw [hctx.table id hid]
  cases ctx.table[id]? with
  | none => exact .raise _
  | some d =>
    refine Replays.currentScope.bind fun scope _ => ?_
    refine (Replays.read _).bind fun x _ => (Replays.ofScope x).bind fun superclass _ => ?_
    refine (Replays.read _).bind fun y _ => (Replays.ofScope y).bind fun this _ => ?_
    cases superclass with
    | cls c =>
      refine (Replays.ask (Q := fun m => ∀ f, m = some f → (Part.method f.declaration).NodesIn K)
        fun st hst f hf => hst.method? hf).bind fun m hm => ?_
      cases m with
      | some f => exact bindValue_replays (hm f rfl) _
      | none => exact .fail _ _
    | _ => exact .raise _

/-! ### Whole runs -/

/-- Runs with so much fuel go the same way with so much fuel. -/
structure RunsReplay (K : NodeId → Prop) (lines : Array String) (sameFuel : Prop)
    (ctx ctx' : Context) (n k : Nat) : Prop where
  expr : ∀ {e}, (Part.expr e).NodesIn K →
    Replays K lines sameFuel anyResult (evaluate ctx n e) (evaluate ctx' k e)
  stmt : ∀ {st}, (Part.stmt st).NodesIn K →
    Replays K lines sameFuel anyResult (execute ctx n st) (execute ctx' k st)

variable {n k : Nat}

omit hctx in
theorem RunsReplay.body (ih : RunsReplay K lines sameFuel ctx ctx' n k) :
    BodiesReplay K lines sameFuel (Action.untilReturn (execute ctx n))
      (Action.untilReturn (execute ctx' k)) :=
  fun _ hf => .untilReturn fun _ hst => ih.stmt (hf.of_mem (List.mem_map_of_mem hst))

/-- One step of the induction, for expressions. -/
theorem evaluate_replays (ih : RunsReplay K lines sameFuel ctx ctx' n k) {e : Expr}
    (he : (Part.expr e).NodesIn K) :
    Replays K lines sameFuel anyResult (evaluate ctx (n + 1) e) (evaluate ctx' (k + 1) e) := by
  have hid : K e.id := he.self rfl
  cases e with
  | literal id value => exact .ofExcept _
  | var ref => exact lookUp_replays hctx hid ref.name
  | assign id target equals value =>
    have hvalue : (Expr.assign id target equals value).children[0]? = some value := by
      cases ht : target.asVariable? <;> simp [Expr.children, ht]
    refine (ih.expr (he.child 0 (getElem?_map_some hvalue))).bind fun v _ => ?_
    exact (assign_replays hctx hid _ v).bind fun _ _ => .pure trivial
  | binary id left operator right =>
    exact (ih.expr (he.child 0 rfl)).bind fun l _ =>
      (ih.expr (he.child 1 rfl)).bind fun r _ => .ofExcept _
  | logical id left operator right =>
    refine (ih.expr (he.child 0 rfl)).bind fun l _ => ?_
    cases operator.decidesLogical l with
    | true => exact .pure trivial
    | false => exact ih.expr (he.child 1 rfl)
  | unary id operator operand =>
    exact (ih.expr (he.child 0 rfl)).bind fun v _ => .ofExcept _
  | grouping id inner => exact ih.expr (he.child 0 rfl)
  | call id callee paren arguments =>
    refine (ih.expr (he.child 0 rfl)).bind fun f _ => ?_
    have harguments : Replays K lines sameFuel anyResult
        (Action.collect (evaluate ctx n) arguments)
        (Action.collect (evaluate ctx' k) arguments) := .collect fun a ha =>
      ih.expr (he.of_mem (List.mem_map_of_mem (List.mem_cons_of_mem _ ha)))
    exact harguments.bind fun vs _ => call_replays ih.body hctx paren f vs
  | get id object name =>
    refine (ih.expr (he.child 0 rfl)).bind fun v _ => ?_
    cases v with
    | inst i => exact getProperty_replays i name
    | _ => exact .fail _ _
  | set id object name value =>
    refine (ih.expr (he.child 0 rfl)).bind fun v _ => ?_
    cases v with
    | inst i =>
      exact (ih.expr (he.child 1 rfl)).bind fun w _ =>
        (Replays.modifyStore (f := (·.setField i name.lexeme w)) fun _ hst => hst).bind
          fun _ _ => .pure trivial
    | _ => exact .fail _ _
  | this id keyword => exact lookUp_replays hctx hid keyword
  | super id keyword method => exact superMethod_replays hctx hid method

omit hctx in
/-- One step of the induction, for statements. -/
theorem execute_replays (ih : RunsReplay K lines sameFuel ctx ctx' n k) {st : Stmt}
    (hst : (Part.stmt st).NodesIn K) :
    Replays K lines sameFuel anyResult (execute ctx (n + 1) st) (execute ctx' (k + 1) st) := by
  cases st with
  | block id body =>
    refine Replays.currentScope.bind fun current _ =>
      (Replays.make fun _ hst => hst).bind fun scope _ => .inScope scope ?_
    exact .untilReturn fun s hs => ih.stmt (hst.of_mem (List.mem_map_of_mem hs))
  | expression id e => exact (ih.expr (hst.child 0 rfl)).bind fun v _ => .pure trivial
  | print id e =>
    exact (ih.expr (hst.child 0 rfl)).bind fun v _ => (Replays.read _).bind fun line _ =>
      (Replays.print line).bind fun _ _ => .pure trivial
  | varDecl id name initializer =>
    cases initializer with
    | none => exact (Replays.define _ _).bind fun _ _ => .pure trivial
    | some e =>
      exact (ih.expr (hst.child 0 rfl)).bind fun v _ =>
        (Replays.define _ v).bind fun _ _ => .pure trivial
  | branch id condition thenBranch elseBranch =>
    refine (ih.expr (hst.child 0 rfl)).bind fun v _ => ?_
    cases v.truthy with
    | true => exact ih.stmt (hst.child 1 rfl)
    | false =>
      cases elseBranch with
      | none => exact .pure trivial
      | some s => exact ih.stmt (hst.child 2 rfl)
  | loop id condition body =>
    refine (ih.expr (hst.child 0 rfl)).bind fun v _ => ?_
    cases v.truthy with
    | true =>
      refine (ih.stmt (hst.child 1 rfl)).bind fun c _ => ?_
      cases c with
      | normal => exact ih.stmt hst
      | returned w => exact .pure trivial
    | false => exact .pure trivial
  | function f =>
    exact Replays.currentScope.bind fun scope _ => (closeOver_replays hst.method _ _).bind
      fun id _ => (Replays.define _ _).bind fun _ _ => .pure trivial
  | ret id keyword value =>
    cases value with
    | none => exact .pure trivial
    | some e => exact (ih.expr (hst.child 0 rfl)).bind fun v _ => .pure trivial
  | classDecl id name superclass methods =>
    cases superclass with
    | none =>
      have hmethods : ∀ f ∈ methods, (Part.method f).NodesIn K := fun f hf =>
        hst.of_mem (List.mem_map_of_mem hf)
      exact (declareClass_replays hmethods name none).bind fun _ _ => .pure trivial
    | some ref =>
      have hmethods : ∀ f ∈ methods, (Part.method f).NodesIn K := fun f hf =>
        hst.of_mem (List.mem_cons_of_mem _ (List.mem_map_of_mem hf))
      refine (ih.expr (hst.child 0 rfl)).bind fun v _ => ?_
      have hclass : Replays K lines sameFuel anyResult (Run.superclass ref.name v)
          (Run.superclass ref.name v) := by
        cases v with
        | cls c => exact .pure trivial
        | _ => exact .fail _ _
      exact hclass.bind fun c _ =>
        (declareClass_replays hmethods name (some c)).bind fun _ _ => .pure trivial

/-- With a table that agrees on its nodes, after other lines, and with at least as much fuel, a run
goes the same way. -/
theorem replays {n k : Nat} (hnk : n ≤ k) (hsame : sameFuel → n = k) :
    RunsReplay K lines sameFuel ctx ctx' n k := by
  induction n generalizing k with
  | zero =>
    refine ⟨fun _ s _ he => ?_, fun _ s _ he => ?_⟩
    · obtain rfl := hsame he
      rfl
    · obtain rfl := hsame he
      rfl
  | succ n ih =>
    cases k with
    | zero => exact absurd hnk (Nat.not_succ_le_zero n)
    | succ k =>
      have hrec := ih (Nat.le_of_succ_le_succ hnk) fun he => Nat.succ.inj (hsame he)
      exact ⟨evaluate_replays hctx hrec, execute_replays hrec⟩

/-- The same for the statements of a program. -/
theorem throughout_replays {n k : Nat} (hnk : n ≤ k) (hsame : sameFuel → n = k) {p : Program}
    (hp : (Part.program p).NodesIn K) : Replays K lines sameFuel anyResult
      (Action.throughout (execute ctx n) p) (Action.throughout (execute ctx' k) p) :=
  .throughout fun _ hst => (replays hctx hnk hsame).stmt (hp.of_mem (List.mem_map_of_mem hst))

end Table

end Lox
