import Lox.Proofs.Run.Ancestry
import Lox.Proofs.Run.CallEnds
import Lox.Proofs.Run.ThisKept

/-!
# Construction

A class that is called makes an instance and hands it back, whatever its initializer does and returns; it
takes as many arguments as the nearest initializer has parameters (`ConstructsNew`).  Where nothing but a
`this` has that name, an initializer that is called as a method hands back its instance too, in whatever
program and however late it is called, for nothing has changed the `this` it closes over; a function that is
no method hands back what its body does (`CallYields`).
-/

namespace Lox

namespace Store

/-- A class takes so many arguments: as many as the nearest initializer has parameters, from the class on to
its ancestors, or none if there is no initializer. -/
inductive Takes (st : Store) (c : ClassId) : Nat → Prop
  | initializer {n mid f}
      (hw : Walks (st.ownMethod? FunctionDecl.initializerName) st.superclass? n c (some mid))
      (hf : st.function? mid = some f) : st.Takes c f.declaration.params.length
  | nothing {n} (hw : Walks (st.ownMethod? FunctionDecl.initializerName) st.superclass? n c none) :
      st.Takes c 0

/-- An instance is none of the objects of a store, and no variable or field holds it. -/
structure Lacks (st : Store) (i : InstanceId) : Prop where
  object : st.instance? i = none
  unbound : ∀ e x, st.read? e x ≠ some (.inst i)
  unset : ∀ j x, st.field? j x ≠ some (.inst i)

namespace Grounded

variable {g : ScopeId} {st : Store} (h : st.Grounded g)

include h

/-- The number of arguments is that of the search for the initializer. -/
theorem takes {c : ClassId} (hc : (st.class? c).isSome) :
    ∃ k : Nat, st.Takes c k ∧ st.arity (.cls c) = k := by
  obtain ⟨n, hw⟩ := h.walks_findMethod? hc FunctionDecl.initializerName
  cases hm : st.findMethod? c FunctionDecl.initializerName with
  | none =>
    rw [hm] at hw
    refine ⟨0, .nothing hw, ?_⟩
    simp only [arity, initializer?, Store.method?, hm, Option.bind_none]
    rfl
  | some mid =>
    obtain ⟨k, cls, -, hk, hown⟩ := declarer_of_findMethod? hm
    obtain ⟨f, hf⟩ := Option.isSome_iff_exists.1 (h.methods k cls _ mid hk hown)
    rw [hm] at hw
    refine ⟨_, .initializer hw hf, ?_⟩
    simp only [arity, initializer?, Store.method?, hm, Option.bind_some, hf]
    rfl

omit h in
theorem not_knows_new : ¬ st.Knows (.inst ⟨st.instances.size⟩) := by
  have hnone : st.instance? ⟨st.instances.size⟩ = none := Array.getElem?_eq_none (Nat.le_refl _)
  intro hv
  change (st.instance? _).isSome at hv
  rw [hnone] at hv
  cases hv

/-- The next instance is a new one. -/
theorem lacks_new : st.Lacks ⟨st.instances.size⟩ where
  object := Array.getElem?_eq_none (Nat.le_refl _)
  unbound e x hv := not_knows_new (h.values e x _ hv)
  unset i x hv := not_knows_new (h.fields i x _ hv)

end Grounded

end Store

/-! ### Calls of classes -/

section

variable {ctx : Context} {n : Nat} {s s₁ s₂ s' : RunState} {c : ClassId} {vs : List Value} {v : Value}

theorem Constructs.persists {f g : FunctionObject} (hc : Constructs c s f g s₁) :
    (s.store.newInstance c).2.PersistsIn s₁.store := by
  cases hc with
  | mk hi hf hg =>
    cases hi
    cases hg
    exact .newScope ..

/-- A class that has handed back a value has handed back the instance that it has made. -/
theorem Run.construct_new
    (h : Run.construct (Action.untilReturn (execute ctx n)) c vs s = .ok v s') :
    v = .inst ⟨s.store.instances.size⟩ ∧
      ∃ o, s'.store.instance? ⟨s.store.instances.size⟩ = some o ∧ o.cls = c := by
  have hnew : (s.store.newInstance c).2.instance? ⟨s.store.instances.size⟩ = some { cls := c } :=
    (Store.instance?_newInstance ..).trans (if_pos rfl)
  rcases Run.construct_eq_ok h with hnone | ⟨f, g, s₁, scope, s₂, completion, s₃, hc, he, hb⟩
  · rw [Run.construct_of_none hnone] at h
    cases h
    exact ⟨rfl, _, hnew, rfl⟩
  · have hentered : s₁.store.PersistsIn s₂.store := by
      cases he
      exact .newScope ..
    have hbody := untilReturn_persists hb
    rw [Run.construct_of_body hc he hb hbody] at h
    cases h
    obtain ⟨o, ho, hcls, -⟩ := (hc.persists.trans (hentered.trans hbody)).instances _ _ hnew
    exact ⟨rfl, o, ho, hcls⟩

/-- So has one that the host has called. -/
theorem Interpreter.invoke_new {i i' : Interpreter} {fuel : Nat} {lines : List String}
    (h : i.invoke fuel (.cls c) vs = some (.ok v, lines, i')) :
    v = .inst ⟨i.store.instances.size⟩ ∧
      ∃ o, i'.store.instance? ⟨i.store.instances.size⟩ = some o ∧ o.cls = c := by
  unfold Interpreter.invoke at h
  split at h
  · rename_i hconstruct
    cases h
    exact Run.construct_new (s := i.start) hconstruct
  · cases h
  · cases h

/-- What a call of a class comes to, when its callee and its arguments are known: it takes the arguments if
there are as many as it takes; the instance it makes is a new one of just that class; this is what it hands
back if it ends, and it ends whenever the body of the initializer does, however that completes, or if there
is no initializer. -/
structure ConstructsNew (ctx : Context) (n : Nat) (id : NodeId) (callee : Expr) (paren : Token)
    (arguments : List Expr) (s : RunState) (c : ClassId) (vs : List Value) (s₁ : RunState) : Prop where
  takes : ∃ k, s₁.store.Takes c k ∧
    (vs.length ≠ k → evaluate ctx (n + 1) (.call id callee paren arguments) s =
      .raised (.error ⟨.arity k vs.length, paren⟩) s₁) ∧
    (vs.length = k → ctx.maxDepth ≤ s₁.depth →
      evaluate ctx (n + 1) (.call id callee paren arguments) s =
        .raised (.error ⟨.stackOverflow ctx.maxDepth, paren⟩) s₁) ∧
    (vs.length = k → s₁.depth < ctx.maxDepth →
      Applies ctx n callee arguments s (.cls c) vs { s₁ with depth := s₁.depth + 1 })
  fresh : s₁.store.Lacks ⟨s₁.store.instances.size⟩ ∧ .inst ⟨s₁.store.instances.size⟩ ∉ vs
  ended : ∀ v s', evaluate ctx (n + 1) (.call id callee paren arguments) s = .ok v s' →
    v = .inst ⟨s₁.store.instances.size⟩ ∧
      ∃ o, s'.store.instance? ⟨s₁.store.instances.size⟩ = some o ∧ o.cls = c
  plain : ∀ s₂, Applies ctx n callee arguments s (.cls c) vs s₂ →
    s₁.store.initializer? c = none →
      evaluate ctx (n + 1) (.call id callee paren arguments) s =
        .ok (.inst ⟨s₁.store.instances.size⟩)
          { s₁ with store := (s₁.store.newInstance c).2, scope := s.scope, depth := s.depth }
  body : ∀ s₂ f s₃ completion s₄, Applies ctx n callee arguments s (.cls c) vs s₂ →
    Starts vs (.cls c) s₂ f s₃ →
      Action.untilReturn (execute ctx n) f.declaration.body s₃ = .ok completion s₄ →
        evaluate ctx (n + 1) (.call id callee paren arguments) s =
          .ok (.inst ⟨s₁.store.instances.size⟩) { s₄ with scope := s.scope, depth := s.depth }

/-- So it is in every state whose objects lead to objects that are there. -/
theorem RunState.Grounded.constructsNew {g : ScopeId} (hs : s.Grounded g) {callee : Expr}
    {arguments : List Expr} (hf : evaluate ctx n callee s = .ok (.cls c) s₁)
    (hvs : Action.collect (evaluate ctx n) arguments s₁ = .ok vs s₂) (id : NodeId) (paren : Token) :
    ConstructsNew ctx n id callee paren arguments s c vs s₂ := by
  obtain ⟨hs₁, hknown⟩ := hs.evaluated hf
  obtain ⟨hs₂, hvalues⟩ := hs₁.collected hvs
  have hc : (s₂.store.class? c).isSome := by
    have hp : s₁.store.PersistsIn s₂.store := collect_persists hvs
    exact hp.isSome_class? hknown
  obtain ⟨cls, hcls⟩ := Option.isSome_iff_exists.1 hc
  have hcallable : s₂.store.callable? (.cls c) = some (.cls c) := by
    rw [Store.callable?, hcls]
    rfl
  obtain ⟨k, hk, harity⟩ := hs₂.store.takes hc
  have happlied : ∀ {c' vs' s₃}, Applies ctx n callee arguments s c' vs' s₃ →
      c' = .cls c ∧ vs' = vs ∧ s₃ = { s₂ with depth := s₂.depth + 1 } := by
    intro c' vs' s₃ ha
    cases ha with
    | mk hf' hvs' hc' =>
      cases hf.symm.trans hf'
      cases hvs.symm.trans hvs'
      cases hcallable.symm.trans hc'
      exact ⟨rfl, rfl, rfl⟩
  constructor
  case takes =>
    refine ⟨k, hk, fun hne => ?_, fun heq hdepth => ?_, fun heq hdepth => ?_⟩
    · have hr : Refuses ctx n callee paren arguments s _ s₂ := .arity hf hvs hcallable (by omega)
      rw [hr.evaluate_eq, harity]
    · have hr : Refuses ctx n callee paren arguments s _ s₂ :=
        .overflow hf hvs hcallable (by omega) hdepth
      rw [hr.evaluate_eq]
    · exact .mk hf hvs hcallable (by omega) hdepth
  case fresh => exact ⟨hs₂.store.lacks_new, fun hv => Store.Grounded.not_knows_new (hvalues _ hv)⟩
  case ended =>
    intro v s' h
    obtain ⟨c', vs', s₃, s₄, ha, hinvoke, rfl⟩ := evaluate_call_eq_ok h
    obtain ⟨rfl, rfl, rfl⟩ := happlied ha
    have hmade : Run.construct (Action.untilReturn (execute ctx n)) c vs'
      { s₂ with depth := s₂.depth + 1 } = .ok v s₄ := hinvoke
    obtain ⟨hv, hclass⟩ := Run.construct_new hmade
    exact ⟨hv, hclass⟩
  case plain =>
    intro s₃ ha hnone
    obtain ⟨-, -, rfl⟩ := happlied ha
    have hmade : Run.invoke (Action.untilReturn (execute ctx n)) (.cls c) vs
      { s₂ with depth := s₂.depth + 1 } = .ok (.inst ⟨s₂.store.instances.size⟩)
        { s₂ with store := (s₂.store.newInstance c).2, depth := s₂.depth + 1 } :=
      Run.construct_of_none hnone
    exact ha.evaluate_of_invoke (r := .ok _) hmade rfl rfl id paren
  case body =>
    intro s₃ f s₄ completion s₅ ha hst hb
    obtain ⟨-, -, rfl⟩ := happlied ha
    exact ha.evaluate_construct hst hb id paren

end

/-! ### Calls of functions -/

/-- A call of a function hands back what belongs to the way in which its body completes: it does so whenever
the body completes, and it ends with a value in no other way. -/
structure CallYields (ctx : Context) (n : Nat) (id : NodeId) (callee : Expr) (paren : Token)
    (arguments : List Expr) (s : RunState) (result : Completion → Value) : Prop where
  completes : ∀ f vs s₁ s₂ completion s₃, Applies ctx n callee arguments s (.function f) vs s₁ →
    Starts vs (.function f) s₁ f s₂ →
      Action.untilReturn (execute ctx n) f.declaration.body s₂ = .ok completion s₃ →
        evaluate ctx (n + 1) (.call id callee paren arguments) s =
          .ok (result completion) { s₃ with scope := s.scope, depth := s.depth }
  only : ∀ v s', evaluate ctx (n + 1) (.call id callee paren arguments) s = .ok v s' →
    ∃ f vs s₁ s₂ completion s₃, Applies ctx n callee arguments s (.function f) vs s₁ ∧
      Starts vs (.function f) s₁ f s₂ ∧
        Action.untilReturn (execute ctx n) f.declaration.body s₂ = .ok completion s₃ ∧
          v = result completion

section

variable {ctx : Context} {n : Nat} {id : NodeId} {callee : Expr} {paren : Token}
  {arguments : List Expr} {s s₁ : RunState} {c : Callable} {g : FunctionId} {vs : List Value}
  {result : Completion → Value}

/-- The callee of a call is the function that the value of the callee names. -/
theorem Applies.function? (hg : evaluate ctx n callee s = .ok (.function g) s₂)
    (ha : Applies ctx n callee arguments s c vs s₁) :
    ∃ f, c = .function f ∧ s₁.store.function? g = some f := by
  cases ha with
  | mk hf hvs hc =>
    cases hg.symm.trans hf
    obtain ⟨f, hf, rfl⟩ := Option.map_eq_some_iff.1 hc
    exact ⟨f, rfl, hf⟩

theorem CallYields.of_handsBack (hg : evaluate ctx n callee s = .ok (.function g) s₂)
    (h : ∀ f vs s₁ s₂ completion s₃, Applies ctx n callee arguments s (.function f) vs s₁ →
      s₁.store.function? g = some f → Starts vs (.function f) s₁ f s₂ →
        Action.untilReturn (execute ctx n) f.declaration.body s₂ = .ok completion s₃ →
          f.handsBack s₃.store completion = .ok (result completion)) :
    CallYields ctx n id callee paren arguments s result := by
  have hends : ∀ f vs s₁ s₂ completion s₃, Applies ctx n callee arguments s (.function f) vs s₁ →
      Starts vs (.function f) s₁ f s₂ →
        Action.untilReturn (execute ctx n) f.declaration.body s₂ = .ok completion s₃ →
          evaluate ctx (n + 1) (.call id callee paren arguments) s =
            .ok (result completion) { s₃ with scope := s.scope, depth := s.depth } := by
    intro f vs s₁ s₂ completion s₃ ha hs hb
    obtain ⟨f', hf', hfun⟩ := ha.function? hg
    cases hf'
    rw [ha.evaluate_function hs hb, h _ _ _ _ _ _ ha hfun hs hb]
    rfl
  refine ⟨hends, fun v s' hv => ?_⟩
  obtain ⟨c, vs, s₁, s₂, ha, hinvoke, -⟩ := evaluate_call_eq_ok hv
  obtain ⟨f, rfl, -⟩ := ha.function? hg
  obtain ⟨scope, s₃, completion, s₄, he, hb, -⟩ := Run.callFunction_eq_ok hinvoke
  have hs : Starts vs (.function f) s₁ f { s₃ with scope := scope } := .function he
  have hend := hends _ _ _ _ _ _ ha hs hb
  rw [hv] at hend
  cases hend
  exact ⟨f, vs, s₁, _, completion, s₄, ha, hs, hb, rfl⟩

end

/-! ### Methods named `init` -/

/-- A method named `init` is read, from an instance or through `super`, as a function that is bound to a
receiver. -/
inductive FetchesInit (ctx : Context) (n : Nat) (s : RunState) :
    Expr → Value → FunctionId → RunState → Prop
  | get {id object name i s₁ f g s₂} (hname : name.lexeme = FunctionDecl.initializerName)
      (ho : evaluate ctx n object s = .ok (.inst i) s₁)
      (hm : s₁.store.member? i name.lexeme = some (.method f))
      (hg : evaluate ctx (n + 1) (.get id object name) s = .ok (.function g) s₂) :
      FetchesInit ctx n s (.get id object name) (.inst i) g s₂
  | super {id keyword method this g s₁} {d : Nat} (hname : method.lexeme = FunctionDecl.initializerName)
      (hd : ctx.table[id]? = some d) (ht : s.store.getAt s.scope ((d : Int) - 1) "this" = .ok this)
      (hg : evaluate ctx (n + 1) (.super id keyword method) s = .ok (.function g) s₁) :
      FetchesInit ctx n s (.super id keyword method) this g s₁

/-- The function that is read is a new one, bound to the receiver. -/
theorem FetchesInit.change {ctx : Context} {n : Nat} {s s₁ : RunState} {e : Expr} {this : Value}
    {g : FunctionId} (h : FetchesInit ctx n s e this g s₁) : ∃ st c f,
      Changes ctx n (.expr e) s st s₁.store ∧
        st.method? c FunctionDecl.initializerName = some f ∧ st.Fetches f this g s₁.store := by
  cases h with
  | get hname ho hm hg =>
    obtain ⟨-, o, mid, -, hfound, hmid⟩ := Store.method_of_member? hm
    rw [evaluate_get_of_method ho hm] at hg
    cases hg
    rw [hname] at hfound
    exact ⟨_, _, _, .got ho hm, Option.bind_eq_some_iff.2 ⟨mid, hfound, hmid⟩,
      Store.fetches_bindValue ..⟩
  | super hname hd ht hg =>
    rcases Run.superMethod_cases ctx _ _ s with ⟨d, c, this, f, hd', hc, ht', hf⟩ | ⟨fault, hraised⟩
    · cases hd.symm.trans hd'
      cases ht.symm.trans ht'
      cases hg.symm.trans (Run.superMethod_of_found hd hc ht hf)
      exact ⟨_, c, f, .super hd hc ht hf, hname ▸ hf, Store.fetches_bindValue ..⟩
    · cases hg.symm.trans hraised

/-! ### All runs -/

theorem History.reachable {registry : NativeRegistry} {config : Config} {Es : List Episode}
    {i : Interpreter} (h : History registry config Es i) : Interpreter.Reachable registry config i := by
  induction h with
  | create h => exact .create h
  | @interpret Es E _ _ _ hr ih => exact .interpret (I := E.interpretation) ih hr

/-- A node that is visited is run in a scope of a grounded store. -/
theorem Interpretation.Visits.grounded {registry : NativeRegistry} {config : Config}
    {I : Interpretation} (h : Interpreter.Reachable registry config I.interpreter) {m : Nat} {t : Part}
    {s : RunState} (hv : I.Visits m t s) : s.Grounded I.interpreter.globals := by
  obtain ⟨-, hb, -, hv⟩ := hv
  have hstart : I.ready.start.Grounded I.interpreter.globals := h.grounded.2
  exact (((Grounds.throughout (fun st _ => (runs_grounded _).stmt st) hstart).of_ok hb).1.grounded
    hstart).visited hv

section

variable {G : Episode} {k : Nat} {id : NodeId} {callee : Expr} {paren : Token} {arguments : List Expr}
  {s s₁ : RunState} {g : FunctionId} {last : Store} {f : FunctionObject}

/-- A function that was bound to an instance for an initializer hands the instance back, if the store in
which it is called and a store after it was bound lead to a common one. -/
theorem Episode.yields_instance {i : InstanceId} {st : Store}
    (hspares : (Part.expr (.call id callee paren arguments)).All Part.SparesThis)
    (hv : G.Visits (k + 1) (.expr (.call id callee paren arguments)) s)
    (hreached : ∀ st, G.Reaches st → st.ThisOk ∧ st.KeepsThisIn last)
    (hgrounded : ∀ st, G.Reaches st → ∃ g, st.Grounded g)
    (hst : st.KeepsThisIn last) (hfun : st.function? g = some f) (hinit : f.isInitializer = true)
    (hscope : (st.scope? f.closure).isSome) (hthis : st.read? f.closure "this" = some (.inst i))
    (hg : evaluate G.context k callee s = .ok (.function g) s₁) :
    CallYields G.context k id callee paren arguments s fun _ => .inst i := by
  refine .of_handsBack hg fun f' vs s₂ s₃ completion s₄ ha hf' hs hb => ?_
  have hbefore : G.Reaches s₂.store := .before hv (.entered ha)
  obtain ⟨-, hkept⟩ := hreached _ hbefore
  obtain rfl := Option.some.inj ((hst.functions _ _ hfun).symm.trans (hkept.functions _ _ hf'))
  -- the call leads from the store in which it starts to that in which the body has ended
  obtain ⟨mid, -, -, hend, -, hall⟩ := preserved_this.part hspares (hreached _ (.visit hv)).1
  have hoff := ha.evaluate_function hs hb id paren
  have hbody : s₂.store.KeepsThisIn s₄.store := by
    change (evaluate G.context (k + 1) _ s).store.EndsWith mid at hend
    rw [hoff] at hend
    have hsame : s₄.store = mid := by
      cases hr : f.handsBack s₄.store completion with
      | ok v =>
        rw [hr] at hend
        exact hend
      | error fault =>
        rw [hr] at hend
        exact hend
    rw [hsame]
    exact (hall _ (.change .here (.entered ha)) _ List.mem_cons_self).2.2
  obtain ⟨g', hground⟩ := hgrounded _ hbefore
  have hclosure := hground.closures _ _ hf'
  have hread : s₄.store.read? f.closure "this" = some (.inst i) := by
    rw [hbody.this _ hclosure, ← hkept.this _ hclosure, hst.this _ hscope, hthis]
  rw [FunctionObject.handsBack, if_pos hinit]
  simp only [Store.getAt, Store.scopeAt_zero, hread]

/-- A function that was declared as a statement hands back what its body does. -/
theorem Episode.yields_value {st : Store} (hv : G.Visits (k + 1) (.expr (.call id callee paren arguments)) s)
    (hreached : ∀ st, G.Reaches st → st.PersistsIn last) (hst : st.PersistsIn last)
    (hfun : st.function? g = some f) (hinit : f.isInitializer = false)
    (hg : evaluate G.context k callee s = .ok (.function g) s₁) :
    CallYields G.context k id callee paren arguments s Completion.value := by
  refine .of_handsBack hg fun f' vs s₂ s₃ completion s₄ ha hf' hs hb => ?_
  have hkept := hreached _ (.before hv (.entered ha))
  obtain rfl := Option.some.inj ((hst.functions _ _ hfun).symm.trans (hkept.functions _ _ hf'))
  rw [FunctionObject.handsBack, hinit]
  rfl

end

/-- The function that a statement binds. -/
theorem function?_of_declared {ctx : Context} {n : Nat} {f : FunctionDecl} {s s' : RunState}
    {completion : Completion} {g : FunctionId}
    (h : execute ctx (n + 1) (.function f) s = .ok completion s')
    (hg : s'.store.read? s.scope f.name.lexeme = some (.function g)) :
    (s.store.newFunction ⟨f, s.scope, false⟩).2.function? g = some ⟨f, s.scope, false⟩ := by
  cases h
  change ((s.store.newFunction _).2.define _ _ _).read? _ _ = _ at hg
  rw [Store.read?_define] at hg
  split at hg
  · cases hg
    exact (Store.function?_newFunction ..).trans (if_pos rfl)
  · rename_i hout
    have hscope : (s.store.scope? s.scope).isSome := by
      obtain ⟨scope, hs, -⟩ := Option.bind_eq_some_iff.1 hg
      exact Option.isSome_iff_exists.2 ⟨scope, hs⟩
    exact absurd ⟨rfl, rfl, hscope⟩ hout

/-- Construction and initializers hand back the instance.  Whatever programs an interpreter was given, with
whatever tables, and however they ended: in each state that is come to while the next is run, a call of a
class is as `ConstructsNew` says, and a class that the host calls between two programs hands back a new
instance too.  And in sessions of programs without errors, where nothing but a `this` has that name: if a
method named `init` is read from an instance, or through `super`, each call of the function that was read
hands back that instance, in whichever program and whatever has been run in between; a function that is
declared as a statement, whatever its name, hands back what its body returns. -/
theorem Episode.construction_hands_back (registry : NativeRegistry) (config : Config) :
    (∀ I : Interpretation, Interpreter.Reachable registry config I.interpreter →
      ∀ m t s, I.Visits m t s → ∀ n id callee paren arguments c s₁ vs s₂,
        evaluate I.context n callee s = .ok (.cls c) s₁ →
          Action.collect (evaluate I.context n) arguments s₁ = .ok vs s₂ →
            ConstructsNew I.context n id callee paren arguments s c vs s₂) ∧
    (∀ i, Interpreter.Reachable registry config i → ∀ fuel c vs v lines i',
      i.invoke fuel (.cls c) vs = some (.ok v, lines, i') →
        i.store.Lacks ⟨i.store.instances.size⟩ ∧ v = .inst ⟨i.store.instances.size⟩ ∧
          ∃ o, i'.store.instance? ⟨i.store.instances.size⟩ = some o ∧ o.cls = c) ∧
    ∀ Es E, History registry config Es E.interpreter → "this" ∉ config.natives →
      (∀ p ∈ programs (Es ++ [E]), p.resolve.hasErrors = false ∧ (Part.program p).All Part.ThisOnly) →
      ∀ F ∈ Es ++ [E], ∀ G ∈ Es ++ [E], ∀ k id callee paren arguments s s₁ g,
        G.Visits (k + 1) (.expr (.call id callee paren arguments)) s →
        evaluate G.context k callee s = .ok (.function g) s₁ →
          (∀ m e s₂ this s₃, F.Visits (m + 1) (.expr e) s₂ → FetchesInit F.context m s₂ e this g s₃ →
            ∃ i, this = .inst i ∧
              CallYields G.context k id callee paren arguments s fun _ => .inst i) ∧
          ∀ m f s₂ completion s₃, F.Visits (m + 1) (.stmt (.function f)) s₂ →
            execute F.context (m + 1) (.function f) s₂ = .ok completion s₃ →
            s₃.store.read? s₂.scope f.name.lexeme = some (.function g) →
              CallYields G.context k id callee paren arguments s Completion.value := by
  refine ⟨fun I hI m t s hv n id callee paren arguments c s₁ vs s₂ hf hvs =>
    (hv.grounded hI).constructsNew hf hvs id paren, fun i hi fuel c vs v lines i' h =>
    ⟨hi.grounded.2.store.lacks_new, Interpreter.invoke_new h⟩, ?_⟩
  intro Es E h hn hall F hF G hG k id callee paren arguments s s₁ g hv hg
  obtain ⟨last, hlast⟩ := preserved_this.exists_limit (fun _ hi => Store.thisOk_of_create hn hi) h
    fun p hp => Program.sparesThis (hall p hp).1 (hall p hp).2
  obtain ⟨hvisits, hreached⟩ := hlast G hG
  have hgrounded : ∀ st, G.Reaches st → ∃ g, st.Grounded g := by
    intro st hst
    obtain ⟨Fs, -, hFs⟩ := Episode.history_of_mem h hG
    exact ⟨_, Interpretation.grounded_of_reachable (I := G.interpretation) hFs.reachable
      hst.interpretation⟩
  constructor
  · intro m e s₂ this s₃ hfetched hfetch
    obtain ⟨st, c, f, hchange, hmethod, hfetches⟩ := hfetch.change
    obtain ⟨hokBefore, -⟩ := (hlast F hF).2 _ (.before hfetched hchange)
    obtain ⟨hok, hkept⟩ := (hlast F hF).2 _ (.after hfetched hchange)
    have hthis : s₃.store.read? st.bindScope "this" = some this := by
      exact Store.read?_of_scope? hfetches.opened.2 _
    obtain ⟨i, rfl⟩ := hok.instances _ _ hthis
    have hinit : f.isInitializer = true := hokBefore.initializer hmethod rfl
    refine ⟨i, rfl, Episode.yields_instance (hvisits _ _ _ hv) hv hreached hgrounded hkept hfetches.made
      hinit ?_ hthis hg⟩
    rw [hfetches.opened.2]
    rfl
  · intro m f s₂ completion s₃ hdeclared hexec hbound
    have hafter := (hlast F hF).2 _ (.after hdeclared .closed)
    exact Episode.yields_value hv (fun st hst => (hreached st hst).2.toPersistsIn)
      hafter.2.toPersistsIn (function?_of_declared hexec hbound) rfl hg

/-! ### An initializer that returns early -/

/-- The value and the state with which a run ends normally. -/
def Outcome.ok? {α : Type} : Outcome RunState α → Option (α × RunState)
  | .ok a s => some (a, s)
  | _ => none

theorem Outcome.ok?_eq_some {α : Type} {o : Outcome RunState α} {a : α} {s : RunState}
    (h : o.ok? = some (a, s)) : o = .ok a s := by
  cases o with
  | ok b s' =>
    cases h
    rfl
  | raised => cases h
  | outOfFuel => cases h

theorem Store.exists_method_of_member? {st : Store} {i : InstanceId} {x : String}
    (hfield : st.field? i x = none) (h : (st.member? i x).isSome) :
    ∃ f, st.member? i x = some (.method f) := by
  unfold member? at h ⊢
  rw [hfield] at h ⊢
  obtain ⟨m, hm⟩ := Option.isSome_iff_exists.1 h
  obtain ⟨f, hf, rfl⟩ := Option.map_eq_some_iff.1 hm
  exact ⟨f, hm⟩

/-- An instance of a class `A`. -/
def Expr.makesA : Expr :=
  .call 3 (.var ⟨4, ⟨.identifier, "A", .nil, 2⟩⟩) ⟨.rightParen, ")", .nil, 2⟩ []

/-- The initializer of the instance. -/
def Expr.readsInit : Expr := .get 5 .makesA ⟨.identifier, "init", .nil, 2⟩

/-- A function that is named like an initializer. -/
def FunctionDecl.ownInit : FunctionDecl :=
  ⟨6, ⟨.identifier, "init", .nil, 3⟩, [],
    [.ret 7 ⟨.kwReturn, "return", .nil, 3⟩ (some (.literal 8 (.string "own")))]⟩

/-- The initializer of a class returns early; it is called on a new instance, and so is the function. -/
def Program.earlyInit : Program :=
  [.classDecl 0 ⟨.identifier, "A", .nil, 1⟩ none
    [⟨1, ⟨.identifier, "init", .nil, 1⟩, [], [.ret 2 ⟨.kwReturn, "return", .nil, 1⟩ none]⟩],
   .expression 9 (.call 10 .readsInit ⟨.rightParen, ")", .nil, 2⟩ []),
   .function .ownInit,
   .expression 11 (.call 12 (.var ⟨13, ⟨.identifier, "init", .nil, 4⟩⟩) ⟨.rightParen, ")", .nil, 4⟩ [])]

/-- The program, given to a new interpreter. -/
def Episode.earlyInit : Episode where
  interpreter := {
    config := { natives := [], maxCallDepth_pos := Config.defaultDepth_pos }
    globals := ⟨0⟩
    store := (({} : Store).newScope {}).2
    scope := ⟨0⟩ }
  program := .earlyInit
  fuel := 6

/-- The state before a statement of the program. -/
def Episode.before (E : Episode) (k : Nat) : Option RunState :=
  ((Action.throughout (execute E.context E.fuel) (E.program.take k) E.ready.start).ok?).map (·.2)

theorem Episode.visits_of_before {E : Episode} {k : Nat} {s : RunState} (h : E.before k = some s)
    (hfits : E.interpreter.config.fitsStack = true) {st : Stmt} (hst : E.program[k]? = some st)
    {m : Nat} {t : Part} {s' : RunState} (hv : Lox.Visits E.context E.fuel (.stmt st) s m t s') :
    E.Visits m t s' := by
  obtain ⟨⟨⟨⟩, s⟩, hs, rfl⟩ := Option.map_eq_some_iff.1 h
  exact .mk hfits (Outcome.ok?_eq_some hs) hst hv

/-- The class makes an instance; the initializer that is called on it hands it back, and the function what it
returns. -/
theorem Episode.earlyInit_hands_back :
    (∃ s s₁ s₂, ConstructsNew earlyInit.context 2 3 (.var ⟨4, ⟨.identifier, "A", .nil, 2⟩⟩)
        ⟨.rightParen, ")", .nil, 2⟩ [] s ⟨0⟩ [] s₁ ∧
      evaluate earlyInit.context 3 .makesA s = .ok (.inst ⟨0⟩) s₂) ∧
    (∃ s s₁, CallYields earlyInit.context 4 10 .readsInit ⟨.rightParen, ")", .nil, 2⟩ [] s
        (fun _ => .inst ⟨0⟩) ∧
      evaluate earlyInit.context 5 (.call 10 .readsInit ⟨.rightParen, ")", .nil, 2⟩ []) s =
        .ok (.inst ⟨0⟩) s₁) ∧
    ∃ s s₁, CallYields earlyInit.context 4 12 (.var ⟨13, ⟨.identifier, "init", .nil, 4⟩⟩)
        ⟨.rightParen, ")", .nil, 4⟩ [] s Completion.value ∧
      evaluate earlyInit.context 5 (.call 12 (.var ⟨13, ⟨.identifier, "init", .nil, 4⟩⟩)
        ⟨.rightParen, ")", .nil, 4⟩ []) s = .ok (.string "own") s₁ := by
  have hnew : History {} { natives := [] } [] earlyInit.interpreter := .create rfl
  have hprograms : ∀ p ∈ programs ([] ++ [earlyInit]), p.resolve.hasErrors = false ∧
      (Part.program p).All Part.ThisOnly := by
    intro p hp
    obtain rfl := List.mem_singleton.1 hp
    exact ⟨by decide +kernel, .of_within 6 (by decide) (by decide)⟩
  have hmember : earlyInit ∈ [] ++ [earlyInit] := List.mem_singleton_self _
  have hinstance : ((earlyInit.before 1).bind fun s =>
      (evaluate earlyInit.context 2 (.var ⟨4, ⟨.identifier, "A", .nil, 2⟩⟩) s).ok?.bind fun c =>
      (evaluate earlyInit.context 3 .makesA s).ok?.bind fun o =>
      (evaluate earlyInit.context 4 .readsInit s).ok?.bind fun g =>
      (evaluate earlyInit.context 5 (.call 10 .readsInit ⟨.rightParen, ")", .nil, 2⟩ []) s).ok?.map
        fun v => (c.1, o.1, o.2.store.field? ⟨0⟩ "init", (o.2.store.member? ⟨0⟩ "init").isSome, g.1, v.1)) =
      some (.cls ⟨0⟩, .inst ⟨0⟩, none, true, .function ⟨1⟩, .inst ⟨0⟩) := by decide +kernel
  have hfunction : ((earlyInit.before 2).bind fun s =>
      (execute earlyInit.context 6 (.function .ownInit) s).ok?.bind fun c =>
      (earlyInit.before 3).bind fun s' =>
      (evaluate earlyInit.context 4 (.var ⟨13, ⟨.identifier, "init", .nil, 4⟩⟩) s').ok?.bind fun g =>
      (evaluate earlyInit.context 5 (.call 12 (.var ⟨13, ⟨.identifier, "init", .nil, 4⟩⟩)
        ⟨.rightParen, ")", .nil, 4⟩ []) s').ok?.map
          fun v => (c.2.store.read? s.scope "init", g.1, v.1)) =
      some (some (.function ⟨2⟩), .function ⟨2⟩, .string "own") := by decide +kernel
  obtain ⟨hconstructs, -, hsession⟩ := construction_hands_back {} { natives := [] }
  obtain ⟨s, hs, h⟩ := Option.bind_eq_some_iff.1 hinstance
  obtain ⟨⟨c, s₁⟩, hc, h⟩ := Option.bind_eq_some_iff.1 h
  obtain ⟨⟨o, s₂⟩, ho, h⟩ := Option.bind_eq_some_iff.1 h
  obtain ⟨⟨g, s₃⟩, hg, h⟩ := Option.bind_eq_some_iff.1 h
  obtain ⟨⟨v, s₄⟩, hv, h⟩ := Option.map_eq_some_iff.1 h
  simp only [Prod.mk.injEq] at h
  obtain ⟨rfl, rfl, hfield, hmember?, rfl, rfl⟩ := h
  obtain ⟨f, hf⟩ := Store.exists_method_of_member? hfield hmember?
  obtain ⟨s', hs', h⟩ := Option.bind_eq_some_iff.1 hfunction
  obtain ⟨⟨completion, s₅⟩, hdeclared, h⟩ := Option.bind_eq_some_iff.1 h
  obtain ⟨s'', hs'', h⟩ := Option.bind_eq_some_iff.1 h
  obtain ⟨⟨g, s₆⟩, hg', h⟩ := Option.bind_eq_some_iff.1 h
  obtain ⟨⟨v, s₇⟩, hv', h⟩ := Option.map_eq_some_iff.1 h
  simp only [Prod.mk.injEq] at h
  obtain ⟨hbound, rfl, rfl⟩ := h
  have hcall : earlyInit.Visits 5 (.expr (.call 10 .readsInit ⟨.rightParen, ")", .nil, 2⟩ [])) s :=
    visits_of_before hs (by decide) rfl (.step .expression .here)
  refine ⟨⟨s, s₁, s₂, ?_, Outcome.ok?_eq_some ho⟩, ⟨s, s₄, ?_, Outcome.ok?_eq_some hv⟩,
    s'', s₇, ?_, Outcome.ok?_eq_some hv'⟩
  · exact hconstructs earlyInit.interpretation hnew.reachable _ _ _ (visits_interpretation.2 hcall) _ _ _
      _ _ _ _ _ _ (Outcome.ok?_eq_some hc) rfl
  · obtain ⟨i, hi, hyields⟩ := (hsession [] earlyInit hnew (by decide) hprograms _ hmember _ hmember
      _ _ _ _ _ _ _ _ hcall (Outcome.ok?_eq_some hg)).1 3 .readsInit s _ _
      (visits_of_before hs (by decide) rfl (.step .expression (.step .callee .here)))
      (.get rfl (Outcome.ok?_eq_some ho) hf (Outcome.ok?_eq_some hg))
    cases hi
    exact hyields
  · exact (hsession [] earlyInit hnew (by decide) hprograms _ hmember _ hmember _ _ _ _ _ _ _ _
      (visits_of_before hs'' (by decide) rfl (.step .expression .here)) (Outcome.ok?_eq_some hg')).2 5
      .ownInit s' _ _ (visits_of_before hs' (by decide) rfl .here) (Outcome.ok?_eq_some hdeclared) hbound

end Lox
