import Lox.Proofs.Run.Recorded

/-!
# Inheritance

A property that is read, a `super`, the call of a class and its arity look for methods by a search from a
class upwards.  In every store that is reached they come to what they would come to if each class had been
given a copy of the methods of its superclass when it was made, and whatever is stored in fields does not
change this (`Store.CopiesDown`).  The fields themselves hold what the runs have stored in them last
(`Interpretation.Stored`), and the methods of a class are the last ones of their names in the declaration
that has made it (`Interpretation.Declared`).
-/

namespace Lox

/-- How a property is answered for a receiver: it is the value of a field if there is one, or else the
method that a table has by that name, in a new function bound to the receiver; if there is neither, this is
an error at the name, and nothing changes. -/
inductive Answers (table : Std.ExtTreeMap String FunctionId) (field : Option Value) (this : Value)
    (name : Token) (s : RunState) : Outcome RunState Value → Prop
  | field {v} (hv : field = some v) : Answers table field this name s (.ok v s)
  | method {mid f g st} (hnone : field = none) (hm : table[name.lexeme]? = some mid)
      (hf : s.store.function? mid = some f) (hg : s.store.Fetches f this g st) :
      Answers table field this name s (.ok (.function g) { s with store := st })
  | undefined {e} (hnone : field = none) (hm : table[name.lexeme]? = none) (hcode : e.cause.code = "E403")
      (htoken : e.token = name) : Answers table field this name s (.raised (.error e) s)

namespace Store

/-- A function stands for a method and its receiver: it closes over a scope for `this`, inside the one the
method closes over. -/
def Stands (st : Store) (g : FunctionId) (f : FunctionObject) (this : Value) : Prop :=
  ∃ e, st.function? g = some { f with closure := e } ∧
    st.scope? e = some { enclosing := some f.closure, values := {("this", this)} }

/-- Methods are found as if they were copied down, also after any values have been stored in fields. -/
structure CopiesDown (st : Store) (ws : List FieldWrite) : Prop where
  root : ∀ c cls, st.class? c = some cls → cls.superclass = none → st.flattened c = cls.methods
  /-- The methods of a class stand over those that it inherits. -/
  inherits : ∀ c cls d, st.class? c = some cls → cls.superclass = some d →
    st.flattened c = st.flattened d ∪ cls.methods
  found : ∀ c x, (st.write ws).findMethod? c x = (st.flattened c)[x]?
  /-- A node that sets a field stores one more value. -/
  set : ∀ ctx n id object name value s i s₁ v s₂, evaluate ctx n object s = .ok (.inst i) s₁ →
    evaluate ctx n value s₁ = .ok v s₂ → s₂.store = st.write ws →
      evaluate ctx (n + 1) (.set id object name value) s =
        .ok v { s₂ with store := st.write (ws ++ [⟨i, name.lexeme, v⟩]) }
  /-- The last value that was stored counts, then what the field was before. -/
  property : ∀ ctx n id object name s i o s₁, evaluate ctx n object s = .ok (.inst i) s₁ →
    s₁.store = st.write ws → st.instance? i = some o →
      Answers (st.flattened o.cls) ((FieldWrite.last? ws i name.lexeme).or (st.field? i name.lexeme))
        (.inst i) name s₁ (evaluate ctx (n + 1) (.get id object name) s)
  /-- A `super` looks at no field, and at the table of no other class. -/
  super : ∀ ctx n id keyword method s (d : Nat) c this, s.store = st.write ws →
    ctx.table[id]? = some d → s.store.getAt s.scope d "super" = .ok (.cls c) →
      s.store.getAt s.scope ((d : Int) - 1) "this" = .ok this →
        Answers (st.flattened c) none this method s (evaluate ctx (n + 1) (.super id keyword method) s)
  plain : ∀ runBody c vs s, s.store = st.write ws →
    (st.flattened c)[FunctionDecl.initializerName]? = none →
      Run.construct runBody c vs s = .ok (.inst ⟨s.store.instances.size⟩)
        { s with store := (s.store.newInstance c).2 }
  /-- The initializer that a class runs is bound to the new instance. -/
  initializer : ∀ runBody c vs s mid, s.store = st.write ws →
    (st.flattened c)[FunctionDecl.initializerName]? = some mid → ∃ f g s₁, st.function? mid = some f ∧
      Constructs c s f g s₁ ∧ Run.construct runBody c vs s =
        (Run.callFunction runBody g vs >>= fun _ => pure (.inst ⟨s.store.instances.size⟩)) s₁
  arity : ∀ c, (st.write ws).arity (.cls c) =
    (((st.flattened c)[FunctionDecl.initializerName]?.bind st.function?).elim 0 fun f => (f.arity : Int))
  /-- Properties that are not written are what they were. -/
  others : ∀ j x, (∀ w ∈ ws, ¬ (w.object = j ∧ w.name = x)) →
    (st.write ws).member? j x = st.member? j x
  /-- A method that has been read stands for the same method and receiver as before. -/
  fetched : ∀ (st₀ : Store) f this g, st₀.Fetches f this g st → st.Stands g f this
  stands : ∀ g f this, (st.write ws).Stands g f this ↔ st.Stands g f this

end Store

/-! ### One access -/

section

variable {ctx : Context} {n : Nat} {s s₁ : RunState} {st : Store} {ws : List FieldWrite} {g : ScopeId}
  {table : Std.ExtTreeMap String FunctionId} {c : ClassId} {this : Value} {name : Token}
  {field : Option Value} {r : Outcome RunState Value}

/-- Where no field has the name, the answer is what the search comes to. -/
theorem Answers.of_method? (hnone : field = none)
    (hfound : s.store.findMethod? c name.lexeme = table[name.lexeme]?)
    (hmade : ∀ mid, table[name.lexeme]? = some mid → ∃ f, s.store.function? mid = some f)
    (hr : (∃ f, s.store.method? c name.lexeme = some f ∧ r = .ok (s.store.bindValue f this).1
        { s with store := (s.store.bindValue f this).2 }) ∨
      s.store.method? c name.lexeme = none ∧ ∃ e : RuntimeError, e.cause.code = "E403" ∧
        e.token = name ∧ r = .raised (.error e) s) :
    Answers table field this name s r := by
  rcases hr with ⟨f, hf, rfl⟩ | ⟨hmissing, e, hcode, htoken, rfl⟩
  · obtain ⟨mid, hm, hmid⟩ := Option.bind_eq_some_iff.1 hf
    exact .method hnone (hfound.symm.trans hm) hmid (s.store.fetches_bindValue f this)
  · refine .undefined hnone ?_ hcode htoken
    cases hm : table[name.lexeme]? with
    | none => rfl
    | some mid =>
      obtain ⟨f, hf⟩ := hmade mid hm
      rw [Store.method?, hfound, hm, Option.bind_some, hf] at hmissing
      cases hmissing

theorem evaluate_get {id : NodeId} {object : Expr} {i : InstanceId}
    (ho : evaluate ctx n object s = .ok (.inst i) s₁) :
    evaluate ctx (n + 1) (.get id object name) s = Run.getProperty i name s₁ := by
  show (evaluate ctx n object >>= _) s = _
  rw [Action.bind_apply, ho]

theorem evaluate_set {id : NodeId} {object value : Expr} {i : InstanceId} {v : Value} {s₂ : RunState}
    (ho : evaluate ctx n object s = .ok (.inst i) s₁) (hv : evaluate ctx n value s₁ = .ok v s₂) :
    evaluate ctx (n + 1) (.set id object name value) s =
      .ok v { s₂ with store := s₂.store.setField i name.lexeme v } := by
  show (evaluate ctx n object >>= _) s = _
  rw [Action.bind_apply, ho]
  show (evaluate ctx n value >>= _) s₁ = _
  rw [Action.bind_apply, hv]
  rfl

/-- A property is a field, or else what the search from the class of the instance comes to. -/
theorem Run.getProperty_answers {i : InstanceId}
    (hi : (s.store.instance? i).map (·.cls) = some c)
    (hfound : s.store.findMethod? c name.lexeme = table[name.lexeme]?)
    (hmade : ∀ mid, table[name.lexeme]? = some mid → ∃ f, s.store.function? mid = some f) :
    Answers table (s.store.field? i name.lexeme) (.inst i) name s (Run.getProperty i name s) := by
  unfold Run.getProperty
  rw [Run.ask_bind]
  obtain ⟨o, ho, rfl⟩ := Option.map_eq_some_iff.1 hi
  cases hv : s.store.field? i name.lexeme with
  | some v =>
    have hm : s.store.member? i name.lexeme = some (.field v) := by rw [Store.member?, hv]
    rw [hm]
    exact .field rfl
  | none =>
    have hm : s.store.member? i name.lexeme = (s.store.method? o.cls name.lexeme).map .method := by
      rw [Store.member?, hv, ho]
      rfl
    rw [hm]
    refine .of_method? rfl hfound hmade ?_
    cases hf : s.store.method? o.cls name.lexeme with
    | some f => exact .inl ⟨f, rfl, rfl⟩
    | none => exact .inr ⟨rfl, _, rfl, rfl, rfl⟩

theorem Store.Fetches.stands {f : FunctionObject} {id : FunctionId} {st' : Store}
    (h : st.Fetches f this id st') : st'.Stands id f this :=
  ⟨_, h.made, h.opened.2⟩

/-- In a grounded store methods are found as if they were copied down. -/
theorem Store.Grounded.copiesDown (h : st.Grounded g) (ws : List FieldWrite) : st.CopiesDown ws where
  root c cls hc hs := h.flattened_of_root hc hs
  inherits c cls d hc hs := h.flattened_of_superclass hc hs
  found c x := by rw [findMethod?_write, findMethod?_eq]
  set ctx n id object name value s i s₁ v s₂ ho hv hst := by
    rw [evaluate_set ho hv, hst, write_append]
    rfl
  property ctx n id object name s i o s₁ ho hst hi := by
    have hcls : (s₁.store.instance? i).map (·.cls) = some o.cls := by
      rw [hst, instance?_write, hi]
      rfl
    rw [evaluate_get ho, ← field?_write ws (hi ▸ rfl), ← hst]
    refine Run.getProperty_answers hcls ?_ fun mid hm => ?_
    · rw [hst, findMethod?_write, findMethod?_eq]
    · rw [hst, function?_write]
      exact h.function?_of_flattened hm
  super ctx n id keyword method s d c this hst hd hc ht := by
    have hr : evaluate ctx (n + 1) (.super id keyword method) s = Run.superMethod ctx id method s := rfl
    rw [hr]
    refine .of_method? (c := c) rfl ?_ (fun mid hm => ?_) ?_
    · rw [hst, findMethod?_write, findMethod?_eq]
    · rw [hst, function?_write]
      exact h.function?_of_flattened hm
    · cases hf : s.store.method? c method.lexeme with
      | some f => exact .inl ⟨f, rfl, Run.superMethod_of_found hd hc ht hf⟩
      | none => exact .inr ⟨rfl, _, rfl, rfl, Run.superMethod_of_missing hd hc ht hf⟩
  plain runBody c vs s hst hm := by
    refine Run.construct_of_none ?_
    rw [initializer?, hst, method?_write, Store.method?, findMethod?_eq, hm]
    rfl
  initializer runBody c vs s mid hst hm := by
    obtain ⟨f, hf⟩ := h.function?_of_flattened hm
    have hinit : (s.store.newInstance c).2.initializer? c = some f := by
      rw [initializer?_newInstance, initializer?, hst, method?_write, Store.method?, findMethod?_eq, hm]
      exact hf
    have hc : Constructs c s f _ _ := .mk rfl hinit rfl
    exact ⟨f, _, _, hf, hc, Run.construct_of_constructs hc⟩
  arity c := by
    rw [Store.arity, initializer?, method?_write, Store.method?, findMethod?_eq]
    cases (st.flattened c)[FunctionDecl.initializerName]?.bind st.function? <;> rfl
  others j x hnot := member?_write_of_ne hnot
  fetched st₀ f this id hf := hf.stands
  stands id f this := by
    simp only [Stands, function?_write, scope?_write]

end

/-! ### All runs -/

/-- Whatever programs an interpreter was given, with whatever tables, and however they ended: in each
store that is reached while the next is run, and after any values have been stored in any fields of it,
methods are found as if each class had been given a copy of the methods of its superclass; each field
holds the value that the runs have stored in it last; and each class has the methods of a declaration that
was run, the last one of each name.  In programs that break no static rule, the table that a `super` looks
at is that of the superclass of the class which owns the innermost method around. -/
theorem Interpretation.methods_copied_down (registry : NativeRegistry) (config : Config) :
    (∀ I : Interpretation, Interpreter.Reachable registry config I.interpreter → ∀ st, I.Reaches st →
      (∀ ws, st.CopiesDown ws) ∧
      (∃ st₀ ws, st₀.OnlyNatives ∧ I.Stored ws st₀ st ∧ ∀ i x, st.field? i x = FieldWrite.last? ws i x) ∧
      ∀ k cls, st.class? k = some cls → I.Declared st k cls) ∧
    ∀ Es E, History registry config Es E.interpreter → DistinctNodes (programs (Es ++ [E])) →
      (∀ p ∈ programs (Es ++ [E]), p.WellNamed) →
      (∀ p ∈ programs (Es ++ [E]), p.resolve.hasErrors = false) →
        ∀ m s id keyword method, E.Visits (m + 1) (.expr (.super id keyword method)) s →
          ∃ st mid f i k cls c,
            RunsMethod (Es ++ [E]) (.expr (.super id keyword method)) s st mid f (.inst i) ∧
            st.Owns k mid ∧ st.class? k = some cls ∧ cls.superclass = some c ∧
              Answers (s.store.flattened c) none (.inst i) method s
                (evaluate E.context (m + 1) (.super id keyword method) s) := by
  refine ⟨fun I hI st hst => ⟨fun ws => ?_, fields_stored hI hst, fun k cls hk => ?_⟩, ?_⟩
  · exact (grounded_of_reachable hI hst).copiesDown ws
  · exact classes_declared hI hst hk
  · intro Es E h hd hw he m s id keyword method hv
    obtain ⟨last, hP⟩ := Episode.exists_permanent hd hw h
    have hf : Episode.Fits True (Es ++ [E]) .named := ⟨hd, fun _ p hp => ⟨hw p hp, he p hp⟩⟩
    obtain ⟨Γ, hat⟩ := Episode.at_of_visits (h.storeOk E rfl hf h.isTableOf_context) h.scope hv
    obtain ⟨st, mid, f, i, k, cls, c, hruns, howns, hcls, hsuper, hfound⟩ :=
      Episode.evaluate_super hd h hP hw hv hat
    refine ⟨st, mid, f, i, k, cls, c, hruns, howns, hcls, hsuper, ?_⟩
    have hg : s.store.Grounded E.interpreter.globals :=
      (Visits.grounded h.reachable (Episode.visits_interpretation.2 hv)).store
    exact .of_method? rfl (s.store.findMethod?_eq c _) (fun _ hm => hg.function?_of_flattened hm) hfound

/-- A `this` that is read in the function of `laterSuper`, two scopes out. -/
def Expr.laterThis : Expr := .this 20 ⟨.kwThis, "this", .nil, 4⟩

def Context.laterThis : Context := { globals := ⟨0⟩, table := {(20, 2)}, maxDepth := 1 }

/-- The state with a field of the receiver that is nil and has the name of its method. -/
def RunState.hideMethod (s : RunState) : RunState :=
  { s with store := s.store.write [⟨⟨0⟩, "m", .nil⟩] }

/-- When the field is there it is what is read, and no longer the method of that name.  Yet the `super`
goes on to find the method of the superclass, whatever the class of the receiver has. -/
theorem Episode.laterSuper_copies_down : ∃ s, laterSuper.Visits 8 (.expr .laterSuper) s ∧
    (s.store.flattened ⟨1⟩)["m"]? = some ⟨1⟩ ∧ (s.store.flattened ⟨0⟩)["m"]? = some ⟨0⟩ ∧
    evaluate .laterThis 2 (.get 21 .laterThis ⟨.identifier, "m", .nil, 4⟩) s.hideMethod =
      .ok .nil s.hideMethod ∧
    ∃ st mid f i k cls c, RunsMethod [laterSuper] (.expr .laterSuper) s st mid f (.inst i) ∧
      st.Owns k mid ∧ st.class? k = some cls ∧ cls.superclass = some c ∧
        Answers (s.store.flattened c) none (.inst i) ⟨.identifier, "m", .nil, 2⟩ s
          (evaluate laterSuper.context 8 .laterSuper s) := by
  have hh : History {} { natives := [] } [] laterSuper.interpreter := .create rfl
  have hd : DistinctNodes (programs [laterSuper]) := .of_within 8 (by decide) (by decide)
  have hw : ∀ p ∈ programs [laterSuper], p.WellNamed := by
    intro p hp
    obtain rfl := List.mem_singleton.1 hp
    exact .of_within 8 (by decide) (by decide)
  have he : ∀ p ∈ programs [laterSuper], p.resolve.hasErrors = false := by
    intro p hp
    obtain rfl := List.mem_singleton.1 hp
    decide
  have hv : ∃ s, laterSuper.Visits 8 (.expr .laterSuper) s ∧ s.store.findMethod? ⟨1⟩ "m" = some ⟨1⟩ ∧
      s.store.findMethod? ⟨0⟩ "m" = some ⟨0⟩ ∧ s.store.instance? ⟨0⟩ = some { cls := ⟨1⟩ } ∧
        evaluate .laterThis 1 .laterThis s.hideMethod = .ok (.inst ⟨0⟩) s.hideMethod := by
    refine ⟨?s, .mk (i := 2) (by decide) laterSuper_classes (by rfl) ?h, ?own, ?inherited, ?inst, ?this⟩
    case h =>
      refine .step .expression ?_
      refine .step (.body (i := 0) (.mk laterSuper_returned (by rfl) (by rfl) (by rfl) (by decide))
        (.function (by rfl)) (by rfl) (by rfl)) ?_
      refine .step .returned ?_
      refine .step .callee ?_
      exact .here
    case own => rfl
    case inherited => rfl
    case inst => rfl
    case this => rfl
  obtain ⟨s, hv, hown, hinherited, hinst, hthis⟩ := hv
  obtain ⟨hall, hsuper⟩ := Interpretation.methods_copied_down {} { natives := [] }
  obtain ⟨hcopies, -, -⟩ := hall laterSuper.interpretation hh.reachable s.store
    (.visit (visits_interpretation.2 hv))
  refine ⟨s, hv, ?_, ?_, ?_, hsuper [] laterSuper hh hd hw he 7 s 7 _ _ hv⟩
  · exact (s.store.findMethod?_eq ⟨1⟩ "m").symm.trans hown
  · exact (s.store.findMethod?_eq ⟨0⟩ "m").symm.trans hinherited
  · have hread := (hcopies [⟨⟨0⟩, "m", .nil⟩]).property .laterThis 1 21 .laterThis
      ⟨.identifier, "m", .nil, 4⟩ s.hideMethod ⟨0⟩ _ s.hideMethod hthis rfl hinst
    generalize evaluate .laterThis 2 _ _ = r at hread ⊢
    cases hread with
    | field hv =>
      cases hv
      rfl
    | method hnone => cases hnone
    | undefined hnone => cases hnone

end Lox
