import Lox.Proofs.Run.Grounded
import Lox.Proofs.Run.Invariants
import Lox.Proofs.Scoping.Walk

/-!
# What keeps `this`

Where nothing but a `this` has that name, no node declares, assigns or receives as a parameter a variable of
the name (`Part.SparesThis`).  So `this` is only ever bound when a scope is made for it, to an instance, and
it stays what it is (`Store.KeepsThisIn`), through all programs of a session.  Nothing else can come between
an initializer and its instance, for the methods named `init` are the functions that hand back `this`
(`Store.ThisOk`).
-/

namespace Lox

/-! ### Names -/

namespace Part

def isThis : Part → Bool
  | expr (.this ..) => true
  | _ => false

/-- No variable is read, assigned or declared by the name `this`, and no parameter has it; a `this` may look
it up. -/
def ThisOnly (t : Part) : Prop :=
  t.declares? ≠ some "this" ∧ "this" ∉ t.params ∧ (t.looksUp? = some "this" → t.isThis = true)

instance (t : Part) : Decidable t.ThisOnly := inferInstanceAs (Decidable (_ ∧ _ ∧ _))

/-- The name that a node writes to, if it is an assignment. -/
def assigns? : Part → Option String
  | expr (.assign _ target equals _) => some (target.assignedName equals).lexeme
  | _ => none

/-- A node binds nothing to `this`. -/
structure SparesThis (t : Part) : Prop where
  declares : t.declares? ≠ some "this"
  params : "this" ∉ t.params
  assigns : t.assigns? ≠ some "this"

theorem SparesThis.method {f : FunctionDecl} (h : (stmt (.function f)).SparesThis) :
    (Part.method f).SparesThis := ⟨nofun, h.params, nofun⟩

/-- An assignment writes to the variable that it looks up, if it breaks no rule. -/
theorem assigns?_cases {t : Part} {x : String} (h : t.assigns? = some x) :
    t.looksUp? = some x ∧ t.isThis = false ∨
      ∃ id target equals value, t = expr (.assign id target equals value) ∧
        target.asVariable? = none := by
  unfold assigns? at h
  split at h
  · rename_i id target equals value
    cases ht : target.asVariable? with
    | none => exact .inr ⟨id, target, equals, value, rfl, ht⟩
    | some ref =>
      obtain rfl := Expr.eq_var_of_asVariable? ht
      cases h
      exact .inl ⟨rfl, rfl⟩
  · cases h

end Part

/-- In a program without errors nothing is bound to `this` if nothing but a `this` has that name. -/
theorem Program.sparesThis {p : Program} (he : p.resolve.hasErrors = false)
    (h : (Part.program p).All Part.ThisOnly) : (Part.program p).All Part.SparesThis := by
  intro a t ha
  obtain ⟨hdeclares, hparams, hlooks⟩ := h a t ha
  refine ⟨hdeclares, hparams, fun hassigns => ?_⟩
  rcases Part.assigns?_cases hassigns with ⟨hlook, hno⟩ | ⟨id, target, equals, value, rfl, htarget⟩
  · cases hno.symm.trans (hlooks hlook)
  · obtain ⟨Γ, hP⟩ := Program.exists_place? (p := p) ha
    have hnone := Program.violations_eq_nil he (Part.mem_places_of_place? hP rfl)
    simp [Place.violations, Part.violations, htarget] at hnone

/-! ### Stores -/

namespace Store

/-- The functions of a store bind nothing to `this`, what is bound to `this` is an instance, and the methods
named `init` hand back `this`. -/
structure ThisOk (st : Store) : Prop where
  functions : st.Functions fun f => (Part.method f).All Part.SparesThis
  instances : ∀ e v, st.read? e "this" = some v → ∃ i, v = .inst i
  initializers : ∀ c cls id, st.class? c = some cls →
    cls.methods[FunctionDecl.initializerName]? = some id →
      ∃ m, st.function? id = some m ∧ m.isInitializer = true

/-- All that is in a store is in another, where `this` is the same in each scope there was. -/
structure KeepsThisIn (st st' : Store) : Prop extends st.PersistsIn st' where
  this : ∀ e, (st.scope? e).isSome → st'.read? e "this" = st.read? e "this"

variable {st st' st'' : Store}

theorem KeepsThisIn.refl (st : Store) : st.KeepsThisIn st := ⟨.refl st, fun _ _ => rfl⟩

theorem KeepsThisIn.trans (h : st.KeepsThisIn st') (h' : st'.KeepsThisIn st'') :
    st.KeepsThisIn st'' :=
  ⟨h.toPersistsIn.trans h'.toPersistsIn,
    fun e he => (h'.this e (h.isSome_scope? he)).trans (h.this e he)⟩

/-- The methods that are made for a class are told to be initializers by their name. -/
theorem getElem?_newMethods_named (e : ScopeId) (fs : List FunctionDecl) {x : String} {id : FunctionId} :
    ∀ (table : Std.ExtTreeMap String FunctionId) (st : Store),
      (newMethods e table fs st).1[x]? = some id → table[x]? = some id ∨
        ∃ m, (newMethods e table fs st).2.function? id = some m ∧
          m.isInitializer = decide (x = FunctionDecl.initializerName) := by
  induction fs with
  | nil => exact fun _ _ h => .inl h
  | cons f fs ih =>
    intro table st h
    rcases ih _ _ h with h | hm
    · rw [Std.ExtTreeMap.getElem?_insert] at h
      split at h
      · rename_i hx
        cases h
        let m : FunctionObject := ⟨f, e, f.name.lexeme = FunctionDecl.initializerName⟩
        have hm : (st.newFunction m).2.function? (st.newFunction m).1 = some m := by
          rw [function?_newFunction, if_pos rfl]
        obtain rfl := Std.LawfulEqCmp.eq_of_compare hx
        exact .inr ⟨m, (PersistsIn.newMethods e fs _ _).functions _ m hm, rfl⟩
      · exact .inl h
    · exact .inr hm

namespace ThisOk

variable (h : st.ThisOk)

include h

/-- What makes no class, and changes `this` in no scope. -/
theorem of_persists (hp : st.PersistsIn st') (hthis : ∀ e, st'.read? e "this" = st.read? e "this")
    (hclasses : ∀ c, st'.class? c = st.class? c)
    (hfunctions : st'.Functions fun f => (Part.method f).All Part.SparesThis) :
    st'.ThisOk ∧ st.KeepsThisIn st' := by
  refine ⟨⟨hfunctions, fun e v hv => h.instances e v (hthis e ▸ hv), fun c cls id hc hid => ?_⟩, hp,
    fun e _ => hthis e⟩
  obtain ⟨m, hm, hi⟩ := h.initializers c cls id (hclasses c ▸ hc) hid
  exact ⟨m, hp.functions id m hm, hi⟩

theorem define (e : ScopeId) {x : String} (v : Value) (hx : x ≠ "this") :
    (st.define e x v).ThisOk ∧ st.KeepsThisIn (st.define e x v) := by
  refine h.of_persists (.define ..) (fun t => ?_) (fun _ => rfl) h.functions
  rw [read?_define, if_neg]
  rintro ⟨-, rfl, -⟩
  exact hx rfl

theorem newScope {scope : Scope} (hv : ∀ v, scope.values["this"]? = some v → ∃ i, v = .inst i) :
    (st.newScope scope).2.ThisOk ∧ st.KeepsThisIn (st.newScope scope).2 := by
  refine ⟨⟨h.functions, fun e v hr => ?_, h.initializers⟩, .newScope .., fun e he => ?_⟩
  · rw [read?_newScope] at hr
    split at hr
    · exact hv v hr
    · exact h.instances e v hr
  · rw [read?_newScope, if_neg]
    rintro rfl
    obtain ⟨scope, hs⟩ := Option.isSome_iff_exists.1 he
    exact Nat.lt_irrefl _ (lt_of_scope? hs)

theorem newFunction {f : FunctionObject} (hf : (Part.method f.declaration).All Part.SparesThis) :
    (st.newFunction f).2.ThisOk ∧ st.KeepsThisIn (st.newFunction f).2 :=
  h.of_persists (.newFunction ..) (fun _ => rfl) (fun _ => rfl) (h.functions.newFunction hf)

theorem newInstance (c : ClassId) : (st.newInstance c).2.ThisOk ∧ st.KeepsThisIn (st.newInstance c).2 :=
  h.of_persists (.newInstance ..) (fun _ => rfl) (fun _ => rfl) h.functions

theorem setField (i : InstanceId) (x : String) (v : Value) :
    (st.setField i x v).ThisOk ∧ st.KeepsThisIn (st.setField i x v) :=
  h.of_persists (.setField ..) (fun _ => rfl) (fun _ => rfl) h.functions

theorem bind (f : FunctionObject) (i : InstanceId) :
    (st.bind f (.inst i)).2.ThisOk ∧ st.KeepsThisIn (st.bind f (.inst i)).2 := by
  refine h.newScope fun v hv => ⟨i, ?_⟩
  simpa using hv.symm

theorem bindValue {f : FunctionObject} (hf : (Part.method f.declaration).All Part.SparesThis)
    (i : InstanceId) :
    (st.bindValue f (.inst i)).2.ThisOk ∧ st.KeepsThisIn (st.bindValue f (.inst i)).2 := by
  obtain ⟨hbound, hkept⟩ := h.bind f i
  obtain ⟨hmade, hkept'⟩ := hbound.newFunction (f := (st.bind f (.inst i)).1) hf
  exact ⟨hmade, hkept.trans hkept'⟩

theorem methodScope (e : ScopeId) (superclass : Option ClassId) :
    (st.methodScope e superclass).2.ThisOk ∧ st.KeepsThisIn (st.methodScope e superclass).2 := by
  cases superclass with
  | none => exact ⟨h, .refl st⟩
  | some c => exact h.newScope fun v hv => by simp at hv

theorem newCall {f : FunctionObject} (hf : (Part.method f.declaration).SparesThis) (vs : List Value) :
    (st.newScope (Run.callScope f vs)).2.ThisOk ∧
      st.KeepsThisIn (st.newScope (Run.callScope f vs)).2 :=
  h.newScope fun _ hv => absurd (Run.callScope_cases hv).1 hf.params

theorem makeClass {fs : List FunctionDecl} (hfs : ∀ f ∈ fs, (Part.method f).All Part.SparesThis)
    (x : String) (superclass : Option ClassId) (e : ScopeId) :
    (st.makeClass x superclass fs e).2.ThisOk ∧
      st.KeepsThisIn (st.makeClass x superclass fs e).2 := by
  obtain ⟨hscopes, hclasses, -⟩ := newMethods_same e fs ∅ st
  have hp := PersistsIn.makeClass st x superclass fs e
  have hthis : ∀ t, (st.makeClass x superclass fs e).2.read? t "this" = st.read? t "this" :=
    fun t => congrArg (fun scopes : Array Scope => (scopes[t.index]?).bind (·.values["this"]?)) hscopes
  refine ⟨⟨h.functions.makeClass hfs x superclass e, fun t v hv => h.instances t v (hthis t ▸ hv),
    fun c cls id hc hid => ?_⟩, hp, fun t _ => hthis t⟩
  replace hc := (class?_newClass ..).symm.trans hc
  split at hc
  · cases hc
    rcases getElem?_newMethods_named e fs ∅ st hid with hold | ⟨m, hm, hi⟩
    · simp at hold
    · exact ⟨m, hm, hi.trans (decide_eq_true rfl)⟩
  · have hold : st.class? c = some cls := (congrArg (·[c.index]?) hclasses).symm.trans hc
    obtain ⟨m, hm, hi⟩ := h.initializers c cls id hold hid
    exact ⟨m, hp.functions id m hm, hi⟩

/-- A method named `init` hands back `this`. -/
theorem initializer {c : ClassId} {x : String} {f : FunctionObject} (hf : st.method? c x = some f)
    (hx : x = FunctionDecl.initializerName) : f.isInitializer = true := by
  obtain ⟨mid, hm, hmid⟩ := Option.bind_eq_some_iff.1 hf
  obtain ⟨k, cls, -, hc, hown⟩ := declarer_of_findMethod? hm
  subst hx
  obtain ⟨m, hm', hi⟩ := h.initializers k cls mid hc hown
  obtain rfl := Option.some.inj (hmid.symm.trans hm')
  exact hi

end ThisOk

/-- A local that is read is bound in some scope. -/
theorem exists_read?_of_getAt {e : ScopeId} {d : Int} {x : String} {v : Value}
    (h : st.getAt e d x = .ok v) : ∃ a, st.read? a x = some v := by
  unfold getAt at h
  cases ha : st.scopeAt e d with
  | error fault =>
    rw [ha] at h
    cases h
  | ok a =>
    rw [ha] at h
    cases hv : st.read? a x with
    | none => simp [hv] at h
    | some w =>
      simp only [hv, Except.ok.injEq] at h
      exact ⟨a, h ▸ hv⟩

/-- Installing natives binds their names only. -/
theorem read?_install {registry : NativeRegistry} {g : ScopeId} {names : List String} {x : String}
    (hx : x ∉ names) {unknown : Option String} (hi : registry.install g names st = (unknown, st'))
    (e : ScopeId) : st'.read? e x = st.read? e x := by
  induction names generalizing st with
  | nil =>
    cases hi
    rfl
  | cons name rest ih =>
    rw [List.mem_cons, not_or] at hx
    rw [NativeRegistry.install] at hi
    split at hi
    · cases hi
      rfl
    · refine (ih hx.2 hi).trans ?_
      rw [read?_define, if_neg fun h => hx.1 h.2.1]
      rfl

/-- The store of a new interpreter, if no native is named `this`. -/
theorem thisOk_of_create {registry : NativeRegistry} {config : Config} (hn : "this" ∉ config.natives)
    {i : Interpreter} (h : Interpreter.create registry config = .ok i) : i.store.ThisOk := by
  obtain ⟨st, hi, rfl⟩ := Interpreter.create_eq h
  obtain ⟨hnatives, -⟩ := onlyNatives_newScope.install hi
  refine ⟨fun id f hf => ?_, fun e v hv => ?_, fun c cls id hc => ?_⟩
  · rw [hnatives.functions] at hf
    cases hf
  · have hnone : (({} : Store).newScope {}).2.read? e "this" = some v :=
      (read?_install hn hi e).symm.trans hv
    rw [read?_newScope_empty] at hnone
    cases hnone
  · rw [hnatives.classes] at hc
    cases hc

end Store

/-! ### All changes -/

open Store in
/-- Each change at a node that spares `this` keeps it. -/
theorem Changes.keepsThis {ctx : Context} {n : Nat} {t : Part} {s : RunState} {st st' : Store}
    (ht : t.All Part.SparesThis) (hc : Changes ctx n t s st st') (h : st.ThisOk) :
    st'.ThisOk ∧ st.KeepsThisIn st' := by
  have hdeclares : ∀ x, t.declares? = some x → x ≠ "this" := by
    rintro x hx rfl
    exact ht.self.declares hx
  cases hc with
  | assigned =>
    refine h.define _ _ fun hx => ht.self.assigns ?_
    exact congrArg some hx
  | fieldSet => exact h.setField ..
  | got ho hm => exact h.bindValue (h.functions.member? hm) _
  | super hd hc hthis hf =>
    obtain ⟨a, ha⟩ := exists_read?_of_getAt hthis
    obtain ⟨i, rfl⟩ := h.instances a _ ha
    exact h.bindValue (h.functions.method? hf) i
  | instantiated => exact h.newInstance _
  | initialized ha hc =>
    cases hc with
    | mk hi hf hg =>
      cases hi
      cases hg
      exact h.bind ..
  | entered ha =>
    cases ha with
    | mk hf hvs hc => exact h.newCall (h.functions.callable? hc).self _
  | enteredInitializer ha hc =>
    have hg := hc.declaration (hc.functions_iff.1 h.functions)
    exact h.newCall hg.self _
  | block => exact h.newScope fun v hv => by simp at hv
  | declared => exact h.define _ _ (hdeclares _ rfl)
  | initializedVar => exact h.define _ _ (hdeclares _ rfl)
  | closed => exact h.newFunction (ht.method Part.SparesThis.method)
  | functionNamed => exact h.define _ _ (hdeclares _ rfl)
  | reserved => exact h.define _ _ (hdeclares _ rfl)
  | enclosed => exact h.methodScope ..
  | made =>
    exact h.makeClass (ht.functions fun _ => Part.SparesThis.method) _ _ _
  | classNamed => exact h.define _ _ (hdeclares _ rfl)

theorem preserved_this : Preserved Part.SparesThis Store.ThisOk Store.KeepsThisIn where
  refl := .refl
  trans := .trans
  method _ := Part.SparesThis.method
  bodies h := h.functions
  step := Changes.keepsThis

end Lox
