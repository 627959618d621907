import Lox.Proofs.Run.Persistence

/-!
# Grounded stores

A store is grounded if each object in it leads to objects that are there, and each link goes to an object
made before: every scope but the globals lies in an older scope, every class inherits from an older class
(`Store.Grounded`).  The values of variables and fields may lead anywhere.  Each operation keeps a store
grounded, because it links only a new object, and only to objects that are there.
-/

namespace Lox

namespace Store

/-- The objects that a value names are there. -/
def Knows (st : Store) : Value → Prop
  | .function id => (st.function? id).isSome
  | .native id => (st.native? id).isSome
  | .cls c => (st.class? c).isSome
  | .inst i => (st.instance? i).isSome
  | .scope e => (st.scope? e).isSome
  | _ => True

/-- What a callable object closes over or makes instances of is there. -/
def KnowsCallable (st : Store) : Callable → Prop
  | .function f => (st.scope? f.closure).isSome
  | .native _ => True
  | .cls c => (st.class? c).isSome

/-- What a statement returns, if it does, is there. -/
def KnowsCompletion (st : Store) : Completion → Prop
  | .normal => True
  | .returned v => st.Knows v

/-- Each object leads to objects that are there, and the links between scopes, and between classes, go to
older ones.  Only the globals `g` lie in no scope. -/
structure Grounded (g : ScopeId) (st : Store) : Prop where
  globals : (st.scope? g).isSome ∧ st.enclosing? g = none
  links : ∀ e scope, e ≠ g → st.scope? e = some scope →
    ∃ outer, scope.enclosing = some outer ∧ outer.index < e.index
  supers : ∀ c cls d, st.class? c = some cls → cls.superclass = some d → d.index < c.index
  values : ∀ e x v, st.read? e x = some v → st.Knows v
  fields : ∀ i x v, st.field? i x = some v → st.Knows v
  closures : ∀ id f, st.function? id = some f → (st.scope? f.closure).isSome
  methods : ∀ c cls (x : String) id, st.class? c = some cls → cls.methods[x]? = some id →
    (st.function? id).isSome
  instances : ∀ i o, st.instance? i = some o → (st.class? o.cls).isSome

variable {g : ScopeId} {st st' : Store}

namespace PersistsIn

variable (h : st.PersistsIn st')

include h

theorem isSome_scope? {e : ScopeId} (he : (st.scope? e).isSome) : (st'.scope? e).isSome := by
  obtain ⟨scope, hs⟩ := Option.isSome_iff_exists.1 he
  obtain ⟨scope', hs', -⟩ := h.scopes e scope hs
  rw [hs']
  rfl

theorem isSome_function? {id : FunctionId} (hf : (st.function? id).isSome) :
    (st'.function? id).isSome := by
  obtain ⟨f, hf⟩ := Option.isSome_iff_exists.1 hf
  rw [h.functions id f hf]
  rfl

theorem isSome_class? {c : ClassId} (hc : (st.class? c).isSome) : (st'.class? c).isSome := by
  obtain ⟨cls, hc⟩ := Option.isSome_iff_exists.1 hc
  rw [h.classes c cls hc]
  rfl

theorem knows {v : Value} (hv : st.Knows v) : st'.Knows v := by
  cases v with
  | function id => exact h.isSome_function? hv
  | native id =>
    obtain ⟨n, hn⟩ := Option.isSome_iff_exists.1 hv
    exact Option.isSome_iff_exists.2 ⟨n, h.natives id n hn⟩
  | cls c => exact h.isSome_class? hv
  | inst i =>
    obtain ⟨o, ho⟩ := Option.isSome_iff_exists.1 hv
    obtain ⟨o', ho', -⟩ := h.instances i o ho
    exact Option.isSome_iff_exists.2 ⟨o', ho'⟩
  | scope e => exact h.isSome_scope? hv
  | _ => trivial

end PersistsIn

/-- A plain value names no object. -/
theorem knows_of_isPlain {v : Value} (h : v.isPlain) : st.Knows v := by
  cases v with
  | function | native | cls | inst | scope => cases h
  | _ => trivial

/-- A native hands back what it was given, or what names no object. -/
theorem knows_apply (n : NativeFunction) {vs : List Value} (hvs : ∀ v ∈ vs, st.Knows v) :
    st.Knows (n.apply vs) :=
  (n.apply_known vs).elim (hvs _) knows_of_isPlain

/-! ### What was made last -/

theorem isSome_scope?_newScope (st : Store) (scope : Scope) :
    ((st.newScope scope).2.scope? (st.newScope scope).1).isSome :=
  Option.isSome_iff_exists.2 ⟨scope, (scope?_newScope ..).trans (if_pos rfl)⟩

theorem knows_newFunction (st : Store) (f : FunctionObject) :
    (st.newFunction f).2.Knows (.function (st.newFunction f).1) :=
  Option.isSome_iff_exists.2 ⟨f, (function?_newFunction ..).trans (if_pos rfl)⟩

theorem knows_newClass (st : Store) (cls : ClassObject) :
    (st.newClass cls).2.Knows (.cls (st.newClass cls).1) :=
  Option.isSome_iff_exists.2 ⟨cls, (class?_newClass ..).trans (if_pos rfl)⟩

theorem knows_newInstance (st : Store) (c : ClassId) :
    (st.newInstance c).2.Knows (.inst (st.newInstance c).1) :=
  Option.isSome_iff_exists.2 ⟨_, (instance?_newInstance ..).trans (if_pos rfl)⟩

namespace Grounded

/-! ### The operations -/

/-- What persists stays grounded if what is new leads to what is there, and links to what is older. -/
theorem of_persists (h : st.Grounded g) (hp : st.PersistsIn st')
    (hscopes : ∀ e scope, st'.scope? e = some scope → (∃ old, st.scope? e = some old) ∨
      ∃ outer, scope.enclosing = some outer ∧ outer.index < e.index)
    (hclasses : ∀ c cls, st'.class? c = some cls → st.class? c = some cls ∨
      (∀ d, cls.superclass = some d → d.index < c.index) ∧
        ∀ (x : String) id, cls.methods[x]? = some id → (st'.function? id).isSome)
    (hvalues : ∀ e x v, st'.read? e x = some v → st.read? e x = some v ∨ st'.Knows v)
    (hfields : ∀ i x v, st'.field? i x = some v → st.field? i x = some v ∨ st'.Knows v)
    (hfunctions : ∀ id f, st'.function? id = some f → st.function? id = some f ∨
      (st'.scope? f.closure).isSome)
    (hinstances : ∀ i o, st'.instance? i = some o → (∃ old, st.instance? i = some old) ∨
      (st'.class? o.cls).isSome) : st'.Grounded g where
  globals := by
    obtain ⟨hg, hroot⟩ := h.globals
    obtain ⟨scope, hs⟩ := Option.isSome_iff_exists.1 hg
    obtain ⟨scope', hs', hlink, -⟩ := hp.scopes g scope hs
    refine ⟨hp.isSome_scope? hg, ?_⟩
    rw [enclosing?_of_scope? hs', hlink, ← enclosing?_of_scope? hs, hroot]
  links e scope hne hs := by
    rcases hscopes e scope hs with ⟨old, ho⟩ | hnew
    · obtain ⟨scope', hs', hlink, -⟩ := hp.scopes e old ho
      obtain rfl := Option.some.inj (hs.symm.trans hs')
      rw [hlink]
      exact h.links e old hne ho
    · exact hnew
  supers c cls d hc hd := by
    rcases hclasses c cls hc with hold | ⟨hnew, -⟩
    · exact h.supers c cls d hold hd
    · exact hnew d hd
  values e x v hv := by
    rcases hvalues e x v hv with hold | hnew
    · exact hp.knows (h.values e x v hold)
    · exact hnew
  fields i x v hv := by
    rcases hfields i x v hv with hold | hnew
    · exact hp.knows (h.fields i x v hold)
    · exact hnew
  closures id f hf := by
    rcases hfunctions id f hf with hold | hnew
    · exact hp.isSome_scope? (h.closures id f hold)
    · exact hnew
  methods c cls x id hc hx := by
    rcases hclasses c cls hc with hold | ⟨-, hnew⟩
    · exact hp.isSome_function? (h.methods c cls x id hold hx)
    · exact hnew x id hx
  instances i o ho := by
    rcases hinstances i o ho with ⟨old, hold⟩ | hnew
    · obtain ⟨o', ho', hcls, -⟩ := hp.instances i old hold
      obtain rfl := Option.some.inj (ho.symm.trans ho')
      rw [hcls]
      exact hp.isSome_class? (h.instances i old hold)
    · exact hnew

variable (h : st.Grounded g)

include h

theorem define (e : ScopeId) (x : String) {v : Value} (hv : st.Knows v) :
    (st.define e x v).Grounded g := by
  have hp := PersistsIn.define st e x v
  refine h.of_persists hp (fun t scope ht => ?_) (fun _ _ hc => .inl hc) (fun t y w hw => ?_)
    (fun _ _ _ hw => .inl hw) (fun _ _ hf => .inl hf) fun _ o ho => .inl ⟨o, ho⟩
  · rw [scope?_define] at ht
    split at ht
    · rename_i hte
      subst hte
      obtain ⟨old, hold, -⟩ := Option.map_eq_some_iff.1 ht
      exact .inl ⟨old, hold⟩
    · exact .inl ⟨scope, ht⟩
  · rw [read?_define] at hw
    split at hw
    · cases hw
      exact .inr (hp.knows hv)
    · exact .inl hw

theorem newScope {scope : Scope} {outer : ScopeId} (hlink : scope.enclosing = some outer)
    (houter : (st.scope? outer).isSome)
    (hvalues : ∀ (x : String) v, scope.values[x]? = some v → st.Knows v) :
    (st.newScope scope).2.Grounded g := by
  have hp := PersistsIn.newScope st scope
  have hlt : outer.index < st.scopes.size := by
    obtain ⟨scope, hs⟩ := Option.isSome_iff_exists.1 houter
    exact lt_of_scope? hs
  refine h.of_persists hp (fun t s hs => ?_) (fun _ _ hc => .inl hc) (fun t y w hw => ?_)
    (fun _ _ _ hw => .inl hw) (fun _ _ hf => .inl hf) fun _ o ho => .inl ⟨o, ho⟩
  · rw [scope?_newScope] at hs
    split at hs
    · rename_i hnew
      cases hs
      subst hnew
      exact .inr ⟨outer, hlink, hlt⟩
    · exact .inl ⟨s, hs⟩
  · rw [read?_newScope] at hw
    split at hw
    · exact .inr (hp.knows (hvalues y w hw))
    · exact .inl hw

theorem newFunction {f : FunctionObject} (hf : (st.scope? f.closure).isSome) :
    (st.newFunction f).2.Grounded g := by
  refine h.of_persists (.newFunction st f) (fun _ s hs => .inl ⟨s, hs⟩)
    (fun _ _ hc => .inl hc) (fun _ _ _ hw => .inl hw) (fun _ _ _ hw => .inl hw) (fun id m hm => ?_)
    fun _ o ho => .inl ⟨o, ho⟩
  rw [function?_newFunction] at hm
  split at hm
  · cases hm
    exact .inr hf
  · exact .inl hm

theorem newNative (n : NativeFunction) : (st.newNative n).2.Grounded g :=
  h.of_persists (.newNative st n) (fun _ s hs => .inl ⟨s, hs⟩) (fun _ _ hc => .inl hc)
    (fun _ _ _ hw => .inl hw) (fun _ _ _ hw => .inl hw) (fun _ _ hf => .inl hf)
    fun _ o ho => .inl ⟨o, ho⟩

theorem newClass {cls : ClassObject} (hsuper : ∀ d, cls.superclass = some d → (st.class? d).isSome)
    (hmethods : ∀ (x : String) id, cls.methods[x]? = some id → (st.function? id).isSome) :
    (st.newClass cls).2.Grounded g := by
  refine h.of_persists (.newClass st cls) (fun _ s hs => .inl ⟨s, hs⟩)
    (fun c k hc => ?_) (fun _ _ _ hw => .inl hw) (fun _ _ _ hw => .inl hw) (fun _ _ hf => .inl hf)
    fun _ o ho => .inl ⟨o, ho⟩
  rw [class?_newClass] at hc
  split at hc
  · rename_i hnew
    cases hc
    subst hnew
    refine .inr ⟨fun d hd => ?_, hmethods⟩
    obtain ⟨k, hk⟩ := Option.isSome_iff_exists.1 (hsuper d hd)
    exact lt_of_class? hk
  · exact .inl hc

theorem newInstance {c : ClassId} (hc : (st.class? c).isSome) : (st.newInstance c).2.Grounded g := by
  refine h.of_persists (.newInstance st c) (fun _ s hs => .inl ⟨s, hs⟩)
    (fun _ _ hc => .inl hc) (fun _ _ _ hw => .inl hw) (fun i x v hv => ?_) (fun _ _ hf => .inl hf)
    fun i o ho => ?_
  · rw [field?_newInstance] at hv
    split at hv
    · cases hv
    · exact .inl hv
  · rw [instance?_newInstance] at ho
    split at ho
    · cases ho
      exact .inr hc
    · exact .inl ⟨o, ho⟩

theorem setField (i : InstanceId) (x : String) {v : Value} (hv : st.Knows v) :
    (st.setField i x v).Grounded g := by
  have hp := PersistsIn.setField st i x v
  refine h.of_persists hp (fun _ s hs => .inl ⟨s, hs⟩)
    (fun _ _ hc => .inl hc) (fun _ _ _ hw => .inl hw) (fun j y w hw => ?_) (fun _ _ hf => .inl hf)
    fun j o ho => .inl ?_
  · rw [field?_setField] at hw
    split at hw
    · cases hw
      exact .inr (hp.knows hv)
    · exact .inl hw
  · unfold instance? at ho ⊢
    simp only [Store.setField, Array.getElem?_modify] at ho
    split at ho
    · obtain ⟨old, hold, -⟩ := Option.map_eq_some_iff.1 ho
      exact ⟨old, hold⟩
    · exact ⟨o, ho⟩

/-- The scope of a call is made in the scope that the function closes over. -/
theorem newCall {f : FunctionObject} {vs : List Value} (hf : (st.scope? f.closure).isSome)
    (hvs : ∀ v ∈ vs, st.Knows v) : (st.newScope (Run.callScope f vs)).2.Grounded g :=
  h.newScope rfl hf fun _ v hv => hvs v (Run.callScope_cases hv).2

theorem bindScope {f : FunctionObject} {this : Value} (hf : (st.scope? f.closure).isSome)
    (hthis : st.Knows this) : (st.bind f this).2.Grounded g := by
  refine h.newScope rfl hf fun x v hv => ?_
  rw [getElem?_singleton] at hv
  split at hv
  · cases hv
    exact hthis
  · cases hv

theorem bindValue {f : FunctionObject} {this : Value} (hf : (st.scope? f.closure).isSome)
    (hthis : st.Knows this) : (st.bindValue f this).2.Grounded g :=
  (h.bindScope hf hthis).newFunction (isSome_scope?_newScope ..)

theorem methodScope {e outer : ScopeId} {superclass : Option ClassId} (he : (st.scope? outer).isSome)
    (hc : ∀ c, superclass = some c → (st.class? c).isSome)
    (hm : st.methodScope outer superclass = (e, st')) : st'.Grounded g ∧ (st'.scope? e).isSome := by
  cases superclass with
  | none =>
    cases hm
    exact ⟨h, he⟩
  | some c =>
    cases hm
    refine ⟨h.newScope rfl he fun x v hv => ?_, isSome_scope?_newScope ..⟩
    rw [getElem?_singleton] at hv
    split at hv
    · cases hv
      exact hc c rfl
    · cases hv

/-- The methods that are made are there, and so are all in a table that they are added to. -/
theorem newMethods {e : ScopeId} (he : (st.scope? e).isSome) (fs : List FunctionDecl)
    {table : Std.ExtTreeMap String FunctionId}
    (htable : ∀ (x : String) id, table[x]? = some id → (st.function? id).isSome) :
    (Store.newMethods e table fs st).2.Grounded g ∧ ∀ (x : String) id,
      (Store.newMethods e table fs st).1[x]? = some id →
        ((Store.newMethods e table fs st).2.function? id).isSome := by
  induction fs generalizing table st with
  | nil => exact ⟨h, htable⟩
  | cons f fs ih =>
    let m : FunctionObject := ⟨f, e, f.name.lexeme = FunctionDecl.initializerName⟩
    have hnew : (st.newFunction m).2.Grounded g := h.newFunction he
    refine ih hnew he fun x id hx => ?_
    rw [Std.ExtTreeMap.getElem?_insert] at hx
    split at hx
    · cases hx
      exact knows_newFunction st m
    · exact (PersistsIn.newFunction st m).isSome_function? (htable x id hx)

theorem makeClass {e : ScopeId} {superclass : Option ClassId} (he : (st.scope? e).isSome)
    (hc : ∀ c, superclass = some c → (st.class? c).isSome) (name : String)
    (methods : List FunctionDecl) : (st.makeClass name superclass methods e).2.Grounded g ∧
      (st.makeClass name superclass methods e).2.Knows
        (.cls (st.makeClass name superclass methods e).1) := by
  have hempty : ∀ (x : String) id, (∅ : Std.ExtTreeMap String FunctionId)[x]? = some id →
      (st.function? id).isSome := by simp
  obtain ⟨hmade, htable⟩ := h.newMethods he methods hempty
  have hp := PersistsIn.newMethods e methods ∅ st
  exact ⟨hmade.newClass (fun d hd => hp.isSome_class? (hc d hd)) htable, knows_newClass _ _⟩

/-! ### A new store -/

omit h in
/-- The globals alone. -/
theorem newGlobals : (({} : Store).newScope {}).2.Grounded ⟨0⟩ where
  globals := ⟨rfl, rfl⟩
  links e scope hne hs := by
    have hlt := lt_of_scope? hs
    exact absurd (congrArg ScopeId.mk (Nat.lt_one_iff.1 hlt)) hne
  supers c cls d hc := by simp [class?, Store.newScope] at hc
  values e x v hv := by
    rw [read?_newScope] at hv
    split at hv
    · simp at hv
    · simp [read?, scope?] at hv
  fields i x v hv := by
    rw [onlyNatives_newScope.fields] at hv
    cases hv
  closures id f hf := by
    rw [onlyNatives_newScope.functions] at hf
    cases hf
  methods c cls x id hc := by
    rw [onlyNatives_newScope.classes] at hc
    cases hc
  instances i o ho := by simp [instance?, Store.newScope] at ho

/-- Installing natives keeps a store grounded. -/
theorem install {registry : NativeRegistry} {e : ScopeId} {names : List String}
    {unknown : Option String} (hi : registry.install e names st = (unknown, st')) : st'.Grounded g := by
  induction names generalizing st with
  | nil =>
    cases hi
    exact h
  | cons name rest ih =>
    rw [NativeRegistry.install] at hi
    split at hi
    · cases hi
      exact h
    · rename_i n _
      refine ih ((h.newNative n).define e name ?_) hi
      exact Option.isSome_iff_exists.2 ⟨n, (native?_newNative ..).trans (if_pos rfl)⟩

/-! ### What is read -/

theorem callable? {v : Value} {c : Callable} (hc : st.callable? v = some c) : st.KnowsCallable c := by
  unfold Store.callable? at hc
  split at hc
  · obtain ⟨f, hf, rfl⟩ := Option.map_eq_some_iff.1 hc
    exact h.closures _ f hf
  · obtain ⟨n, hn, rfl⟩ := Option.map_eq_some_iff.1 hc
    trivial
  · obtain ⟨cls, hcls, rfl⟩ := Option.map_eq_some_iff.1 hc
    exact Option.isSome_iff_exists.2 ⟨cls, hcls⟩
  · cases hc

theorem method? {c : ClassId} {x : String} {f : FunctionObject} (hf : st.method? c x = some f) :
    (st.scope? f.closure).isSome := by
  obtain ⟨id, -, hid⟩ := Option.bind_eq_some_iff.1 hf
  exact h.closures id f hid

theorem field_of_member? {i : InstanceId} {x : String} {v : Value}
    (hm : st.member? i x = some (.field v)) : st.Knows v := by
  unfold Store.member? at hm
  split at hm
  · rename_i w hw
    cases hm
    exact h.fields i x v hw
  · obtain ⟨f, -, hf⟩ := Option.map_eq_some_iff.1 hm
    cases hf

theorem method_of_member? {i : InstanceId} {x : String} {f : FunctionObject}
    (hm : st.member? i x = some (.method f)) : (st.scope? f.closure).isSome := by
  obtain ⟨-, -, id, -, -, hf⟩ := Store.method_of_member? hm
  exact h.closures id f hf

theorem getAt {e : ScopeId} {d : Int} {x : String} {v : Value} (hv : st.getAt e d x = .ok v) :
    st.Knows v := by
  unfold Store.getAt at hv
  split at hv
  · cases hv
  · split at hv
    · rename_i w hw
      cases hv
      exact h.values _ _ _ hw
    · cases hv

theorem get? {e : ScopeId} {x : String} {v : Value} (hv : st.get? e x = some v) : st.Knows v := by
  obtain ⟨o, ho⟩ := get?_eq_some hv
  exact h.values o x v ho

end Grounded

end Store

end Lox
