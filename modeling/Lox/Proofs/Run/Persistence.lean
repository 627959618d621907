import Lox.Proofs.Run.Receivers

/-!
# What persists

A run changes the values of variables and fields and nothing else of what is there: each scope keeps its
link and the names it binds, each function, native and class is as it was, each instance keeps its class
and the fields it has (`Store.PersistsIn`).  Each change that a node makes is of this kind, whatever the
store and the table are (`Changes.persists`), so it holds between any two stores of a run, however the run
ends (`Interpretation.store_persists`).  What can be observed of a store can then be observed of every later
one (`Store.Observed`), and reading a method makes a function of its own (`Store.Fetches`).
-/

namespace Lox

namespace Store

/-- All that is in a store is in another, with the same links, functions, natives, classes and classes of
instances, and with bindings for all names and fields that had one. -/
structure PersistsIn (st st' : Store) : Prop where
  scopes : ∀ e scope, st.scope? e = some scope → ∃ scope', st'.scope? e = some scope' ∧
    scope'.enclosing = scope.enclosing ∧
      ∀ x : String, (scope.values[x]?).isSome → (scope'.values[x]?).isSome
  functions : ∀ id f, st.function? id = some f → st'.function? id = some f
  natives : ∀ id n, st.native? id = some n → st'.native? id = some n
  classes : ∀ c cls, st.class? c = some cls → st'.class? c = some cls
  instances : ∀ i o, st.instance? i = some o → ∃ o', st'.instance? i = some o' ∧ o'.cls = o.cls ∧
    ∀ x : String, (o.fields[x]?).isSome → (o'.fields[x]?).isSome

/-- What can be observed of a store can be observed of another: the scopes that a function captures and
the class an instance was made from, the names that are bound and the fields that are set, though with
other values, and the same methods and callable objects. -/
structure Observed (st st' : Store) : Prop where
  captured : ∀ id f d e, st.function? id = some f → st.ancestor? d f.closure = some e →
    st'.function? id = some f ∧ st'.ancestor? d f.closure = some e
  madeFrom : ∀ i o cls, st.instance? i = some o → st.class? o.cls = some cls →
    ∃ o', st'.instance? i = some o' ∧ o'.cls = o.cls ∧ st'.class? o'.cls = some cls
  contains : ∀ e x, st.contains e x → st'.contains e x
  resolved : ∀ e d x v, st.getAt e d x = .ok v → ∃ v', st'.getAt e d x = .ok v'
  field : ∀ i x, (st.field? i x).isSome → (st'.field? i x).isSome
  found : ∀ c x mid, st.findMethod? c x = some mid → st'.findMethod? c x = some mid
  method : ∀ c x f, st.method? c x = some f → st'.method? c x = some f
  member : ∀ i x, (st.member? i x).isSome → (st'.member? i x).isSome
  callable : ∀ v c, st.callable? v = some c → st'.callable? v = some c

variable {st st' st'' : Store}

theorem native?_newNative (st : Store) (n : NativeFunction) (id : NativeId) :
    (st.newNative n).2.native? id = if id = (st.newNative n).1 then some n else st.native? id := by
  obtain ⟨i⟩ := id
  by_cases h : i = st.natives.size
  · simp [native?, newNative, h]
  · simp [native?, newNative, h, Array.getElem?_push]

/-- Bindings keep their names when one is added. -/
theorem isSome_insert {values : Bindings} (x : String) (v : Value) {y : String}
    (h : (values[y]?).isSome) : ((values.insert x v)[y]?).isSome := by
  rw [Std.ExtTreeMap.getElem?_insert]
  split
  · rfl
  · exact h

namespace PersistsIn

theorem refl (st : Store) : st.PersistsIn st :=
  ⟨fun _ scope h => ⟨scope, h, rfl, fun _ hx => hx⟩, fun _ _ h => h, fun _ _ h => h, fun _ _ h => h,
    fun _ o h => ⟨o, h, rfl, fun _ hx => hx⟩⟩

theorem trans (h : st.PersistsIn st') (h' : st'.PersistsIn st'') : st.PersistsIn st'' where
  scopes e scope hs := by
    obtain ⟨scope', hs', hlink, hx⟩ := h.scopes e scope hs
    obtain ⟨scope'', hs'', hlink', hx'⟩ := h'.scopes e scope' hs'
    exact ⟨scope'', hs'', hlink'.trans hlink, fun x hb => hx' x (hx x hb)⟩
  functions id f hf := h'.functions id f (h.functions id f hf)
  natives id n hn := h'.natives id n (h.natives id n hn)
  classes c cls hc := h'.classes c cls (h.classes c cls hc)
  instances i o ho := by
    obtain ⟨o', ho', hcls, hx⟩ := h.instances i o ho
    obtain ⟨o'', ho'', hcls', hx'⟩ := h'.instances i o' ho'
    exact ⟨o'', ho'', hcls'.trans hcls, fun x hb => hx' x (hx x hb)⟩

/-! ### The operations -/

theorem define (st : Store) (e : ScopeId) (x : String) (v : Value) :
    st.PersistsIn (st.define e x v) := by
  refine ⟨fun t scope ht => ?_, fun _ _ h => h, fun _ _ h => h, fun _ _ h => h, (refl st).instances⟩
  rw [scope?_define]
  by_cases hte : t = e
  · subst hte
    rw [if_pos rfl, ht]
    exact ⟨_, rfl, rfl, fun y hy => isSome_insert x v hy⟩
  · rw [if_neg hte, ht]
    exact ⟨scope, rfl, rfl, fun _ hy => hy⟩

theorem newScope (st : Store) (scope : Scope) : st.PersistsIn (st.newScope scope).2 := by
  refine ⟨fun t outer ht => ?_, fun _ _ h => h, fun _ _ h => h, fun _ _ h => h, (refl st).instances⟩
  have hne : t ≠ (st.newScope scope).1 := by
    rintro rfl
    exact Nat.lt_irrefl _ (lt_of_scope? ht)
  rw [scope?_newScope, if_neg hne]
  exact (refl st).scopes t outer ht

theorem newFunction (st : Store) (f : FunctionObject) : st.PersistsIn (st.newFunction f).2 := by
  refine ⟨(refl st).scopes, fun id g hg => ?_, fun _ _ h => h, fun _ _ h => h, (refl st).instances⟩
  have hne : id ≠ (st.newFunction f).1 := by
    rintro rfl
    exact Nat.lt_irrefl _ (lt_of_function? hg)
  rw [function?_newFunction, if_neg hne]
  exact hg

theorem newNative (st : Store) (n : NativeFunction) : st.PersistsIn (st.newNative n).2 := by
  refine ⟨(refl st).scopes, fun _ _ h => h, fun id m hm => ?_, fun _ _ h => h, (refl st).instances⟩
  have hne : id ≠ (st.newNative n).1 := by
    rintro rfl
    exact Nat.lt_irrefl _ (Array.getElem?_eq_some_iff.1 hm).1
  rw [native?_newNative, if_neg hne]
  exact hm

theorem newClass (st : Store) (cls : ClassObject) : st.PersistsIn (st.newClass cls).2 := by
  refine ⟨(refl st).scopes, fun _ _ h => h, fun _ _ h => h, fun c old hc => ?_, (refl st).instances⟩
  have hne : c ≠ (st.newClass cls).1 := by
    rintro rfl
    exact Nat.lt_irrefl _ (lt_of_class? hc)
  rw [class?_newClass, if_neg hne]
  exact hc

theorem newInstance (st : Store) (c : ClassId) : st.PersistsIn (st.newInstance c).2 := by
  refine ⟨(refl st).scopes, fun _ _ h => h, fun _ _ h => h, fun _ _ h => h, fun i o ho => ?_⟩
  have hne : i ≠ (st.newInstance c).1 := by
    rintro rfl
    exact Nat.lt_irrefl _ (lt_of_instance? ho)
  rw [instance?_newInstance, if_neg hne]
  exact (refl st).instances i o ho

theorem setField (st : Store) (i : InstanceId) (x : String) (v : Value) :
    st.PersistsIn (st.setField i x v) := by
  refine ⟨(refl st).scopes, fun _ _ h => h, fun _ _ h => h, fun _ _ h => h, fun j o ho => ?_⟩
  unfold instance? at ho
  simp only [instance?, Store.setField, Array.getElem?_modify, ho]
  split
  · exact ⟨_, rfl, rfl, fun y hy => isSome_insert x v hy⟩
  · exact ⟨o, rfl, rfl, fun _ hy => hy⟩

theorem bindValue (st : Store) (f : FunctionObject) (this : Value) :
    st.PersistsIn (st.bindValue f this).2 :=
  (newScope st _).trans (newFunction _ _)

theorem methodScope (st : Store) (e : ScopeId) (superclass : Option ClassId) :
    st.PersistsIn (st.methodScope e superclass).2 := by
  cases superclass with
  | none => exact refl st
  | some c => exact newScope st _

theorem newMethods (e : ScopeId) (fs : List FunctionDecl) :
    ∀ (table : Std.ExtTreeMap String FunctionId) (st : Store),
      st.PersistsIn (Store.newMethods e table fs st).2 := by
  induction fs with
  | nil => exact fun _ st => refl st
  | cons f fs ih => exact fun table st => (newFunction st _).trans (ih _ _)

theorem makeClass (st : Store) (name : String) (superclass : Option ClassId)
    (methods : List FunctionDecl) (e : ScopeId) :
    st.PersistsIn (st.makeClass name superclass methods e).2 :=
  (newMethods e methods ∅ st).trans (newClass _ _)

/-! ### What can be observed -/

theorem enclosing? (h : st.PersistsIn st') {e outer : ScopeId} (he : st.enclosing? e = some outer) :
    st'.enclosing? e = some outer := by
  obtain ⟨scope, hs, hlink⟩ := Option.bind_eq_some_iff.1 he
  obtain ⟨scope', hs', hlink', -⟩ := h.scopes e scope hs
  rw [enclosing?_of_scope? hs', hlink', hlink]

theorem binds (h : st.PersistsIn st') {e : ScopeId} {x : String} (hx : st.binds e x) :
    st'.binds e x := by
  obtain ⟨v, hv⟩ := Option.isSome_iff_exists.1 hx
  obtain ⟨scope, hs, hxv⟩ := Option.bind_eq_some_iff.1 hv
  obtain ⟨scope', hs', -, hnames⟩ := h.scopes e scope hs
  have hbound := hnames x (Option.isSome_iff_exists.2 ⟨v, hxv⟩)
  unfold Store.binds read?
  rw [hs', Option.bind_some]
  exact hbound

theorem size_scopes (h : st.PersistsIn st') : st.scopes.size ≤ st'.scopes.size := by
  by_contra hlt
  obtain ⟨scope, hs⟩ := Option.isSome_iff_exists.1
    (scope?_isSome_of_lt (e := ⟨st'.scopes.size⟩) (Nat.lt_of_not_le hlt))
  obtain ⟨scope', hs', -⟩ := h.scopes _ scope hs
  exact Nat.lt_irrefl _ (lt_of_scope? hs')

theorem size_classes (h : st.PersistsIn st') : st.classes.size ≤ st'.classes.size := by
  by_contra hlt
  have hlt' : st'.classes.size < st.classes.size := Nat.lt_of_not_le hlt
  have hc := h.classes ⟨st'.classes.size⟩ _ (Array.getElem?_eq_getElem hlt')
  exact Nat.lt_irrefl _ (lt_of_class? hc)

theorem ancestor? (h : st.PersistsIn st') {d : Nat} {e a : ScopeId}
    (ha : st.ancestor? d e = some a) : st'.ancestor? d e = some a := by
  induction d generalizing e with
  | zero => exact ha
  | succ d ih =>
    rw [Store.ancestor?] at ha ⊢
    cases he : st.enclosing? e with
    | none =>
      rw [he] at ha
      cases ha
    | some outer =>
      rw [he] at ha
      rw [h.enclosing? he]
      exact ih ha

/-- A search that finds an owner finds one again, perhaps a nearer one. -/
theorem ownerWithin? (h : st.PersistsIn st') {x : String} {n m : Nat} (hnm : n ≤ m) {e : ScopeId}
    (ho : (st.ownerWithin? x n e).isSome) : (st'.ownerWithin? x m e).isSome := by
  induction n generalizing m e with
  | zero => cases ho
  | succ n ih =>
    obtain ⟨m, rfl⟩ := Nat.exists_eq_add_of_le' (Nat.lt_of_lt_of_le (Nat.zero_lt_succ n) hnm)
    rw [Store.ownerWithin?] at ho ⊢
    by_cases hb' : st'.binds e x
    · rw [if_pos hb']
      rfl
    · have hb : ¬ st.binds e x := fun hb => hb' (h.binds hb)
      rw [if_neg hb] at ho
      rw [if_neg hb']
      cases he : st.enclosing? e with
      | none =>
        rw [he] at ho
        cases ho
      | some outer =>
        rw [he] at ho
        rw [h.enclosing? he]
        exact ih (Nat.le_of_succ_le_succ hnm) ho

/-- A method that is found goes on being found. -/
theorem findMethodWithin? (h : st.PersistsIn st') {x : String} {n m : Nat} (hnm : n ≤ m) {c : ClassId}
    {mid : FunctionId} (hf : st.findMethodWithin? x n c = some mid) :
    st'.findMethodWithin? x m c = some mid := by
  induction n generalizing m c with
  | zero => cases hf
  | succ n ih =>
    obtain ⟨m, rfl⟩ := Nat.exists_eq_add_of_le' (Nat.lt_of_lt_of_le (Nat.zero_lt_succ n) hnm)
    rw [Store.findMethodWithin?] at hf ⊢
    cases hc : st.class? c with
    | none =>
      rw [hc] at hf
      cases hf
    | some cls =>
      rw [hc] at hf
      rw [h.classes c cls hc]
      dsimp only at hf ⊢
      split at hf
      · exact hf
      · cases hf
      · exact ih (Nat.le_of_succ_le_succ hnm) hf

theorem method? (h : st.PersistsIn st') {c : ClassId} {x : String} {f : FunctionObject}
    (hf : st.method? c x = some f) : st'.method? c x = some f := by
  obtain ⟨mid, hm, hmid⟩ := Option.bind_eq_some_iff.1 hf
  have hm' : st'.findMethod? c x = some mid := h.findMethodWithin? h.size_classes hm
  exact Option.bind_eq_some_iff.2 ⟨mid, hm', h.functions mid f hmid⟩

theorem field? (h : st.PersistsIn st') {i : InstanceId} {x : String} (hx : (st.field? i x).isSome) :
    (st'.field? i x).isSome := by
  obtain ⟨v, hv⟩ := Option.isSome_iff_exists.1 hx
  obtain ⟨o, ho, hxv⟩ := Option.bind_eq_some_iff.1 hv
  obtain ⟨o', ho', -, hfields⟩ := h.instances i o ho
  have hset := hfields x (Option.isSome_iff_exists.2 ⟨v, hxv⟩)
  unfold Store.field?
  rw [ho', Option.bind_some]
  exact hset

/-- A property stays one, though a field may come to hide a method. -/
theorem member? (h : st.PersistsIn st') {i : InstanceId} {x : String}
    (hm : (st.member? i x).isSome) : (st'.member? i x).isSome := by
  unfold Store.member? at hm ⊢
  cases hfield' : st'.field? i x with
  | some v => rfl
  | none =>
    cases hfield : st.field? i x with
    | some v =>
      have hset := h.field? (Option.isSome_iff_exists.2 ⟨v, hfield⟩)
      rw [hfield'] at hset
      cases hset
    | none =>
      rw [hfield] at hm
      dsimp only at hm ⊢
      rw [Option.isSome_map] at hm ⊢
      obtain ⟨f, hf⟩ := Option.isSome_iff_exists.1 hm
      obtain ⟨o, ho, hof⟩ := Option.bind_eq_some_iff.1 hf
      obtain ⟨o', ho', hcls, -⟩ := h.instances i o ho
      rw [ho', Option.bind_some, hcls, h.method? hof]
      rfl

theorem callable? (h : st.PersistsIn st') {v : Value} {c : Callable}
    (hc : st.callable? v = some c) : st'.callable? v = some c := by
  unfold Store.callable? at hc ⊢
  split at hc
  · obtain ⟨f, hf, rfl⟩ := Option.map_eq_some_iff.1 hc
    rw [h.functions _ f hf]
    rfl
  · obtain ⟨n, hn, rfl⟩ := Option.map_eq_some_iff.1 hc
    rw [h.natives _ n hn]
    rfl
  · obtain ⟨cls, hcls, rfl⟩ := Option.map_eq_some_iff.1 hc
    rw [h.classes _ cls hcls]
    rfl
  · cases hc

theorem observed (h : st.PersistsIn st') : st.Observed st' where
  captured id f _ _ hf ha := ⟨h.functions id f hf, h.ancestor? ha⟩
  madeFrom i o cls ho hc := by
    obtain ⟨o', ho', hcls, -⟩ := h.instances i o ho
    exact ⟨o', ho', hcls, hcls ▸ h.classes o.cls cls hc⟩
  contains _ _ hx := h.ownerWithin? h.size_scopes hx
  resolved e d x v hv := by
    unfold getAt scopeAt at hv ⊢
    cases ha : st.ancestor? d.toNat e with
    | none =>
      rw [ha] at hv
      cases hv
    | some a =>
      rw [ha] at hv
      rw [h.ancestor? ha]
      dsimp only at hv ⊢
      have hb : st.binds a x := by
        unfold Store.binds
        cases hr : st.read? a x with
        | none =>
          rw [hr] at hv
          cases hv
        | some w => rfl
      obtain ⟨w, hw⟩ := Option.isSome_iff_exists.1 (h.binds hb)
      rw [hw]
      exact ⟨w, rfl⟩
  field _ _ hx := h.field? hx
  found _ _ _ hf := h.findMethodWithin? h.size_classes hf
  method _ _ _ hf := h.method? hf
  member _ _ hm := h.member? hm
  callable _ _ hc := h.callable? hc

end PersistsIn

/-! ### Reading a method -/

/-- A method is read with a receiver: there is a new function, with the identity, which differs from the
method in that it closes over a new scope for `this`.  Nothing else changes, not even the value of a
variable, and in each class the same methods are found. -/
structure Fetches (st : Store) (f : FunctionObject) (this : Value) (id : FunctionId) (st' : Store) :
    Prop where
  fresh : st.function? id = none
  made : st'.function? id = some { f with closure := st.bindScope }
  opened : st.scope? st.bindScope = none ∧
    st'.scope? st.bindScope = some { enclosing := some f.closure, values := {("this", this)} }
  functions : ∀ g, g ≠ id → st'.function? g = st.function? g
  scopes : ∀ e, e ≠ st.bindScope → st'.scope? e = st.scope? e
  classes : ∀ c, st'.class? c = st.class? c
  instances : ∀ i, st'.instance? i = st.instance? i
  found : ∀ c x, st'.findMethod? c x = st.findMethod? c x

theorem fetches_bindValue (st : Store) (f : FunctionObject) (this : Value) :
    st.Fetches f this ⟨st.functions.size⟩ (st.bindValue f this).2 where
  fresh := by
    unfold function?
    exact Array.getElem?_eq_none (Nat.le_refl _)
  made := (function?_newFunction ..).trans (if_pos rfl)
  opened := by
    refine ⟨?_, (scope?_newScope ..).trans (if_pos rfl)⟩
    unfold scope?
    exact Array.getElem?_eq_none (Nat.le_refl _)
  functions g hg := (function?_newFunction ..).trans (if_neg hg)
  scopes e he := (scope?_newScope ..).trans (if_neg he)
  classes _ := rfl
  instances _ := rfl
  found c x := findMethodWithin?_congr st (st.bindValue f this).2 (fun _ => rfl) x _ c

end Store

/-! ### Runs -/

variable {ctx : Context} {n : Nat} {t : Part} {s : RunState} {st st' : Store}

/-- Whatever the store and the table are, a change leaves all that is there. -/
theorem Changes.persists (h : Changes ctx n t s st st') : st.PersistsIn st' := by
  cases h with
  | assigned => exact .define ..
  | fieldSet => exact .setField ..
  | got => exact .bindValue ..
  | super => exact .bindValue ..
  | instantiated => exact .newInstance ..
  | initialized _ hc =>
    cases hc with
    | mk hi _ hg =>
      cases hi
      cases hg
      exact .newScope ..
  | entered => exact .newScope ..
  | enteredInitializer => exact .newScope ..
  | block => exact .newScope ..
  | declared => exact .define ..
  | initializedVar => exact .define ..
  | closed => exact .newFunction ..
  | functionNamed => exact .define ..
  | reserved => exact .define ..
  | enclosed => exact .methodScope ..
  | made => exact .makeClass ..
  | classNamed => exact .define ..

/-- However the run of a part ends, all that was there is there. -/
theorem Part.outcome_persists (ctx : Context) (n : Nat) (t : Part) (s : RunState) :
    Between Store.PersistsIn (Happens ctx n t s) s.store (t.outcome ctx n s) :=
  (Between.accounts (V := fun _ _ _ => True) .refl .trans (fun _ hc => hc.persists)
    fun _ _ => trivial).run n t s trivial

/-- A property that is a method is bound to the instance. -/
theorem evaluate_get_of_method {id : NodeId} {object : Expr} {name : Token} {i : InstanceId}
    {s₁ : RunState} {f : FunctionObject} (ho : evaluate ctx n object s = .ok (.inst i) s₁)
    (hm : s₁.store.member? i name.lexeme = some (.method f)) :
    evaluate ctx (n + 1) (.get id object name) s = .ok (s₁.store.bindValue f (.inst i)).1
      { s₁ with store := (s₁.store.bindValue f (.inst i)).2 } := by
  show (evaluate ctx n object >>= _) s = _
  rw [Action.bind_apply, ho]
  show Run.getProperty i name s₁ = _
  unfold Run.getProperty
  rw [Run.ask_bind, hm]
  rfl

/-- So it is read as a new function. -/
theorem evaluate_get_method {id : NodeId} {object : Expr} {name : Token} {i : InstanceId}
    {s₁ : RunState} {f : FunctionObject} (ho : evaluate ctx n object s = .ok (.inst i) s₁)
    (hm : s₁.store.member? i name.lexeme = some (.method f)) :
    ∃ g s₂, evaluate ctx (n + 1) (.get id object name) s = .ok (.function g) s₂ ∧
      s₁.store.Fetches f (.inst i) g s₂.store :=
  ⟨_, _, evaluate_get_of_method ho hm, s₁.store.fetches_bindValue f _⟩

/-- So is a method of the superclass. -/
theorem evaluate_super_method {id : NodeId} {keyword method : Token} {d : Nat} {c : ClassId}
    {this : Value} {f : FunctionObject} (hd : ctx.table[id]? = some d)
    (hc : s.store.getAt s.scope d "super" = .ok (.cls c))
    (ht : s.store.getAt s.scope ((d : Int) - 1) "this" = .ok this)
    (hf : s.store.method? c method.lexeme = some f) :
    ∃ g s₁, evaluate ctx (n + 1) (.super id keyword method) s = .ok (.function g) s₁ ∧
      s.store.Fetches f this g s₁.store :=
  ⟨_, _, Run.superMethod_of_found hd hc ht hf, s.store.fetches_bindValue f this⟩

/-- Whatever program is run with whatever table, in whatever state of the interpreter: the store from which
the run starts persists in each that it reaches, and this one in the last one, with which the run ends if
it does.  The same is true of the run of each node, and of what happens during it.  A method that is read,
from an instance or through `super`, is left alone in its class.  So nothing that could be observed is
lost. -/
theorem Interpretation.store_persists (I : Interpretation) :
    (∃ last, (∀ st, I.Reaches st → I.interpreter.store.PersistsIn st ∧ st.PersistsIn last) ∧
      ∀ report i, I.result? = some (report, i) → i.store = last) ∧
    (∀ m t s, I.Visits m t s → ∃ last, s.store.PersistsIn last ∧
      (t.outcome I.context m s).EndsWith last ∧ ∀ ev, Happens I.context m t s ev →
        ∀ st ∈ ev.stores, s.store.PersistsIn st ∧ st.PersistsIn last) ∧
    (∀ m id object name s i s₁ f, evaluate I.context m object s = .ok (.inst i) s₁ →
      s₁.store.member? i name.lexeme = some (.method f) → ∃ g s₂,
        evaluate I.context (m + 1) (.get id object name) s = .ok (.function g) s₂ ∧
          s₁.store.Fetches f (.inst i) g s₂.store) ∧
    (∀ m id keyword method (s : RunState) (d : Nat) c this f, I.context.table[id]? = some d →
      s.store.getAt s.scope d "super" = .ok (.cls c) →
      s.store.getAt s.scope ((d : Int) - 1) "this" = .ok this →
      s.store.method? c method.lexeme = some f → ∃ g s₁,
        evaluate I.context (m + 1) (.super id keyword method) s = .ok (.function g) s₁ ∧
          s.store.Fetches f this g s₁.store) ∧
    ∀ st st' : Store, st.PersistsIn st' → st.Observed st' := by
  have hrun := I.between (R := Store.PersistsIn) .refl .trans fun _ hc => hc.persists
  have hnode : ∀ m t s, I.Visits m t s → Between Store.PersistsIn (Happens I.context m t s) s.store
      (t.outcome I.context m s) := fun m t s _ => t.outcome_persists I.context m s
  refine ⟨hrun, hnode, ?_, ?_, fun st st' h => h.observed⟩
  · intro m id object name s i s₁ f ho hm
    exact evaluate_get_method ho hm
  · intro m id keyword method s d c this f hd hc ht hf
    exact evaluate_super_method hd hc ht hf

/-! ### A class that is declared again -/

/-- A method without statements. -/
def FunctionDecl.kept : FunctionDecl := ⟨0, ⟨.identifier, "m", .nil, 1⟩, [], []⟩

/-- The method, read from an instance of its class. -/
def Expr.readsKept : Expr :=
  .get 1 (.var ⟨2, ⟨.identifier, "a", .nil, 2⟩⟩) ⟨.identifier, "m", .nil, 2⟩

/-- There are a class with a method and an instance of it.  A program reads the method, declares an empty
class of that name and fails at a name that nothing declares. -/
def Interpretation.redeclaration : Interpretation where
  interpreter := {
    config := { natives := [], maxCallDepth_pos := Config.defaultDepth_pos }
    globals := ⟨0⟩
    store := {
      scopes := #[{ values := {("a", .inst ⟨0⟩), ("A", .cls ⟨0⟩)} }]
      functions := #[⟨.kept, ⟨0⟩, false⟩]
      classes := #[⟨"A", none, {("m", ⟨0⟩)}⟩]
      instances := #[{ cls := ⟨0⟩ }] }
    scope := ⟨0⟩ }
  program := [.expression 3 .readsKept, .classDecl 4 ⟨.identifier, "A", .nil, 3⟩ none [],
    .expression 5 (.var ⟨6, ⟨.identifier, "z", .nil, 4⟩⟩)]
  table := ∅
  fuel := 3

/-- The name is another class after the run, which failed; the class it was before has its method, and
reading that method made a function of its own. -/
theorem Interpretation.redeclaration_persists : ∃ report i g s,
    redeclaration.result? = some (report, i) ∧
      report.ending = .failed ⟨.undefinedVariable, ⟨.identifier, "z", .nil, 4⟩⟩ ∧
      redeclaration.interpreter.store.read? ⟨0⟩ "A" = some (.cls ⟨0⟩) ∧
      i.store.read? ⟨0⟩ "A" = some (.cls ⟨1⟩) ∧
      redeclaration.interpreter.store.PersistsIn i.store ∧
      i.store.method? ⟨0⟩ "m" = some ⟨.kept, ⟨0⟩, false⟩ ∧
      evaluate redeclaration.context 2 .readsKept redeclaration.ready.start = .ok (.function g) s ∧
      redeclaration.interpreter.store.Fetches ⟨.kept, ⟨0⟩, false⟩ (.inst ⟨0⟩) g s.store := by
  have hrun : (redeclaration.result?.map fun r => (r.1.ending, r.2.store.read? ⟨0⟩ "A")) =
      some (.failed ⟨.undefinedVariable, ⟨.identifier, "z", .nil, 4⟩⟩, some (.cls ⟨1⟩)) := by
    decide +kernel
  obtain ⟨⟨report, i⟩, hres, hend⟩ := Option.map_eq_some_iff.1 hrun
  obtain ⟨hfailed, hname⟩ := Prod.mk.inj hend
  obtain ⟨⟨last, hreached, -⟩, -, hget, -, hobserved⟩ := store_persists redeclaration
  have hpersists : redeclaration.interpreter.store.PersistsIn i.store := (hreached _ (.ended hres)).1
  obtain ⟨g, s, hg, hfetches⟩ := hget 1 1 (.var ⟨2, ⟨.identifier, "a", .nil, 2⟩⟩)
    ⟨.identifier, "m", .nil, 2⟩ redeclaration.ready.start ⟨0⟩ redeclaration.ready.start
    ⟨.kept, ⟨0⟩, false⟩ rfl rfl
  exact ⟨report, i, g, s, hres, hfailed, by decide, hname, hpersists,
    (hobserved _ _ hpersists).method _ _ _ rfl, hg, hfetches⟩

end Lox
