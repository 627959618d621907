import Lox.Proofs.Run.Operations
import Lox.Proofs.Run.Stores

/-!
# The scopes with `this` and `super`

No operation changes a link between scopes, what `this` or `super` is in a local scope, a function, a
class, or the class of an instance (`Store.Keeps`).  And in every store that is reached, a local scope
with `this` or `super` holds nothing else; the methods of a class close over the scope with its
superclass; and the `this` of a scope is an instance of the class that declares the method the scope was
made for, or of a class that inherits from it (`KeywordsOk`).
-/

namespace Lox

namespace Store

/-- A later store: links, the keywords of local scopes, functions, classes and the classes of instances
are as they were. -/
structure Keeps (g : ScopeId) (st st' : Store) : Prop extends st.Extends False st' where
  keyword : ∀ e x, e ≠ g → e.index < st.scopes.size → x = "this" ∨ x = "super" →
    st'.read? e x = st.read? e x
  classes : ∀ c cls, st.class? c = some cls → st'.class? c = some cls
  instances : ∀ i o, st.instance? i = some o → ∃ o', st'.instance? i = some o' ∧ o'.cls = o.cls

variable {g : ScopeId} {st st' st'' : Store}

theorem lt_of_class? {c : ClassId} {cls : ClassObject} (h : st.class? c = some cls) :
    c.index < st.classes.size := (Array.getElem?_eq_some_iff.1 h).1

theorem lt_of_instance? {i : InstanceId} {o : InstanceObject} (h : st.instance? i = some o) :
    i.index < st.instances.size := (Array.getElem?_eq_some_iff.1 h).1

/-- Making methods makes functions and nothing else. -/
theorem newMethods_same (e : ScopeId) (fs : List FunctionDecl) :
    ∀ (table : Std.ExtTreeMap String FunctionId) (st : Store),
      (newMethods e table fs st).2.scopes = st.scopes ∧
      (newMethods e table fs st).2.classes = st.classes ∧
      (newMethods e table fs st).2.instances = st.instances := by
  induction fs with
  | nil => exact fun _ _ => ⟨rfl, rfl, rfl⟩
  | cons f fs ih => exact fun _ _ => ih _ _

/-- The functions that are made as methods close over the scope of the methods. -/
theorem function?_newMethods (e : ScopeId) (fs : List FunctionDecl) {id : FunctionId}
    {m : FunctionObject} : ∀ (table : Std.ExtTreeMap String FunctionId) (st : Store),
      (newMethods e table fs st).2.function? id = some m →
        st.function? id = some m ∨ m.closure = e := by
  induction fs with
  | nil => exact fun _ _ h => .inl h
  | cons f fs ih =>
    intro table st h
    rcases ih _ _ h with h | h
    · replace h := (function?_newFunction ..).symm.trans h
      split at h
      · cases h
        exact .inr rfl
      · exact .inl h
    · exact .inr h

/-- The methods of a new class are new functions. -/
theorem getElem?_newMethods (e : ScopeId) (fs : List FunctionDecl) {x : String} {id : FunctionId} :
    ∀ (table : Std.ExtTreeMap String FunctionId) (st : Store),
      (newMethods e table fs st).1[x]? = some id → table[x]? = some id ∨
        st.functions.size ≤ id.index ∧
          ∃ m, (newMethods e table fs st).2.function? id = some m ∧ m.closure = e := by
  induction fs with
  | nil => exact fun _ _ h => .inl h
  | cons f fs ih =>
    intro table st h
    rcases ih _ _ h with h | ⟨hle, m, hm⟩
    · rw [Std.ExtTreeMap.getElem?_insert] at h
      split at h
      · cases h
        let m : FunctionObject := ⟨f, e, f.name.lexeme = FunctionDecl.initializerName⟩
        have hm : (st.newFunction m).2.function? (st.newFunction m).1 = some m := by
          rw [function?_newFunction, if_pos rfl]
        exact .inr ⟨Nat.le_refl _, m, (Extends.newMethods (N := False) e fs _ _).functions _ m hm, rfl⟩
      · exact .inl h
    · refine .inr ⟨Nat.le_trans (Nat.le_succ _) ?_, m, hm⟩
      simpa [newFunction] using hle

/-- When a class is made, a class is an old one, or the new one with new methods. -/
theorem class?_makeClass {e : ScopeId} {x : String} {c : Option ClassId} {fs : List FunctionDecl}
    {k : ClassId} {cls : ClassObject} (h : (st.makeClass x c fs e).2.class? k = some cls) :
    st.class? k = some cls ∨ k = (st.makeClass x c fs e).1 ∧ cls.superclass = c ∧
      ∀ (y : String) mid, cls.methods[y]? = some mid → st.functions.size ≤ mid.index ∧
        ∃ m, (st.makeClass x c fs e).2.function? mid = some m ∧ m.closure = e := by
  obtain ⟨-, hclasses, -⟩ := newMethods_same e fs ∅ st
  have h' := (class?_newClass ..).symm.trans h
  split at h'
  · rename_i hnew
    cases h'
    refine .inr ⟨hnew, rfl, fun y mid hy => ?_⟩
    rcases getElem?_newMethods e fs ∅ st hy with hold | hnew
    · simp at hold
    · exact hnew
  · exact .inl ((congrArg (·[k.index]?) hclasses).symm.trans h')

namespace Keeps

theorem refl (st : Store) : st.Keeps g st :=
  ⟨.refl st, fun _ _ _ _ _ => rfl, fun _ _ h => h, fun _ o h => ⟨o, h, rfl⟩⟩

theorem trans (h : st.Keeps g st') (h' : st'.Keeps g st'') : st.Keeps g st'' where
  toExtends := h.toExtends.trans h'.toExtends
  keyword e x he hlt hx :=
    (h'.keyword e x he (Nat.lt_of_lt_of_le hlt h.size) hx).trans (h.keyword e x he hlt hx)
  classes c cls hc := h'.classes c cls (h.classes c cls hc)
  instances i o ho := by
    obtain ⟨o', ho', hcls⟩ := h.instances i o ho
    obtain ⟨o'', ho'', hcls'⟩ := h'.instances i o' ho'
    exact ⟨o'', ho'', hcls'.trans hcls⟩

theorem define (st : Store) {e : ScopeId} {x : String} (v : Value)
    (h : e = g ∨ x ≠ "this" ∧ x ≠ "super") : st.Keeps g (st.define e x v) := by
  refine ⟨.define st e v nofun, fun t y ht _ hy => ?_, fun _ _ h => h, fun _ o h => ⟨o, h, rfl⟩⟩
  rw [read?_define, if_neg]
  rintro ⟨rfl, rfl, -⟩
  rcases h with rfl | ⟨hthis, hsuper⟩
  · exact ht rfl
  · exact hy.elim hthis hsuper

theorem newScope (st : Store) (scope : Scope) : st.Keeps g (st.newScope scope).2 := by
  refine ⟨.newScope st scope, fun e x _ hlt _ => ?_, fun _ _ h => h, fun _ o h => ⟨o, h, rfl⟩⟩
  rw [read?_newScope, if_neg]
  rintro rfl
  exact Nat.lt_irrefl _ hlt

theorem newFunction (st : Store) (f : FunctionObject) : st.Keeps g (st.newFunction f).2 :=
  ⟨.newFunction st f, fun _ _ _ _ _ => rfl, fun _ _ h => h, fun _ o h => ⟨o, h, rfl⟩⟩

theorem newInstance (st : Store) (c : ClassId) : st.Keeps g (st.newInstance c).2 := by
  refine ⟨.newInstance st c, fun _ _ _ _ _ => rfl, fun _ _ h => h, fun i o h => ⟨o, ?_, rfl⟩⟩
  rw [instance?_newInstance, if_neg, h]
  rintro rfl
  exact Nat.lt_irrefl _ (lt_of_instance? h)

theorem setField (st : Store) (i : InstanceId) (x : String) (v : Value) :
    st.Keeps g (st.setField i x v) := by
  refine ⟨.setField st i x v, fun _ _ _ _ _ => rfl, fun _ _ h => h, fun j o h => ?_⟩
  unfold instance? at h
  simp only [instance?, Store.setField, Array.getElem?_modify, h]
  split
  · exact ⟨_, rfl, rfl⟩
  · exact ⟨o, rfl, rfl⟩

theorem makeClass (st : Store) (x : String) (c : Option ClassId) (fs : List FunctionDecl)
    (e : ScopeId) : st.Keeps g (st.makeClass x c fs e).2 := by
  obtain ⟨hscopes, hclasses, hinstances⟩ := newMethods_same e fs ∅ st
  refine ⟨.makeClass st x c fs e, fun t y _ _ _ => ?_, fun k cls h => ?_, fun i o h => ⟨o, ?_, rfl⟩⟩
  · exact congrArg (fun scopes => (scopes[t.index]?).bind (·.values[y]?)) hscopes
  · have hk := lt_of_class? h
    rw [← hclasses] at hk
    refine (class?_newClass ..).trans ((if_neg ?_).trans ?_)
    · rintro rfl
      exact Nat.lt_irrefl _ hk
    · exact (congrArg (·[k.index]?) hclasses).trans h
  · exact (congrArg (·[i.index]?) hinstances).trans h

end Keeps

/-- No operation changes what stays. -/
theorem Operation.keeps {O : ScopeId → Prop}
    {B : Store → FunctionId → FunctionObject → Value → Prop} (h : Operation g O B st st') :
    st.Keeps g st' := by
  cases h with
  | nothing => exact .refl st
  | defineGlobal => exact .define st _ (.inl rfl)
  | define _ hx => exact .define st _ (.inr hx)
  | setField => exact .setField st _ _ _
  | newInstance => exact .newInstance st _
  | newFrame => exact .newScope st _
  | newSuper => exact .newScope st _
  | newFunction => exact .newFunction st _
  | makeClass => exact .makeClass st _ _ _ _
  | bind => exact .newScope st _
  | bindValue => exact (Keeps.newScope st _).trans (.newFunction _ _)

/-! ### What goes on being so -/

variable {c k : ClassId} {i : InstanceId} {mid : FunctionId}

theorem Descends.mono (h : st.Descends c k) (hk : st.Keeps g st') : st'.Descends c k := by
  induction h with
  | refl c => exact .refl c
  | step hc hs _ ih => exact .step (hk.classes _ _ hc) hs ih

theorem Descends.trans {d : ClassId} (h : st.Descends c d) (h' : st.Descends d k) :
    st.Descends c k := by
  induction h with
  | refl => exact h'
  | step hc hs _ ih => exact .step hc hs (ih h')

theorem IsA.mono (h : st.IsA i k) (hk : st.Keeps g st') : st'.IsA i k := by
  obtain ⟨o, ho, hd⟩ := h
  obtain ⟨o', ho', hcls⟩ := hk.instances i o ho
  exact ⟨o', ho', hcls ▸ hd.mono hk⟩

theorem IsA.descends {d : ClassId} (h : st.IsA i k) (h' : st.Descends k d) : st.IsA i d := by
  obtain ⟨o, ho, hd⟩ := h
  exact ⟨o, ho, hd.trans h'⟩

theorem Owns.mono (h : st.Owns k mid) (hk : st.Keeps g st') : st'.Owns k mid := by
  obtain ⟨cls, hc, x, hx⟩ := h
  exact ⟨cls, hk.classes k cls hc, x, hx⟩

end Store

/-! ### What is so in every store -/

/-- The scopes with `this` and `super` are right, where `g` are the globals, and `A` says for which
scopes with `this` which declaration was bound. -/
structure KeywordsOk (g : ScopeId) (A : ScopeId → FunctionDecl → Prop) (st : Store) : Prop where
  globals_lt : g.index < st.scopes.size
  closures : ∀ id f, st.function? id = some f → f.closure.index < st.scopes.size
  methods : ∀ k cls (x : String) mid, st.class? k = some cls → cls.methods[x]? = some mid →
    ∃ m, st.function? mid = some m ∧
      (m.closure = g ∨ st.read? m.closure "super" = cls.superclass.map .cls)
  owner : ∀ k k' mid, st.Owns k mid → st.Owns k' mid → k = k'
  this : ∀ e v, e ≠ g → st.read? e "this" = some v → ∃ i k mid m, v = .inst i ∧ st.IsA i k ∧
    st.Owns k mid ∧ st.function? mid = some m ∧
      st.scope? e = some { enclosing := some m.closure, values := {("this", v)} }
  super : ∀ e v, e ≠ g → st.read? e "super" = some v →
    ∃ outer, st.scope? e = some { enclosing := some outer, values := {("super", v)} }
  bound : ∀ id f, st.function? id = some f → f.closure ≠ g → (st.read? f.closure "this").isSome →
    A f.closure f.declaration

/-- A scope has neither `this` nor `super`. -/
def Store.Unkeyed (st : Store) (e : ScopeId) : Prop :=
  st.read? e "this" = none ∧ st.read? e "super" = none

namespace KeywordsOk

variable {g : ScopeId} {A : ScopeId → FunctionDecl → Prop} {st st' : Store}

/-- A method that is selected is owned by the class of its receiver, or by one of its ancestors. -/
theorem receiver (h : KeywordsOk g A st) {mid : FunctionId} {f : FunctionObject} {this : Value}
    (hs : st.Selects g mid f this) : ∃ i k, this = .inst i ∧ st.IsA i k ∧ st.Owns k mid := by
  cases hs with
  | own hi hm _ =>
    obtain ⟨k, hk, ho⟩ := Store.owner_of_findMethod? hm
    exact ⟨_, k, rfl, ⟨_, hi, hk⟩, ho⟩
  | super he he' hlink hc ht hm _ =>
    obtain ⟨i, k, bound, m, rfl, hisa, ⟨cls, hcls, x, hx⟩, hfun, hscope⟩ := h.this _ _ he ht
    obtain ⟨m', hfun', hclosure⟩ := h.methods k cls x bound hcls hx
    obtain rfl := Option.some.inj (hfun.symm.trans hfun')
    -- the scope around is the one the method closes over, so its class is the superclass
    obtain rfl := Option.some.inj ((Store.enclosing?_of_scope? hscope).symm.trans hlink)
    have hsuper := hclosure.resolve_left he'
    rw [hc] at hsuper
    cases hs : cls.superclass with
    | none =>
      rw [hs] at hsuper
      cases hsuper
    | some d =>
      rw [hs] at hsuper
      cases hsuper
      obtain ⟨k', hk', ho⟩ := Store.owner_of_findMethod? hm
      exact ⟨i, k', rfl, hisa.descends (.step hcls hs hk'), ho⟩

/-! ### The operations -/

/-- What makes no class keeps the scopes right if those that are new or have changed are right, and if
the new functions close over scopes that are there. -/
theorem of_keeps (h : KeywordsOk g A st) (hk : st.Keeps g st')
    (hclasses : ∀ k cls, st'.class? k = some cls → st.class? k = some cls)
    (hfunctions : ∀ id f, st'.function? id = some f → st.function? id = some f ∨
      f.closure.index < st'.scopes.size ∧ (f.closure ≠ g → (st'.read? f.closure "this").isSome →
        A f.closure f.declaration))
    (hscopes : ∀ e, e ≠ g → st'.scope? e = st.scope? e ∨ st'.Unkeyed e ∨
      (∃ i k mid m, st'.IsA i k ∧ st'.Owns k mid ∧ st'.function? mid = some m ∧
        st'.scope? e = some { enclosing := some m.closure, values := {("this", .inst i)} }) ∨
      ∃ outer v, st'.scope? e = some { enclosing := some outer, values := {("super", v)} }) :
    KeywordsOk g A st' where
  globals_lt := Nat.lt_of_lt_of_le h.globals_lt hk.size
  closures id f hf := by
    rcases hfunctions id f hf with hf | ⟨hlt, -⟩
    · exact Nat.lt_of_lt_of_le (h.closures id f hf) hk.size
    · exact hlt
  methods k cls x mid hc hx := by
    obtain ⟨m, hm, hclosure⟩ := h.methods k cls x mid (hclasses k cls hc) hx
    refine ⟨m, hk.functions mid m hm, ?_⟩
    by_cases hg : m.closure = g
    · exact .inl hg
    · rw [hk.keyword _ _ hg (h.closures mid m hm) (.inr rfl)]
      exact hclosure
  owner k k' mid := by
    rintro ⟨cls, hc, hx⟩ ⟨cls', hc', hx'⟩
    exact h.owner k k' mid ⟨cls, hclasses k cls hc, hx⟩ ⟨cls', hclasses k' cls' hc', hx'⟩
  this e v he hv := by
    rcases hscopes e he with hsame | hnone | ⟨i, k, mid, m, hisa, ho, hf, hscope⟩ | ⟨outer, w, hscope⟩
    · have hold : st.read? e "this" = some v := by
        rw [Store.read?, ← hsame]
        exact hv
      obtain ⟨i, k, mid, m, rfl, hisa, ho, hf, hscope⟩ := h.this e v he hold
      exact ⟨i, k, mid, m, rfl, hisa.mono hk, ho.mono hk, hk.functions mid m hf, hsame.trans hscope⟩
    · cases hnone.1.symm.trans hv
    · have hread := hv
      rw [Store.read?_of_scope? hscope, if_pos rfl] at hread
      cases hread
      exact ⟨i, k, mid, m, rfl, hisa, ho, hf, hscope⟩
    · rw [Store.read?_of_scope? hscope, if_neg (by decide)] at hv
      cases hv
  super e v he hv := by
    rcases hscopes e he with hsame | hnone | ⟨i, k, mid, m, -, -, -, hscope⟩ | ⟨outer, w, hscope⟩
    · have hold : st.read? e "super" = some v := by
        rw [Store.read?, ← hsame]
        exact hv
      obtain ⟨outer, hscope⟩ := h.super e v he hold
      exact ⟨outer, hsame.trans hscope⟩
    · cases hnone.2.symm.trans hv
    · rw [Store.read?_of_scope? hscope, if_neg (by decide)] at hv
      cases hv
    · rw [Store.read?_of_scope? hscope, if_pos rfl] at hv
      cases hv
      exact ⟨outer, hscope⟩
  bound id f hf hg hthis := by
    rcases hfunctions id f hf with hf | ⟨-, hA⟩
    · rw [hk.keyword _ _ hg (h.closures id f hf) (.inl rfl)] at hthis
      exact h.bound id f hf hg hthis
    · exact hA hg hthis

variable (h : KeywordsOk g A st)

include h

theorem define {e : ScopeId} {x : String} {v : Value}
    (he : e = g ∨ st.Unkeyed e ∧ x ≠ "this" ∧ x ≠ "super") : KeywordsOk g A (st.define e x v) := by
  refine h.of_keeps (.define st v (he.imp_right (·.2))) (fun _ _ hc => hc) (fun _ _ hf => .inl hf)
    fun t ht => ?_
  by_cases hte : t = e
  · subst hte
    obtain ⟨⟨hthis, hsuper⟩, hx⟩ := he.resolve_left ht
    refine .inr (.inl ⟨?_, ?_⟩)
    · rw [Store.read?_define, if_neg fun hc => hx.1 hc.2.1.symm, hthis]
    · rw [Store.read?_define, if_neg fun hc => hx.2 hc.2.1.symm, hsuper]
  · exact .inl (by rw [Store.scope?_define, if_neg hte])

theorem setField (i : InstanceId) (x : String) (v : Value) : KeywordsOk g A (st.setField i x v) :=
  h.of_keeps (.setField st i x v) (fun _ _ hc => hc) (fun _ _ hf => .inl hf) fun _ _ => .inl rfl

theorem newInstance (c : ClassId) : KeywordsOk g A (st.newInstance c).2 :=
  h.of_keeps (.newInstance st c) (fun _ _ hc => hc) (fun _ _ hf => .inl hf) fun _ _ => .inl rfl

theorem newFunction {f : FunctionObject} (hlt : f.closure.index < st.scopes.size)
    (hA : f.closure ≠ g → (st.read? f.closure "this").isSome → A f.closure f.declaration) :
    KeywordsOk g A (st.newFunction f).2 := by
  refine h.of_keeps (.newFunction st f) (fun _ _ hc => hc) (fun id m hm => ?_) fun _ _ => .inl rfl
  rw [Store.function?_newFunction] at hm
  split at hm
  · cases hm
    exact .inr ⟨hlt, hA⟩
  · exact .inl hm

theorem newFrame {e : ScopeId} {values : Bindings} (hthis : values["this"]? = none)
    (hsuper : values["super"]? = none) :
    KeywordsOk g A (st.newScope { enclosing := some e, values }).2 := by
  refine h.of_keeps (.newScope st _) (fun _ _ hc => hc) (fun _ _ hf => .inl hf) fun t _ => ?_
  by_cases ht : t = (st.newScope { enclosing := some e, values }).1
  · subst ht
    exact .inr (.inl ⟨(Store.read?_newScope_self ..).trans hthis,
      (Store.read?_newScope_self ..).trans hsuper⟩)
  · exact .inl (by rw [Store.scope?_newScope, if_neg ht])

theorem newSuper {e : ScopeId} {c : ClassId} :
    KeywordsOk g A (st.newScope { enclosing := some e, values := {("super", .cls c)} }).2 := by
  refine h.of_keeps (.newScope st _) (fun _ _ hc => hc) (fun _ _ hf => .inl hf) fun t _ => ?_
  by_cases ht : t = (st.newScope { enclosing := some e, values := {("super", .cls c)} }).1
  · exact .inr (.inr (.inr ⟨e, .cls c, by rw [Store.scope?_newScope, if_pos ht]⟩))
  · exact .inl (by rw [Store.scope?_newScope, if_neg ht])

/-- The scope of a method that is bound has the receiver as its `this`. -/
theorem bind {mid : FunctionId} {f : FunctionObject} {this : Value} (hs : st.Selects g mid f this) :
    KeywordsOk g A (st.bind f this).2 := by
  obtain ⟨i, k, rfl, hisa, ho⟩ := h.receiver hs
  have hf : st.function? mid = some f := by
    cases hs with
    | own _ _ hf => exact hf
    | super _ _ _ _ _ _ hf => exact hf
  have hk : st.Keeps g (st.bind f (.inst i)).2 := .newScope st _
  refine h.of_keeps hk (fun _ _ hc => hc) (fun _ _ hf => .inl hf) fun t _ => ?_
  by_cases ht : t = st.bindScope
  · refine .inr (.inr (.inl ⟨i, k, mid, f, hisa.mono hk, ho.mono hk, hk.functions mid f hf, ?_⟩))
    exact (Store.scope?_newScope ..).trans (if_pos ht)
  · exact .inl ((Store.scope?_newScope ..).trans (if_neg ht))

theorem makeClass {e : ScopeId} {x : String} {c : Option ClassId} {fs : List FunctionDecl}
    (hlt : e.index < st.scopes.size) (hthis : e ≠ g → st.read? e "this" = none)
    (hsuper : e = g ∨ st.read? e "super" = c.map .cls) :
    KeywordsOk g A (st.makeClass x c fs e).2 := by
  have hk : st.Keeps g (st.makeClass x c fs e).2 := .makeClass st x c fs e
  obtain ⟨hscopes, -, -⟩ := Store.newMethods_same e fs ∅ st
  have hscope : ∀ t, (st.makeClass x c fs e).2.scope? t = st.scope? t := fun t =>
    congrArg (·[t.index]?) hscopes
  have hread : ∀ t y, (st.makeClass x c fs e).2.read? t y = st.read? t y := fun t y =>
    congrArg (·.bind (·.values[y]?)) (hscope t)
  have hfunctions : ∀ id m, (st.makeClass x c fs e).2.function? id = some m →
      st.function? id = some m ∨ m.closure = e := fun _ _ hm => Store.function?_newMethods e fs ∅ st hm
  have hold : ∀ k cls (y : String) mid, st.class? k = some cls → cls.methods[y]? = some mid →
      mid.index < st.functions.size := fun k cls y mid hc hy => by
    obtain ⟨m, hm, -⟩ := h.methods k cls y mid hc hy
    exact Store.lt_of_function? hm
  exact {
    globals_lt := Nat.lt_of_lt_of_le h.globals_lt hk.size
    closures := fun id f hf => by
      rcases hfunctions id f hf with hf | rfl
      · exact Nat.lt_of_lt_of_le (h.closures id f hf) hk.size
      · exact Nat.lt_of_lt_of_le hlt hk.size
    methods := fun k cls y mid hc hy => by
      rcases Store.class?_makeClass hc with hc | ⟨-, rfl, hnew⟩
      · obtain ⟨m, hm, hclosure⟩ := h.methods k cls y mid hc hy
        exact ⟨m, hk.functions mid m hm, by rwa [hread]⟩
      · obtain ⟨-, m, hm, rfl⟩ := hnew y mid hy
        exact ⟨m, hm, by rwa [hread]⟩
    owner := fun k k' mid => by
      rintro ⟨cls, hc, y, hy⟩ ⟨cls', hc', y', hy'⟩
      rcases Store.class?_makeClass hc with hc | ⟨rfl, -, hnew⟩ <;>
        rcases Store.class?_makeClass hc' with hc' | ⟨rfl, -, hnew'⟩
      · exact h.owner k k' mid ⟨cls, hc, y, hy⟩ ⟨cls', hc', y', hy'⟩
      · exact absurd (hold k cls y mid hc hy) (Nat.not_lt.2 (hnew' y' mid hy').1)
      · exact absurd (hold k' cls' y' mid hc' hy') (Nat.not_lt.2 (hnew y mid hy).1)
      · rfl
    this := fun t v ht hv => by
      rw [hread] at hv
      obtain ⟨i, k, mid, m, rfl, hisa, ho, hf, hs⟩ := h.this t v ht hv
      exact ⟨i, k, mid, m, rfl, hisa.mono hk, ho.mono hk, hk.functions mid m hf, (hscope t).trans hs⟩
    super := fun t v ht hv => by
      rw [hread] at hv
      obtain ⟨outer, hs⟩ := h.super t v ht hv
      exact ⟨outer, (hscope t).trans hs⟩
    bound := fun id f hf hg hb => by
      rw [hread] at hb
      rcases hfunctions id f hf with hf | rfl
      · exact h.bound id f hf hg hb
      · rw [hthis hg] at hb
        cases hb }

/-- Every operation keeps the scopes right. -/
theorem operation {O : ScopeId → Prop} {B : Store → FunctionId → FunctionObject → Value → Prop}
    (hop : Store.Operation g O B st st') (hO : ∀ e, O e → e ≠ g → st.Unkeyed e)
    (hA : ∀ st mid f this, B st mid f this → A st.bindScope f.declaration) : KeywordsOk g A st' := by
  have hframe : ∀ e, e = g ∨ O e → e ≠ g → st.Unkeyed e := fun e he hg => hO e (he.resolve_left hg) hg
  cases hop with
  | nothing => exact h
  | defineGlobal => exact h.define (.inl rfl)
  | @define e x v he hx =>
    by_cases hg : e = g
    · exact h.define (.inl hg)
    · exact h.define (.inr ⟨hO e he hg, hx⟩)
  | setField => exact h.setField _ _ _
  | newInstance => exact h.newInstance _
  | newFrame hthis hsuper => exact h.newFrame hthis hsuper
  | newSuper => exact h.newSuper
  | @newFunction d e he hlt =>
    refine h.newFunction hlt fun hg hb => ?_
    rw [(hframe e he hg).1] at hb
    cases hb
  | @makeClass e x c fs hlt he =>
    rcases he with ⟨rfl, he⟩ | ⟨hg, d, rfl, hd⟩
    · refine h.makeClass hlt (fun hg => (hframe e he hg).1) ?_
      by_cases hg : e = g
      · exact .inl hg
      · exact .inr (hframe e he hg).2
    · refine h.makeClass hlt (fun _ => ?_) (.inr hd)
      obtain ⟨outer, hscope⟩ := h.super e _ hg hd
      rw [Store.read?_of_scope? hscope, if_neg (by decide)]
  | bind _ hs => exact h.bind hs
  | @bindValue mid f this hb hs =>
    exact (h.bind hs).newFunction (by simp [Store.bind, Store.newScope]) fun _ _ =>
      hA st mid f this hb

end KeywordsOk

/-! ### All runs -/

/-- A scope was made in some episodes for a method with the declaration. -/
def MadeFor (Es : List Episode) (e : ScopeId) (d : FunctionDecl) : Prop :=
  ∃ st mid f this, MethodBound Es st mid f this ∧ e = st.bindScope ∧ d = f.declaration

/-- A store is reached in some episodes. -/
def Reached (Es : List Episode) (st : Store) : Prop := ∃ F ∈ Es, F.Reaches st

theorem MethodBound.reached {Es : List Episode} {st : Store} {mid : FunctionId} {f : FunctionObject}
    {this : Value} (h : MethodBound Es st mid f this) : Reached Es st := by
  obtain ⟨F, hF, m, t, s, hv, hb⟩ := h
  obtain ⟨st', hc, -⟩ := hb.changes
  exact ⟨F, hF, .before hv hc⟩

/-- What stays of every store that is reached in some episodes stays up to a last one, and the scopes
with `this` and `super` are right in all of them. -/
structure Permanent (Es : List Episode) (last : Store) : Prop where
  keeps : ∀ st, Reached Es st → st.Keeps ⟨0⟩ last
  right : ∀ st, Reached Es st → KeywordsOk ⟨0⟩ (MadeFor Es) st

namespace Permanent

variable {Es : List Episode} {last st st' : Store} {e e' : ScopeId}

/-- Any two stores that are reached agree on the links of the scopes that both have. -/
theorem enclosing (hP : Permanent Es last) (hst : Reached Es st) (hst' : Reached Es st')
    (he : st.enclosing? e = some e') (hlt : e.index < st'.scopes.size) :
    st'.enclosing? e = some e' := by
  rw [← (hP.keeps st' hst').enclosing e hlt]
  exact (hP.keeps st hst).enclosing_some he

/-- And on the keywords that their local scopes bind. -/
theorem keyword (hP : Permanent Es last) (hst : Reached Es st) (hst' : Reached Es st') {x : String}
    {v : Value} (hg : e ≠ ⟨0⟩) (hx : x = "this" ∨ x = "super") (hv : st.read? e x = some v)
    (hlt : e.index < st'.scopes.size) : st'.read? e x = some v := by
  rw [← (hP.keeps st' hst').keyword e x hg hlt hx,
    (hP.keeps st hst).keyword e x hg (Store.lt_of_read? hv) hx, hv]

end Permanent

section

variable {registry : NativeRegistry} {config : Config} {Es : List Episode} {E : Episode}
  {i : Interpreter}

/-- The globals are the first scope there is. -/
theorem History.globals (h : History registry config Es i) : i.globals = ⟨0⟩ := by
  induction h with
  | create h =>
    obtain ⟨_, -, rfl⟩ := Interpreter.create_eq h
    rfl
  | interpret _ hr ih => rw [(Episode.ended_of_result? hr).globals, ih]

/-- In a new interpreter there are no classes, and no scopes but the globals. -/
theorem Interpreter.create_keywordsOk (A : ScopeId → FunctionDecl → Prop)
    (h : Interpreter.create registry config = .ok i) : KeywordsOk ⟨0⟩ A i.store := by
  obtain ⟨st, hi, rfl⟩ := Interpreter.create_eq h
  obtain ⟨ho, hsize, -⟩ := Store.onlyNatives_newScope.install hi
  have hglobals : ∀ (e : ScopeId) x v, e ≠ ⟨0⟩ → st.read? e x ≠ some v := by
    intro e x v he hv
    have hlt := Store.lt_of_read? hv
    rw [hsize] at hlt
    exact he (congrArg ScopeId.mk (Nat.lt_one_iff.1 hlt))
  exact {
    globals_lt := hsize ▸ Nat.zero_lt_one
    closures := fun id f hf => by
      rw [ho.functions] at hf
      cases hf
    methods := fun k cls x mid hc => by
      rw [ho.classes] at hc
      cases hc
    owner := fun k k' mid => by
      rintro ⟨cls, hc, -⟩
      rw [ho.classes] at hc
      cases hc
    this := fun e v he hv => absurd hv (hglobals e _ v he)
    super := fun e v he hv => absurd hv (hglobals e _ v he)
    bound := fun id f hf => by
      rw [ho.functions] at hf
      cases hf }

namespace Episode

variable (hd : DistinctNodes (programs (Es ++ [E]))) (hw : ∀ p ∈ programs (Es ++ [E]), p.WellNamed)

include hd hw

/-- Each change in some episodes is one of the operations. -/
theorem stepwise_operation :
    Stepwise registry config (Store.Operation ⟨0⟩ (Framed (Es ++ [E])) (MethodBound (Es ++ [E])))
      (Es ++ [E]) := by
  intro Fs G hp hF m t s st st' hv hc
  have hsub : programs (Fs ++ [G]) ⊆ programs (Es ++ [E]) := List.map_subset _ hp.subset
  have hop := hc.operation hF (hd.mono hsub) (fun p hmem => hw p (hsub hmem)) hp.subset hv
  rwa [hF.globals] at hop

variable (h : History registry config Es E.interpreter)

include h

omit hw in
/-- Every node of the episodes is come to where the scopes mirror its nesting, with the globals as the
first scope. -/
theorem at_of_mem {F : Episode} (hF : F ∈ Es ++ [E]) {m : Nat} {t : Part} {s : RunState}
    (hv : F.Visits m t s) : ∃ Fs, Fs ++ [F] <+: Es ++ [E] ∧ F.interpreter.globals = ⟨0⟩ ∧
      ∃ (hf : Fits False (Fs ++ [F])) (ht : _) (Γ : _), At (F.setting Fs False hf ht) Γ t s := by
  obtain ⟨Fs, hp, hhist⟩ := history_of_mem h hF
  have hfits : Fits False (Fs ++ [F]) := ⟨hd.mono (List.map_subset _ hp.subset), fun hc => hc.elim⟩
  have hs := hhist.storeOk F rfl hfits hhist.isTableOf_context
  obtain ⟨Γ, hat⟩ := at_of_visits hs hhist.scope hv
  exact ⟨Fs, hp, hhist.globals, hfits, _, Γ, hat⟩

/-- A scope that is made for a block or a call has no keyword when it is made. -/
theorem framed_unkeyed {last : Store}
    (hlast : ∀ G ∈ Es ++ [E], ∀ st, G.Reaches st → st.Keeps ⟨0⟩ last) {e : ScopeId}
    (he : Framed (Es ++ [E]) e) (hg : e ≠ ⟨0⟩) : last.Unkeyed e := by
  obtain ⟨F, hF, w, ⟨m, t, s, hv, ho⟩, hframe⟩ := he
  have hmade : ∀ {st : Store} {scope : Scope}, e = (st.newScope scope).1 →
      (∀ x, x = "this" ∨ x = "super" → scope.values[x]? = none) →
      Changes F.context m t s st (st.newScope scope).2 → last.Unkeyed e := by
    rintro st scope rfl hnone hc
    have hk := hlast F hF _ (.after hv hc)
    have hread : ∀ x, x = "this" ∨ x = "super" → last.read? (st.newScope scope).1 x = none := by
      intro x hx
      rw [hk.keyword _ x hg (by simp [Store.newScope]) hx, Store.read?_newScope_self, hnone x hx]
    exact ⟨hread _ (.inl rfl), hread _ (.inr rfl)⟩
  obtain ⟨Fs, hp, -, _, _, Γ, hat⟩ := at_of_mem hd h hF hv
  have hwf : ∀ p ∈ programs (Fs ++ [F]), p.WellNamed := fun p hmem =>
    hw p (List.map_subset _ hp.subset hmem)
  cases ho with
  | block hscope =>
    cases hscope
    exact hmade rfl (fun x _ => by simp) .block
  | call ha hst =>
    have hplain := plainNames_of_starts hwf hv hat ha hst
    cases hst with
    | function he =>
      cases he
      exact hmade rfl (fun x => Run.callScope_keyword hplain) (.entered ha)
    | construct hc he =>
      cases he
      exact hmade rfl (fun x => Run.callScope_keyword hplain) (.enteredInitializer ha hc)
  | construct => cases hframe
  | get => cases hframe
  | super => cases hframe
  | subclass => cases hframe

/-- There is a store that all stores that are reached lead to, and the scopes with `this` and `super`
are right in all of these. -/
theorem exists_permanent : ∃ last, Permanent (Es ++ [E]) last := by
  have hsteps : Stepwise registry config _ (Es ++ [E]) := stepwise_operation hd hw
  obtain ⟨last, hlast⟩ := exists_limit (R := Store.Keeps ⟨0⟩) .refl .trans h
    fun Fs G hp hF _ _ _ _ _ hv hc => (hsteps Fs G hp hF hv hc).keeps
  refine ⟨last, fun st hst => ?_, fun st hst => ?_⟩
  · obtain ⟨G, hG, hst⟩ := hst
    exact hlast G hG st hst
  obtain ⟨G, hG, hst⟩ := hst
  refine invariant h (fun i hi => Interpreter.create_keywordsOk _ hi) ?_ hG hst
  intro Fs F hp hF m t s st st' hv hc hok
  refine hok.operation (hsteps Fs F hp hF hv hc) (fun e he hg => ?_) ?_
  · -- at the limit the scope has no keyword, so it had none before
    have hk := hlast F (hp.subset (by simp)) st (.before hv hc)
    have hnone := framed_unkeyed hd hw h hlast he hg
    have hread : ∀ x, x = "this" ∨ x = "super" → last.read? e x = none → st.read? e x = none := by
      intro x hx hnone
      cases hv : st.read? e x with
      | none => rfl
      | some v =>
        rw [hk.keyword e x hg (Store.lt_of_read? hv) hx, hv] at hnone
        cases hnone
    exact ⟨hread _ (.inl rfl) hnone.1, hread _ (.inr rfl) hnone.2⟩
  · intro st mid f this hb
    exact ⟨st, mid, f, this, hb, rfl, rfl⟩

end Episode

end

end Lox
