import Lox.Proofs.Run.Mirror

/-!
# Closures keep to their nestings

What holds of every store a run comes to: a function that can be called closes over scopes that
mirror the nesting its body was resolved in, a method over those that mirror the nesting around the
scope with `this` that is still to come, and the globals bind no names but those they may.
-/

namespace Lox

variable (S : Setting)

/-- Every name. -/
def anyName : String → Prop := fun _ => True

/-- A function that can be called. -/
structure FunctionOk (st : Store) (f : FunctionObject) (Γ : Nesting) : Prop where
  declared : S.declared Γ f.declaration
  closure : Mirrors S anyName st Γ f.closure
  bound : f.isInitializer → ∃ g Δ, Γ = g :: Δ ∧ g.ready? "this" = some true

/-- A method that is to be bound to an instance. -/
structure MethodOk (st : Store) (f : FunctionObject) (g : Frame) (Γ : Nesting) : Prop where
  declared : S.declared (g :: Γ) f.declaration
  opener : ∃ id methods b, g.opener = .this id methods b ∧ f.declaration.id ∈ methods
  marks : g.marks = [("this", true)]
  closure : Mirrors S anyName st Γ f.closure

/-- A value that is a function can be called, and none is a scope. -/
structure ValueOk (st : Store) (v : Value) : Prop where
  function : ∀ id, v = .function id → ∃ f Γ, st.function? id = some f ∧ FunctionOk S st f Γ
  scope : ∀ id, v ≠ .scope id

structure StoreOk (st : Store) : Prop where
  values : ∀ e x v, st.read? e x = some v → ValueOk S st v
  fields : ∀ i x v, st.field? i x = some v → ValueOk S st v
  methods : ∀ c cls (x : String) id, st.class? c = some cls → cls.methods[x]? = some id →
    ∃ f g Γ, st.function? id = some f ∧ MethodOk S st f g Γ
  globals_lt : S.context.globals.index < st.scopes.size
  root : st.enclosing? S.context.globals = none
  global : ∀ x, (st.read? S.context.globals x).isSome → S.global x

variable {S} {st st' : Store}

/-! ### Later stores -/

theorem FunctionOk.mono {f : FunctionObject} {Γ : Nesting} (h : FunctionOk S st f Γ)
    (hx : st.Extends S.named st') : FunctionOk S st' f Γ :=
  ⟨h.declared, h.closure.mono hx, h.bound⟩

theorem MethodOk.mono {f : FunctionObject} {g : Frame} {Γ : Nesting} (h : MethodOk S st f g Γ)
    (hx : st.Extends S.named st') : MethodOk S st' f g Γ :=
  ⟨h.declared, h.opener, h.marks, h.closure.mono hx⟩

theorem ValueOk.mono {v : Value} (h : ValueOk S st v) (hx : st.Extends S.named st') :
    ValueOk S st' v := by
  refine ⟨fun id hv => ?_, h.scope⟩
  obtain ⟨f, Γ, hf, hok⟩ := h.function id hv
  exact ⟨f, Γ, hx.functions id f hf, hok.mono hx⟩

/-- A value that is neither a function nor a scope is fine. -/
theorem ValueOk.of_ne {v : Value} (h : ∀ id, v ≠ .function id) (hs : ∀ id, v ≠ .scope id) :
    ValueOk S st v :=
  ⟨fun id hv => absurd hv (h id), hs⟩

theorem ValueOk.of_isPlain {v : Value} (h : v.isPlain) : ValueOk S st v := by
  refine .of_ne ?_ ?_
  · rintro id rfl
    cases h
  · rintro id rfl
    cases h

/-- The function an initializer is, bound to its instance. -/
theorem FunctionOk.isSome_this {f : FunctionObject} {Γ : Nesting} (h : FunctionOk S st f Γ)
    (hi : f.isInitializer) (hc : S.named) : (st.read? f.closure "this").isSome := by
  obtain ⟨g, Δ, rfl, hg⟩ := h.bound hi
  exact h.closure.1.bound (S.clean_of_named hc) "this" (S.sure_this hc g.opener) trivial hg

/-! ### The operations of a run -/

namespace StoreOk

variable (h : StoreOk S st)

include h

/-- Whatever leaves the values, fields and methods there are, and adds none, keeps a store right. -/
theorem of_extends (hx : st.Extends S.named st')
    (hvalues : ∀ e x v, st'.read? e x = some v → st.read? e x = some v ∨ ValueOk S st' v)
    (hfields : ∀ i x v, st'.field? i x = some v → st.field? i x = some v ∨ ValueOk S st' v)
    (hmethods : ∀ c cls, st'.class? c = some cls → st.class? c = some cls ∨
      ∀ (x : String) id, cls.methods[x]? = some id →
        ∃ f g Γ, st'.function? id = some f ∧ MethodOk S st' f g Γ)
    (hglobal : ∀ x, (st'.read? S.context.globals x).isSome →
      (st.read? S.context.globals x).isSome ∨ S.global x) : StoreOk S st' where
  values e x v hv := by
    rcases hvalues e x v hv with hv | hv
    · exact (h.values e x v hv).mono hx
    · exact hv
  fields i x v hv := by
    rcases hfields i x v hv with hv | hv
    · exact (h.fields i x v hv).mono hx
    · exact hv
  methods c cls x id hc hm := by
    rcases hmethods c cls hc with hc | hc
    · obtain ⟨f, g, Γ, hf, hok⟩ := h.methods c cls x id hc hm
      exact ⟨f, g, Γ, hx.functions id f hf, hok.mono hx⟩
    · exact hc x id hm
  globals_lt := Nat.lt_of_lt_of_le h.globals_lt hx.size
  root := (hx.enclosing _ h.globals_lt).trans h.root
  global x hb := by
    rcases hglobal x hb with hb | hb
    · exact h.global x hb
    · exact hb

theorem define {e : ScopeId} {x : String} {v : Value} (hv : ValueOk S (st.define e x v) v)
    (hg : e = S.context.globals → S.global x) (hx : S.named → x ≠ "super") :
    StoreOk S (st.define e x v) := by
  refine h.of_extends (.define st e v hx) (fun t y w hw => ?_) (fun _ _ _ hw => .inl hw)
    (fun _ _ hc => .inl hc) fun y hy => ?_
  · rw [Store.read?_define] at hw
    split at hw
    · cases hw
      exact .inr hv
    · exact .inl hw
  · rw [Store.read?_define] at hy
    split at hy
    · rename_i hc
      exact .inr (hc.2.1 ▸ hg hc.1.symm)
    · exact .inl hy

theorem newScope {scope : Scope}
    (hv : ∀ (x : String) v, scope.values[x]? = some v → ValueOk S st v) :
    StoreOk S (st.newScope scope).2 := by
  have hx : st.Extends S.named (st.newScope scope).2 := .newScope st scope
  have hne : S.context.globals ≠ (st.newScope scope).1 := fun he => by
    have := h.globals_lt
    rw [he] at this
    exact Nat.lt_irrefl _ this
  refine h.of_extends hx (fun t y w hw => ?_) (fun _ _ _ hw => .inl hw) (fun _ _ hc => .inl hc)
    fun y hy => ?_
  · rw [Store.read?_newScope] at hw
    split at hw
    · exact .inr ((hv y w hw).mono hx)
    · exact .inl hw
  · rw [Store.read?_newScope, if_neg hne] at hy
    exact .inl hy

theorem newFunction (f : FunctionObject) : StoreOk S (st.newFunction f).2 :=
  h.of_extends (.newFunction st f) (fun _ _ _ hw => .inl hw) (fun _ _ _ hw => .inl hw)
    (fun _ _ hc => .inl hc) fun _ hy => .inl hy

theorem newClass {c : ClassObject} (hc : ∀ (x : String) id, c.methods[x]? = some id →
      ∃ f g Γ, st.function? id = some f ∧ MethodOk S st f g Γ) :
    StoreOk S (st.newClass c).2 := by
  have hx : st.Extends S.named (st.newClass c).2 := .newClass st c
  refine h.of_extends hx (fun _ _ _ hw => .inl hw) (fun _ _ _ hw => .inl hw) (fun d cls hd => ?_)
    fun _ hy => .inl hy
  rw [Store.class?_newClass] at hd
  split at hd
  · cases hd
    refine .inr fun x id hm => ?_
    obtain ⟨f, g, Γ, hf, hok⟩ := hc x id hm
    exact ⟨f, g, Γ, hf, hok.mono hx⟩
  · exact .inl hd

theorem newInstance (c : ClassId) : StoreOk S (st.newInstance c).2 := by
  refine h.of_extends (.newInstance st c) (fun _ _ _ hw => .inl hw) (fun j x v hv => ?_)
    (fun _ _ hc => .inl hc) fun _ hy => .inl hy
  rw [Store.field?_newInstance] at hv
  split at hv
  · cases hv
  · exact .inl hv

theorem setField {i : InstanceId} {x : String} {v : Value} (hv : ValueOk S st v) :
    StoreOk S (st.setField i x v) := by
  have hx : st.Extends S.named (st.setField i x v) := .setField st i x v
  refine h.of_extends hx (fun _ _ _ hw => .inl hw) (fun j y w hw => ?_) (fun _ _ hc => .inl hc)
    fun _ hy => .inl hy
  rw [Store.field?_setField] at hw
  split at hw
  · cases hw
    exact .inr (hv.mono hx)
  · exact .inl hw

/-! ### Methods that are found -/

theorem findMethodWithin? {x : String} {id : FunctionId} : ∀ {n : Nat} {c : ClassId},
    st.findMethodWithin? x n c = some id →
      ∃ f g Γ, st.function? id = some f ∧ MethodOk S st f g Γ := by
  intro n
  induction n with
  | zero => intro c hf; cases hf
  | succ n ih =>
    intro c hf
    rw [Store.findMethodWithin?] at hf
    split at hf
    · cases hf
    · rename_i cls hc
      split at hf
      · rename_i id' _ hm
        cases hf
        exact h.methods c cls x id hc hm
      · cases hf
      · exact ih hf

theorem method? {c : ClassId} {x : String} {f : FunctionObject} (hf : st.method? c x = some f) :
    ∃ g Γ, MethodOk S st f g Γ := by
  obtain ⟨id, hid, hf⟩ := Option.bind_eq_some_iff.1 hf
  obtain ⟨f', g, Γ, hf', hok⟩ := h.findMethodWithin? hid
  rw [hf] at hf'
  cases hf'
  exact ⟨g, Γ, hok⟩

theorem member? {i : InstanceId} {x : String} {f : FunctionObject}
    (hf : st.member? i x = some (.method f)) : ∃ g Γ, MethodOk S st f g Γ := by
  unfold Store.member? at hf
  split at hf
  · cases hf
  · obtain ⟨f', hf', he⟩ := Option.map_eq_some_iff.1 hf
    cases he
    obtain ⟨object, -, hm⟩ := Option.bind_eq_some_iff.1 hf'
    exact h.method? hm

end StoreOk

/-! ### Scopes for a frame -/

/-- A new scope stands for a frame around the nesting that its enclosing scope mirrors. -/
theorem StoreOk.mirrors_newScope {f : Frame} {Γ : Nesting} {e : ScopeId} {N : String → Prop}
    (h : StoreOk S st) (scope : Scope) (hm : Mirrors S N st Γ e)
    (he : scope.enclosing = some e)
    (ho : ∃ w, S.opened (st.newScope scope).1 w ∧ f.opener.OpenedBy w)
    (hb : S.clean → ∀ x, N x → f.ready? x = some true → (scope.values[x]?).isSome)
    (hc : S.named → ∀ id, f.opener = .super id → ∃ c, scope.values["super"]? = some (.cls c)) :
    Mirrors S N (st.newScope scope).2 (f :: Γ) (st.newScope scope).1 := by
  refine ⟨⟨?_, ho, fun hcl x _ hN hr => ?_, fun hcl id hid => ?_⟩, e, ?_,
    hm.mono (.newScope st scope)⟩
  · intro he
    have := h.globals_lt
    rw [← he] at this
    exact Nat.lt_irrefl _ this
  · rw [Store.read?_newScope, if_pos rfl]
    exact hb hcl x hN hr
  · obtain ⟨c, hc⟩ := hc hcl id hid
    exact ⟨c, by rw [Store.read?_newScope, if_pos rfl, hc]⟩
  · rw [Store.enclosing?_newScope, if_pos rfl, he]

end Lox
