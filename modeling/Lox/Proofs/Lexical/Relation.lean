import Lox.Proofs.Lexical.Names

/-!
# Two states of one run

A state of the evaluator and one of the textbook semantics correspond (`Simulates`) if the objects
and values are the same, where the closure of a function is a scope on the one side and a map that
stands for it on the other, and if the cell of every linked name holds what the scope binds to it.
-/

namespace Lox.Lexical

variable (S : Setting)

def noName : String → Prop := fun _ => False

/-- A function or method closes over scopes that mirror its nesting; that of a method does not yet
have the scope with `this`.  The names of the scopes need not be bound: a function closes over its
scope before its own name is. -/
structure ClosureOk (st : Store) (f : FunctionObject) (Γ : Nesting) : Prop where
  declared : S.declared Γ f.declaration ∨ ∃ g, S.declared (g :: Γ) f.declaration
  closure : Mirrors S noName st Γ f.closure

/-- The same function: the map it captured stands for the scopes it closes over. -/
structure SameFunction (μ : Links) (st : Store) (captured : Array Env) (f f' : FunctionObject) :
    Prop where
  declaration : f'.declaration = f.declaration
  isInitializer : f'.isInitializer = f.isInitializer
  names : ∃ ρ Γ, captured[f'.closure.index]? = some ρ ∧ ClosureOk S st f Γ ∧
    SameNames μ anyName st Γ f.closure ρ

/-- The same objects, apart from the closures of the functions. -/
structure SameObjects (μ : Links) (st : Store) (l : State) : Prop where
  functions : ∀ id, Option.Rel (SameFunction S μ st l.captured) (st.function? id)
    (l.objects.function? id)
  size : l.objects.functions.size = st.functions.size
  natives : l.objects.natives = st.natives
  classes : l.objects.classes = st.classes
  instances : l.objects.instances = st.instances

/-- The same globals, and the same locals where there are links.  No two names share a location, and
every name that a local scope binds has one. -/
structure SameVariables (μ : Links) (st : Store) (l : State) : Prop where
  globals : (st.scope? S.context.globals).map (·.values) = some l.globals
  cells : ∀ e x ℓ, μ e x = some ℓ → l.cells[ℓ.index]? = some (st.read? e x)
  unique : ∀ e x e' x' ℓ, μ e x = some ℓ → μ e' x' = some ℓ → e = e' ∧ x = x'
  locals : ∀ e x ℓ, μ e x = some ℓ → e ≠ S.context.globals ∧ e.index < st.scopes.size
  bound : ∀ e x, e ≠ S.context.globals → (st.read? e x).isSome → (μ e x).isSome

/-- Two states that correspond. -/
structure Simulates (μ : Links) (s : RunState) (l : State) : Prop where
  objects : SameObjects S μ s.store l
  vars : SameVariables S μ s.store l
  depth : l.depth = s.depth
  printed : l.printed = s.printed

variable {S} {μ μ' : Links} {st st' : Store} {l l' : State} {Γ Δ : Nesting}
  {f f' : FunctionObject}

/-! ### Functions -/

/-- A function closes over one nesting only. -/
theorem ClosureOk.unique (h : ClosureOk S st f Γ) (h' : ClosureOk S st f Δ) : Γ = Δ := by
  have hlen := h.closure.length_eq h'.closure
  rcases h.declared with hΓ | ⟨g, hΓ⟩ <;> rcases h'.declared with hΔ | ⟨k, hΔ⟩
  · exact S.declared_unique hΓ hΔ
  · rw [S.declared_unique hΓ hΔ, List.length_cons] at hlen
    omega
  · rw [S.declared_unique hΔ hΓ, List.length_cons] at hlen
    omega
  · exact (List.cons.inj (S.declared_unique hΓ hΔ)).2

theorem ClosureOk.mono (h : ClosureOk S st f Γ) (hx : st.Extends S.named st') :
    ClosureOk S st' f Γ := ⟨h.declared, h.closure.mono hx⟩

theorem ClosureOk.of_function (h : FunctionOk S st f Γ) : ClosureOk S st f Γ :=
  ⟨.inl h.declared, h.closure.weaken fun _ h => h.elim⟩

theorem ClosureOk.of_method {g : Frame} (h : MethodOk S st f g Γ) : ClosureOk S st f Γ :=
  ⟨.inr ⟨g, h.declared⟩, h.closure.weaken fun _ h => h.elim⟩

/-- The map a function captured stands for its scopes at the one nesting it has. -/
theorem SameFunction.names_at {captured : Array Env} (h : SameFunction S μ st captured f f')
    (hc : ClosureOk S st f Γ) :
    ∃ ρ, captured[f'.closure.index]? = some ρ ∧ SameNames μ anyName st Γ f.closure ρ := by
  obtain ⟨ρ, Δ, hρ, hc', hn⟩ := h.names
  rw [hc.unique hc']
  exact ⟨ρ, hρ, hn⟩

/-- Captured maps stay where they are. -/
def Keeps (captured captured' : Array Env) : Prop :=
  ∀ (i : Nat) ρ, captured[i]? = some ρ → captured'[i]? = some ρ

theorem Keeps.refl (captured : Array Env) : Keeps captured captured := fun _ _ h => h

theorem Keeps.push (captured : Array Env) (ρ : Env) : Keeps captured (captured.push ρ) := by
  intro i ρ' h
  have hi := (Array.getElem?_eq_some_iff.1 h).1
  rw [Array.getElem?_push, if_neg (by omega)]
  exact h

theorem SameFunction.mono {captured captured' : Array Env} (h : SameFunction S μ st captured f f')
    (hx : st.Extends S.named st') (hg : μ.Grows μ') (hk : Keeps captured captured') :
    SameFunction S μ' st' captured' f f' := by
  obtain ⟨ρ, Γ, hρ, hc, hn⟩ := h.names
  exact ⟨h.declaration, h.isInitializer, ρ, Γ, hk _ _ hρ, hc.mono hx, hn.mono hx hg⟩

/-! ### Objects -/

namespace SameObjects

variable {α β : Type} {r q : α → β → Prop} {x : Option α} {y : Option β}

theorem rel_mono (hrq : ∀ a b, r a b → q a b) (h : Option.Rel r x y) : Option.Rel q x y := by
  cases h with
  | some h => exact .some (hrq _ _ h)
  | none => exact .none

theorem rel_cases (h : Option.Rel r x y) :
    (x = none ∧ y = none) ∨ ∃ a b, x = some a ∧ y = some b ∧ r a b := by
  cases h with
  | some h => exact .inr ⟨_, _, rfl, rfl, h⟩
  | none => exact .inl ⟨rfl, rfl⟩

/-- Objects stay the same while variables change. -/
theorem mono (h : SameObjects S μ st l) (hx : st.Extends S.named st') (hg : μ.Grows μ')
    (hk : Keeps l.captured l'.captured) (hf : st'.functions = st.functions)
    (hn : st'.natives = st.natives) (hc : st'.classes = st.classes)
    (hi : st'.instances = st.instances) (ho : l'.objects = l.objects) :
    SameObjects S μ' st' l' where
  functions id := by
    have := rel_mono (fun _ _ h => h.mono hx hg hk) (h.functions id)
    rw [ho]
    simpa only [Store.function?, hf] using this
  size := by rw [ho, hf, h.size]
  natives := by rw [ho, hn, h.natives]
  classes := by rw [ho, hc, h.classes]
  instances := by rw [ho, hi, h.instances]

theorem function? (h : SameObjects S μ st l) {id : FunctionId} (hf : st.function? id = some f) :
    ∃ f', l.objects.function? id = some f' ∧ SameFunction S μ st l.captured f f' := by
  rcases rel_cases (h.functions id) with ⟨hx, -⟩ | ⟨g, f', hx, hy, hr⟩
  · rw [hf] at hx
    cases hx
  · rw [hf] at hx
    cases hx
    exact ⟨f', hy, hr⟩

theorem class? (h : SameObjects S μ st l) (c : ClassId) : l.objects.class? c = st.class? c := by
  rw [Store.class?, h.classes]
  rfl

theorem instance? (h : SameObjects S μ st l) (i : InstanceId) :
    l.objects.instance? i = st.instance? i := by
  rw [Store.instance?, h.instances]
  rfl

theorem method? (h : SameObjects S μ st l) (c : ClassId) (x : String) :
    Option.Rel (SameFunction S μ st l.captured) (st.method? c x) (l.objects.method? c x) := by
  unfold Store.method? Store.findMethod?
  rw [h.classes, Store.findMethodWithin?_congr st l.objects h.class?]
  cases st.findMethodWithin? x st.classes.size c with
  | none => exact .none
  | some id => exact h.functions id

/-- What a property is found to be is the same on both sides. -/
inductive SameMember (S : Setting) (μ : Links) (st : Store) (captured : Array Env) :
    Store.Member → Store.Member → Prop
  | field (v : Value) : SameMember S μ st captured (.field v) (.field v)
  | method {f f' : FunctionObject} (h : SameFunction S μ st captured f f') :
      SameMember S μ st captured (.method f) (.method f')

theorem member? (h : SameObjects S μ st l) (i : InstanceId) (x : String) :
    Option.Rel (SameMember S μ st l.captured) (st.member? i x) (l.objects.member? i x) := by
  unfold Store.member? Store.field?
  rw [h.instance?]
  cases (st.instance? i).bind fun o => o.fields[x]? with
  | some v => exact .some (.field v)
  | none =>
    cases st.instance? i with
    | none => exact .none
    | some object =>
      show Option.Rel _ ((st.method? object.cls x).map Store.Member.method)
        ((l.objects.method? object.cls x).map Store.Member.method)
      rcases rel_cases (h.method? object.cls x) with ⟨hx, hy⟩ | ⟨f, f', hx, hy, hf⟩
      · rw [hx, hy]
        exact .none
      · rw [hx, hy]
        exact .some (.method hf)

/-- What a value that can be called stands for is the same on both sides. -/
inductive SameCallable (S : Setting) (μ : Links) (st : Store) (captured : Array Env) :
    Callable → Callable → Prop
  | function {f f' : FunctionObject} (h : SameFunction S μ st captured f f') :
      SameCallable S μ st captured (.function f) (.function f')
  | native (n : NativeFunction) : SameCallable S μ st captured (.native n) (.native n)
  | cls (c : ClassId) : SameCallable S μ st captured (.cls c) (.cls c)

theorem callable? (h : SameObjects S μ st l) (v : Value) :
    Option.Rel (SameCallable S μ st l.captured) (st.callable? v) (l.objects.callable? v) := by
  cases v with
  | function id =>
    simp only [Store.callable?]
    rcases rel_cases (h.functions id) with ⟨hx, hy⟩ | ⟨f, f', hx, hy, hf⟩
    · rw [hx, hy]
      exact .none
    · rw [hx, hy]
      exact .some (.function hf)
  | native id =>
    simp only [Store.callable?, Store.native?, h.natives]
    cases st.natives[id.index]? with
    | none => exact .none
    | some n => exact .some (.native n)
  | cls c =>
    simp only [Store.callable?, h.class?]
    cases st.class? c with
    | none => exact .none
    | some cls => exact .some (.cls c)
  | _ => exact .none

theorem arity (h : SameObjects S μ st l) {c c' : Callable}
    (hc : SameCallable S μ st l.captured c c') : l.objects.arity c' = st.arity c := by
  cases hc with
  | function hf => simp only [Store.arity, FunctionObject.arity, hf.declaration]
  | native n => rfl
  | cls c =>
    simp only [Store.arity, Store.initializer?]
    rcases rel_cases (h.method? c FunctionDecl.initializerName) with
      ⟨hx, hy⟩ | ⟨f, f', hx, hy, hf⟩
    · rw [hx, hy]
    · rw [hx, hy]
      simp only [FunctionObject.arity, hf.declaration]

/-- A value that is no scope is printed the same on both sides. -/
theorem display (h : SameObjects S μ st l) {v : Value} (hv : ∀ id, v ≠ .scope id) :
    l.objects.display v = st.display v := by
  have hclass : ∀ c, l.objects.className c = st.className c := fun c => by
    simp only [Store.className, h.class?]
  cases v with
  | scope id => exact absurd rfl (hv id)
  | function id =>
    simp only [Store.display]
    rcases rel_cases (h.functions id) with ⟨hx, hy⟩ | ⟨f, f', hx, hy, hf⟩
    · rw [hx, hy]
    · rw [hx, hy]
      simp only [FunctionObject.name, hf.declaration]
  | cls c => exact hclass c
  | inst i =>
    simp only [Store.display, h.instance?]
    cases st.instance? i with
    | none => rfl
    | some object => simp only [hclass]
  | bool b => cases b <;> rfl
  | _ => rfl

end SameObjects

/-! ### Variables -/

namespace SameVariables

theorem read?_globals (h : SameVariables S μ st l) (x : String) :
    st.read? S.context.globals x = l.globals[x]? := by
  obtain ⟨scope, hs, hv⟩ := Option.map_eq_some_iff.1 h.globals
  rw [Store.read?, hs, ← hv]
  rfl

/-- A name without a location is bound in no local scope. -/
theorem read?_eq_none (h : SameVariables S μ st l) {e : ScopeId} {x : String}
    (he : e ≠ S.context.globals) (hl : μ e x = none) : st.read? e x = none := by
  by_contra hn
  have := h.bound e x he (Option.isSome_iff_ne_none.2 hn)
  rw [hl] at this
  cases this

/-- Variables stay the same while objects change. -/
theorem of_scopes (h : SameVariables S μ st l) (hs : st'.scopes = st.scopes)
    (hc : l'.cells = l.cells) (hg : l'.globals = l.globals) : SameVariables S μ st' l' := by
  have hscope : ∀ e, st'.scope? e = st.scope? e := fun e => by rw [Store.scope?, hs]; rfl
  have hread : ∀ e x, st'.read? e x = st.read? e x := fun e x => by
    rw [Store.read?, hscope]
    rfl
  exact ⟨by rw [hscope, hg, h.globals], fun e x ℓ hl => by rw [hc, hread, h.cells e x ℓ hl],
    h.unique, fun e x ℓ hl => by rw [hs]; exact h.locals e x ℓ hl,
    fun e x he hb => h.bound e x he (hread e x ▸ hb)⟩

/-- A linked name gets a value. -/
theorem define {e : ScopeId} {x : String} {ℓ : Location} (h : SameVariables S μ st l)
    (hl : μ e x = some ℓ) (v : Value) (hc : l'.cells = l.cells.setIfInBounds ℓ.index (some v))
    (hg : l'.globals = l.globals) : SameVariables S μ (st.define e x v) l' where
  globals := by
    rw [Store.scope?_define, if_neg (h.locals e x ℓ hl).1.symm, hg, h.globals]
  cells e' x' ℓ' hl' := by
    have hcell := h.cells e' x' ℓ' hl'
    rw [hc, Array.getElem?_setIfInBounds]
    by_cases hℓ : ℓ.index = ℓ'.index
    · have hℓ : ℓ = ℓ' := by
        cases ℓ
        cases ℓ'
        exact congrArg Location.mk hℓ
      subst hℓ
      obtain ⟨rfl, rfl⟩ := h.unique e' x' e x ℓ hl' hl
      rw [if_pos rfl, if_pos (Array.getElem?_eq_some_iff.1 hcell).1, Store.read?_define,
        if_pos ⟨rfl, rfl, Store.scope?_isSome_of_lt (h.locals _ _ _ hl).2⟩]
    · rw [if_neg hℓ, hcell, Store.read?_define, if_neg]
      rintro ⟨rfl, rfl, -⟩
      rw [hl] at hl'
      cases hl'
      exact hℓ rfl
  unique := h.unique
  locals e' x' ℓ' hl' := by
    rw [Store.size_define]
    exact h.locals e' x' ℓ' hl'
  bound e' x' he hb := by
    rw [Store.read?_define] at hb
    split at hb
    · rename_i hc
      rw [hc.1, hc.2.1, hl]
      rfl
    · exact h.bound e' x' he hb

/-- A global gets a value. -/
theorem define_global {x : String} (h : SameVariables S μ st l) (v : Value)
    (hc : l'.cells = l.cells) (hg : l'.globals = l.globals.insert x v) :
    SameVariables S μ (st.define S.context.globals x v) l' := by
  have hread : ∀ e y, e ≠ S.context.globals →
      (st.define S.context.globals x v).read? e y = st.read? e y := fun e y he => by
    rw [Store.read?_define, if_neg fun hc => he hc.1]
  refine ⟨?_, fun e y ℓ hl => ?_, h.unique, fun e y ℓ hl => ?_, fun e y he hb => ?_⟩
  · obtain ⟨scope, hs, hv⟩ := Option.map_eq_some_iff.1 h.globals
    rw [Store.scope?_define, if_pos rfl, hs, hg, ← hv]
    rfl
  · rw [hc, hread e y (h.locals e y ℓ hl).1, h.cells e y ℓ hl]
  · rw [Store.size_define]
    exact h.locals e y ℓ hl
  · exact h.bound e y he (hread e y he ▸ hb)

/-- A name of a local scope gets a fresh location, and no value yet. -/
theorem declare {e : ScopeId} {x : String} (h : SameVariables S μ st l)
    (he : e ≠ S.context.globals) (hlt : e.index < st.scopes.size) (hl : μ e x = none)
    (hc : l'.cells = l.cells.push none) (hg : l'.globals = l.globals) :
    SameVariables S (μ.add e x ⟨l.cells.size⟩) st l' := by
  have hold : ∀ e' y ℓ, μ e' y = some ℓ → ℓ.index < l.cells.size := fun e' y ℓ hl =>
    (Array.getElem?_eq_some_iff.1 (h.cells e' y ℓ hl)).1
  refine ⟨by rw [hg, h.globals], fun e' y ℓ hadd => ?_, fun e₁ x₁ e₂ x₂ ℓ h₁ h₂ => ?_,
    fun e' y ℓ hadd => ?_, fun e' y he' hb => ?_⟩
  · unfold Links.add at hadd
    split at hadd
    · rename_i hey
      cases hadd
      rw [hey.1, hey.2, h.read?_eq_none he hl, hc]
      simp
    · rw [hc, Array.getElem?_push, if_neg (Nat.ne_of_lt (hold e' y ℓ hadd)), h.cells e' y ℓ hadd]
  · unfold Links.add at h₁ h₂
    split at h₁
    · rename_i hey₁
      cases h₁
      split at h₂
      · rename_i hey₂
        exact ⟨hey₁.1.trans hey₂.1.symm, hey₁.2.trans hey₂.2.symm⟩
      · exact absurd (hold e₂ x₂ _ h₂) (Nat.lt_irrefl _)
    · split at h₂
      · cases h₂
        exact absurd (hold e₁ x₁ _ h₁) (Nat.lt_irrefl _)
      · exact h.unique e₁ x₁ e₂ x₂ ℓ h₁ h₂
  · unfold Links.add at hadd
    split at hadd
    · rename_i hey
      rw [hey.1]
      exact ⟨he, hlt⟩
    · exact h.locals e' y ℓ hadd
  · unfold Links.add
    split
    · rfl
    · exact h.bound e' y he' hb

/-- A new scope, whose names have locations that were not there before. -/
theorem newScope {scope : Scope} {own : String → Option Location} (h : SameVariables S μ st l)
    (hgl : S.context.globals.index < st.scopes.size)
    (hold : ∀ i < l.cells.size, l'.cells[i]? = l.cells[i]?)
    (hown : ∀ x ℓ, own x = some ℓ →
      l.cells.size ≤ ℓ.index ∧ l'.cells[ℓ.index]? = some scope.values[x]?)
    (hinj : ∀ x y ℓ, own x = some ℓ → own y = some ℓ → x = y)
    (hvalues : ∀ x, (scope.values[x]?).isSome → (own x).isSome) (hg : l'.globals = l.globals) :
    SameVariables S (μ.addScope (st.newScope scope).1 own) (st.newScope scope).2 l' := by
  have hlt : ∀ e y ℓ, μ e y = some ℓ → ℓ.index < l.cells.size := fun e y ℓ hl =>
    (Array.getElem?_eq_some_iff.1 (h.cells e y ℓ hl)).1
  have hne : S.context.globals ≠ (st.newScope scope).1 := fun he => by
    rw [he] at hgl
    exact Nat.lt_irrefl _ hgl
  refine ⟨?_, fun e y ℓ hl => ?_, fun e₁ x₁ e₂ x₂ ℓ h₁ h₂ => ?_, fun e y ℓ hl => ?_,
    fun e y he hb => ?_⟩
  · rw [Store.scope?_newScope, if_neg hne, hg, h.globals]
  · unfold Links.addScope at hl
    rw [Store.read?_newScope]
    split at hl
    · rename_i he
      rw [if_pos he, (hown y ℓ hl).2]
    · rename_i he
      rw [if_neg he, hold _ (hlt e y ℓ hl), h.cells e y ℓ hl]
  · unfold Links.addScope at h₁ h₂
    split at h₁ <;> split at h₂
    · rename_i he₁ he₂
      exact ⟨he₁.trans he₂.symm, hinj x₁ x₂ ℓ h₁ h₂⟩
    · exact absurd (hown x₁ ℓ h₁).1 (Nat.not_le.2 (hlt e₂ x₂ ℓ h₂))
    · exact absurd (hown x₂ ℓ h₂).1 (Nat.not_le.2 (hlt e₁ x₁ ℓ h₁))
    · exact h.unique e₁ x₁ e₂ x₂ ℓ h₁ h₂
  · rw [Store.size_newScope]
    unfold Links.addScope at hl
    split at hl
    · rename_i he
      rw [he]
      exact ⟨hne.symm, Nat.lt_succ_self _⟩
    · exact ⟨(h.locals e y ℓ hl).1, Nat.lt_succ_of_lt (h.locals e y ℓ hl).2⟩
  · rw [Store.read?_newScope] at hb
    unfold Links.addScope
    split at hb
    · rename_i he'
      rw [if_pos he']
      exact hvalues y hb
    · rename_i he'
      rw [if_neg he']
      exact h.bound e y he hb

end SameVariables

end Lox.Lexical
