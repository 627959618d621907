import Lox.Proofs.Lexical.Methods

/-!
# Functions and classes that are declared

A function captures the map in force where it is declared, with its own name in it; the methods of a
class capture that map, or the one with `super` around them.  The evaluator looks for the scope that
has the name of a class when it binds the class to it: it is always the current one.
-/

namespace Lox.Lexical

variable {S : Setting} {μ : Links} {s : RunState} {l : State} {Γ Δ : Nesting} {e : ScopeId}
  {ρ ρ' : Env}

/-- A function or method that closes over a scope captures the map that stands for it. -/
theorem Simulates.closeOver (h : Simulates S μ s l) {f : FunctionDecl} (isInitializer : Bool)
    (hdecl : S.declared Γ f ∨ ∃ g, S.declared (g :: Γ) f) (hm : Mirrors S noName s.store Γ e)
    (hn : SameNames μ anyName s.store Γ e ρ) :
    ∃ l', Eval.closeOver ρ isInitializer f l =
        .ok (s.store.newFunction ⟨f, e, isInitializer⟩).1 l' ∧
      Simulates S μ { s with store := (s.store.newFunction ⟨f, e, isInitializer⟩).2 } l' := by
  have hr : SameFunction S μ s.store (l.captured.push ρ) ⟨f, e, isInitializer⟩
      ⟨f, ⟨l.captured.size⟩, isInitializer⟩ :=
    ⟨rfl, rfl, ρ, Γ, Array.getElem?_push_size, ⟨hdecl, hm⟩, hn⟩
  obtain ⟨hid, hsim⟩ := (h.capture ρ).newFunction hr
  exact ⟨_, congrArg (Outcome.ok · _) hid, hsim⟩

/-- The methods of a class get the same objects. -/
theorem Simulates.methodTable {g : Frame} :
    ∀ (fs : List FunctionDecl) (table : Std.ExtTreeMap String FunctionId) {s : RunState} {l : State},
      Simulates S μ s l → Mirrors S noName s.store Δ e → SameNames μ anyName s.store Δ e ρ →
      (∀ f ∈ fs, S.declared (g :: Δ) f) →
      ∃ table' s' l', Run.methodTable e table fs s = .ok table' s' ∧
        Eval.methodTable ρ table fs l = .ok table' l' ∧ Simulates S μ s' l' ∧
        s.store.Extends S.named s'.store ∧ s'.scope = s.scope
  | [], table, s, l, h, _, _, _ => ⟨table, s, l, rfl, rfl, h, .refl _, rfl⟩
  | f :: fs, table, s, l, h, hm, hn, hfs => by
    obtain ⟨hdecl, hfs⟩ := List.forall_mem_cons.1 hfs
    obtain ⟨l₁, hl₁, h₁⟩ := h.closeOver (f.name.lexeme = FunctionDecl.initializerName)
      (.inr ⟨g, hdecl⟩) hm hn
    have hx : s.store.Extends S.named _ :=
      .newFunction s.store ⟨f, e, f.name.lexeme = FunctionDecl.initializerName⟩
    obtain ⟨table', s₂, l₂, hs₂, hl₂, h₂, hx₂, hscope⟩ :=
      methodTable fs _ h₁ (hm.mono hx) (hn.mono hx (.refl μ)) hfs
    refine ⟨table', s₂, l₂, hs₂, ?_, h₂, hx.trans hx₂, hscope⟩
    rw [Eval.methodTable, Action.bind_of_ok hl₁]
    exact hl₂

/-- The part of a class declaration that comes when there is the scope of the methods. -/
theorem Simulates.declareMethods {name : Token} (superclass : Option ClassId)
    {methods : List FunctionDecl} {g : Frame} (h : Simulates S μ s l)
    (hm : Mirrors S noName s.store Δ e) (hn : SameNames μ anyName s.store Δ e ρ')
    (hfs : ∀ f ∈ methods, S.declared (g :: Δ) f)
    (hscope : SameScope μ s.store (Γ.mark name.lexeme false) s.scope ρ)
    (hg : Γ = [] → s.scope = S.context.globals) (hx : S.named → name.lexeme ≠ "super")
    (hbound : (s.store.read? s.scope name.lexeme).isSome) :
    ∃ s' l', Run.declareMethods name superclass methods s.scope e s = .ok () s' ∧
      (do
        let table ← Eval.methodTable ρ' ∅ methods
        let c ← Eval.alloc (·.newClass ⟨name.lexeme, superclass, table⟩)
        Eval.define ρ name.lexeme (.cls c)
        return ρ : Eval Env) l = .ok ρ l' ∧
      Simulates S μ s' l' ∧ SameScope μ s'.store (Γ.declareReady name.lexeme) s.scope ρ ∧
      s'.scope = s.scope := by
  obtain ⟨table, s₁, l₁, hs₁, hl₁, h₁, hx₁, he₁⟩ := h.methodTable methods ∅ hm hn hfs
  obtain ⟨hid, h₂⟩ := h₁.newClass ⟨name.lexeme, superclass, table⟩
  have hx₂ := hx₁.trans (.newClass s₁.store ⟨name.lexeme, superclass, table⟩)
  have howner := Store.owner?_of_binds (hx₂.bound _ _ hbound)
  obtain ⟨l₃, hl₃, h₃⟩ := h₂.defineName (hscope.later hx₂) hg hx
    (.cls (s₁.store.newClass ⟨name.lexeme, superclass, table⟩).1)
  refine ⟨_, l₃, ?_, ?_, h₃, ?_, he₁⟩
  · rw [Run.declareMethods, Action.bind_of_ok hs₁, Run.alloc_bind, Run.ask_bind, howner]
    rfl
  · rw [Action.bind_of_ok hl₁, Action.bind_of_ok (x := Eval.alloc _) rfl, hid, Action.bind_of_ok hl₃]
    rfl
  · exact hscope.ready.later (hx₂.trans (.define _ _ _ hx))

/-- The scope with `super` around the methods of a class. -/
theorem Simulates.enterSuper (id : NodeId) (c : ClassId) (h : Simulates S μ s l)
    (hs : StoreOk S s.store) (hn : SameNames μ anyName s.store Γ e ρ) :
    ∃ μ' ρ' l', Eval.bindName ρ.enter "super" (.cls c) l = .ok ρ' l' ∧ μ.Grows μ' ∧
      μ.SameOn (inStore s.store) μ' ∧
      Simulates S μ' { s with store :=
        (s.store.newScope { enclosing := some e, values := {("super", .cls c)} }).2 } l' ∧
      SameNames μ' anyName
        (s.store.newScope { enclosing := some e, values := {("super", .cls c)} }).2
        (Frame.ofSuper id :: Γ)
        (s.store.newScope { enclosing := some e, values := {("super", .cls c)} }).1 ρ' := by
  obtain ⟨μ', hg, hsame, hsim, hscope⟩ := h.enter (f := Frame.ofSuper id)
    { enclosing := some e, values := {("super", .cls c)} } hs.globals_lt
    ((Bound.enter ρ l.cells).insert "super" (.cls c)) hn rfl fun x =>
      (Frame.has_of_marks rfl x).trans (isSome_singleton "super" (.cls c) x).symm
  exact ⟨μ', _, _, rfl, hg, hsame, hsim, hscope.names⟩

/-- A class, whose superclass is known. -/
theorem Simulates.declareClass (id : NodeId) {name : Token} (ref? : Option VarRef)
    (superclass : Option ClassId) (methods : List FunctionDecl) (h : Simulates S μ s l)
    (hs : StoreOk S s.store) (hm : Mirrors S anyName s.store Γ s.scope)
    (hn : SameScope μ s.store Γ s.scope ρ) (hfresh : Γ.hasHere name.lexeme = false)
    (hsome : ref?.isSome = superclass.isSome)
    (hmethods : ∀ f ∈ methods, S.declared (Γ.inMethods id name ref? methods) f)
    (hg : s.scope = S.context.globals → S.global name.lexeme)
    (hx : S.named → name.lexeme ≠ "super")
    (ho : ∀ c, superclass = some c → S.opened ((s.store.define s.scope name.lexeme .nil).newScope
      { enclosing := some s.scope, values := {("super", .cls c)} }).1 (.super id)) :
    ∃ μ' ρ' s' l', Run.declareClass name superclass methods s = .ok () s' ∧
      Eval.declareClass ρ name superclass methods l = .ok ρ' l' ∧ μ.Grows μ' ∧
      μ.SameOn (inStoreBut s.store s.scope) μ' ∧ Simulates S μ' s' l' ∧
      SameScope μ' s'.store (Γ.declareReady name.lexeme) s.scope ρ' ∧ s'.scope = s.scope := by
  obtain ⟨μ₁, ρ₁, l₁, hl₁, hg₁, hsame₁, h₁, hn₁⟩ := h.declareName hs hm hn hfresh
  have hroot : Γ = [] → s.scope = S.context.globals := fun hΓ => by
    subst hΓ
    exact hm
  obtain ⟨l₂, hl₂, h₂⟩ := h₁.defineName hn₁ hroot hx .nil
  have hx₂ : s.store.Extends S.named (s.store.define s.scope name.lexeme .nil) :=
    .define _ _ _ hx
  have hs₂ : StoreOk S (s.store.define s.scope name.lexeme .nil) :=
    hs.define (.of_ne (by simp) (by simp)) hg hx
  have hn₂ := hn₁.later hx₂
  have hbound := isSome_read?_define (hm.lt hs) name.lexeme .nil
  have hm₂ : Mirrors S noName (s.store.define s.scope name.lexeme .nil)
      (Γ.declareReady name.lexeme) s.scope := (hm.mono hx₂).declareReady_unused fun _ h => h.elim
  unfold Run.declareClass Eval.declareClass
  rw [Run.define_bind, Run.currentScope_bind, Action.bind_of_ok hl₁, Action.bind_of_ok hl₂]
  cases superclass with
  | none =>
    cases ref? with
    | some ref => cases hsome
    | none =>
      obtain ⟨s', l', hs', hl', h', hn', he'⟩ := h₂.declareMethods none hm₂
        hn₂.ready.names hmethods hn₂ hroot hx hbound
      exact ⟨μ₁, ρ₁, s', l', hs', hl', hg₁, hsame₁, h', hn', he'⟩
  | some c =>
    cases ref? with
    | none => cases hsome
    | some ref =>
      obtain ⟨μ₃, ρ₃, l₃, hl₃, hg₃, hsame₃, h₃, hn₃⟩ :=
        h₂.enterSuper id c hs₂ hn₂.ready.names
      have hx₃ : (s.store.define s.scope name.lexeme .nil).Extends S.named _ :=
        .newScope _ { enclosing := some s.scope, values := {("super", .cls c)} }
      have hm₃ := hs₂.mirrors_newScope
        { enclosing := some s.scope, values := {("super", .cls c)} }
        (f := Frame.ofSuper id) hm₂ rfl ⟨_, ho c rfl, rfl⟩ (fun _ _ h => h.elim) fun _ _ _ =>
          ⟨c, Std.ExtTreeMap.getElem?_insert_self⟩
      have hscope := hn₂.mono hx₃ hg₃ hsame₃ ((hm₂.lt hs₂ : _ < _))
      obtain ⟨s', l', hs', hl', h', hn', he'⟩ := h₃.declareMethods (some c) hm₃ hn₃
        hmethods hscope hroot hx (hx₃.bound _ _ hbound)
      refine ⟨μ₃, ρ₁, s', l', hs', ?_, hg₁.trans hg₃, hsame₁.trans hsame₃ fun e he => ?_, h', hn', he'⟩
      · show ((Eval.bindName ρ₁.enter "super" (.cls c) >>= _) : Eval Env) l₂ = _
        rw [Action.bind_of_ok hl₃]
        exact hl'
      · exact Nat.lt_of_lt_of_le he.1 hx₂.size

end Lox.Lexical
