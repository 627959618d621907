import Lox.Proofs.Run.Objects

/-!
# Declarations at run time

After a declaration the current scope mirrors the nesting in which the name is ready, and the
functions and methods that were declared close over scopes that mirror theirs.
-/

namespace Lox

variable {S : Setting} {s : RunState} {Γ : Nesting}

/-- The names in the globals are those of declarations outside of all scopes. -/
theorem Mirrors.global_of_eq {N : String → Prop} {st : Store} {e : ScopeId}
    (h : Mirrors S N st Γ e) (he : e = S.context.globals) : Γ = [] := by
  cases Γ with
  | nil => rfl
  | cons f Γ => exact absurd he h.1.ne_globals

/-- A binding that was just made. -/
theorem isSome_read?_define {st : Store} {e : ScopeId} (he : e.index < st.scopes.size) (x : String)
    (v : Value) : ((st.define e x v).read? e x).isSome := by
  rw [Store.read?_define, if_pos ⟨rfl, rfl, Store.scope?_isSome_of_lt he⟩]
  rfl

/-- The scope of a chain is one of the store. -/
theorem Mirrors.lt {N : String → Prop} {st : Store} {e : ScopeId} (hs : StoreOk S st)
    (h : Mirrors S N st Γ e) : e.index < st.scopes.size := by
  cases Γ with
  | nil =>
    obtain rfl : e = S.context.globals := h
    exact hs.globals_lt
  | cons f Γ =>
    obtain ⟨-, e', he, -⟩ := h
    exact Store.lt_of_enclosing? he

/-- Once a name is bound in the current scope it is ready there. -/
theorem Mirrors.define {st : Store} {e : ScopeId} (hs : StoreOk S st)
    (h : Mirrors S anyName st Γ e) {x : String} (v : Value) (hx : S.named → x ≠ "super") :
    Mirrors S anyName (st.define e x v) (Γ.declareReady x) e :=
  (h.mono (.define st e v hx)).declareReady fun _ => isSome_read?_define (h.lt hs) x v

/-- A variable, after its initializer. -/
theorem defineVariable_safe {x : String} {v : Value} (hs : StoreOk S s.store)
    (hm : Mirrors S anyName s.store (Γ.mark x false) s.scope) (hv : ValueOk S s.store v)
    (hg : s.scope = S.context.globals → S.global x) (hx : S.named → x ≠ "super") :
    Safe S s (fun _ st => Mirrors S anyName st (Γ.declareReady x) s.scope) (Run.define x v s) := by
  have hgrows := Store.Extends.define s.store s.scope v hx
  refine (define_safe hs (hv.mono hgrows) hg hx).mono fun _ st hst => ?_
  subst hst
  exact (hm.mono hgrows).mark_true fun _ => isSome_read?_define (hm.lt hs) x v

/-- A function closes over the current scope, where its own name is ready. -/
theorem declareFunction_safe {f : FunctionDecl} (hs : StoreOk S s.store)
    (hm : Mirrors S anyName s.store Γ s.scope) (hf : S.declared (Γ.declareReady f.name.lexeme) f)
    (hg : s.scope = S.context.globals → S.global f.name.lexeme)
    (hx : S.named → f.name.lexeme ≠ "super") :
    Safe S s (fun _ st => Mirrors S anyName st (Γ.declareReady f.name.lexeme) s.scope)
      ((do
        let id ← Run.closeOver s.scope false f
        Run.define f.name.lexeme (.function id) : Run Unit) s) := by
  unfold Run.closeOver
  rw [Run.alloc_bind]
  have hgrows : s.store.Extends S.named (s.store.newFunction ⟨f, s.scope, false⟩).2 :=
    .newFunction _ _
  have hs₁ : StoreOk S (s.store.newFunction ⟨f, s.scope, false⟩).2 := hs.newFunction _
  have hm₁ := hm.mono hgrows
  have hready := hm₁.define hs₁ (.function (s.store.newFunction ⟨f, s.scope, false⟩).1) hx
  refine Safe.later (.of_store hs₁ hgrows) ?_
  refine (define_safe (s := { s with store := (s.store.newFunction ⟨f, s.scope, false⟩).2 })
    hs₁ ?_ hg hx).mono fun _ st hst => ?_
  · -- the function is fine only now that its own name is bound
    refine ⟨fun id hid => ?_, by simp⟩
    cases hid
    refine ⟨⟨f, s.scope, false⟩, Γ.declareReady f.name.lexeme, ?_, hf, hready, fun hi => ?_⟩
    swap
    · cases hi
    exact (Store.function?_newFunction ..).trans (if_pos rfl)
  · subst hst
    exact hready

/-- The methods of a class, in the scope around that of `this`. -/
theorem methodTable_safe {g : Frame} {e : ScopeId} {Δ : Nesting} :
    ∀ (fs : List FunctionDecl) (table : Std.ExtTreeMap String FunctionId) {s : RunState},
      StoreOk S s.store → Mirrors S anyName s.store Δ e → g.marks = [("this", true)] →
      (∀ f ∈ fs, S.declared (g :: Δ) f ∧
        ∃ id methods b, g.opener = .this id methods b ∧ f.id ∈ methods) →
      (∀ (x : String) id, table[x]? = some id →
        ∃ f g Γ, s.store.function? id = some f ∧ MethodOk S s.store f g Γ) →
      Safe S s (fun (table : Std.ExtTreeMap String FunctionId) st =>
        ∀ (x : String) id, table[x]? = some id →
          ∃ f g Γ, st.function? id = some f ∧ MethodOk S st f g Γ) (Run.methodTable e table fs s)
  | [], table, s, hs, _, _, _, htable => .ok hs htable
  | f :: fs, table, s, hs, hm, hmarks, hfs, htable => by
    let object : FunctionObject := ⟨f, e, f.name.lexeme = FunctionDecl.initializerName⟩
    have hgrows : s.store.Extends S.named (s.store.newFunction object).2 := .newFunction _ _
    have hs₁ : StoreOk S (s.store.newFunction object).2 := hs.newFunction object
    obtain ⟨⟨hdecl, hop⟩, hfs⟩ := List.forall_mem_cons.1 hfs
    have hok : MethodOk S s.store object g Δ := ⟨hdecl, hop, hmarks, hm⟩
    rw [Run.methodTable, Run.closeOver]
    show Safe S s _ ((Run.alloc _ >>= _) s)
    rw [Run.alloc_bind]
    refine Safe.later (.of_store hs₁ hgrows) ?_
    refine methodTable_safe fs _ hs₁ (hm.mono hgrows) hmarks hfs fun x id hx => ?_
    rw [Std.ExtTreeMap.getElem?_insert] at hx
    split at hx
    · cases hx
      exact ⟨object, g, Δ, (Store.function?_newFunction ..).trans (if_pos rfl), hok.mono hgrows⟩
    · obtain ⟨f', g', Γ', hf', hok'⟩ := htable x id hx
      exact ⟨f', g', Γ', hgrows.functions id f' hf', hok'.mono hgrows⟩

/-- The methods of a class, and then the class. -/
theorem declareMethods_safe {name : Token} {superclass : Option ClassId}
    {methods : List FunctionDecl} {g : Frame} {Δ : Nesting} {e : ScopeId} (hs : StoreOk S s.store)
    (hm : Mirrors S anyName s.store Γ s.scope) (he : Mirrors S anyName s.store Δ e)
    (hmarks : g.marks = [("this", true)])
    (hfs : ∀ f ∈ methods, S.declared (g :: Δ) f ∧
      ∃ id methods b, g.opener = .this id methods b ∧ f.id ∈ methods)
    (hx : S.named → name.lexeme ≠ "super") :
    Safe S s (fun _ st => Mirrors S anyName st Γ s.scope)
      (Run.declareMethods name superclass methods s.scope e s) := by
  have htable := methodTable_safe methods ∅ hs he hmarks hfs (by simp)
  refine htable.bind fun table s₁ _ hl₁ htable => ?_
  rw [Run.alloc_bind]
  have hs₂ : StoreOk S (s₁.store.newClass ⟨name.lexeme, superclass, table⟩).2 :=
    hl₁.store.newClass htable
  have hgrows : s₁.store.Extends S.named
      (s₁.store.newClass ⟨name.lexeme, superclass, table⟩).2 := .newClass _ _
  refine Safe.later (.of_store hs₂ hgrows) ?_
  rw [Run.ask_bind]
  have hm₂ := (hl₁.mirrors hm).mono hgrows
  rw [hl₁.scope] at hm₂
  cases ho : (s₁.store.newClass ⟨name.lexeme, superclass, table⟩).2.owner? s.scope name.lexeme with
  | none => exact .error hs₂
  | some owner =>
    have hgrows' := Store.Extends.define (s₁.store.newClass ⟨name.lexeme, superclass, table⟩).2 owner
      (Value.cls (s₁.store.newClass ⟨name.lexeme, superclass, table⟩).1) hx
    refine ⟨.of_store (hs₂.define (.of_ne (by simp) (by simp)) (fun hg => ?_) hx) hgrows', hm₂.mono hgrows'⟩
    exact hs₂.global _ (hg ▸ Store.isSome_of_owner? ho)

/-- A class: its name is bound before the methods close over the scope. -/
theorem declareClass_safe (id : NodeId) (name : Token) (ref? : Option VarRef)
    (superclass : Option ClassId) (methods : List FunctionDecl) (hs : StoreOk S s.store)
    (hm : Mirrors S anyName s.store Γ s.scope) (hsome : ref?.isSome = superclass.isSome)
    (hmethods : ∀ f ∈ methods, S.declared (Γ.inMethods id name ref? methods) f)
    (hg : s.scope = S.context.globals → S.global name.lexeme)
    (hx : S.named → name.lexeme ≠ "super")
    (ho : ∀ c scope s', superclass = some c →
      Run.alloc (·.newScope { enclosing := some s.scope, values := {("super", .cls c)} })
        { s with store := s.store.define s.scope name.lexeme .nil } = .ok scope s' →
      S.opened scope (.super id)) :
    Safe S s (fun _ st => Mirrors S anyName st (Γ.declareReady name.lexeme) s.scope)
      (Run.declareClass name superclass methods s) := by
  have hs₁ : StoreOk S (s.store.define s.scope name.lexeme .nil) :=
    hs.define (.of_ne (by simp) (by simp)) hg hx
  have hgrows := Store.Extends.define s.store s.scope .nil hx
  have hm₁ := hm.define hs .nil hx
  have hmem : ∀ b f, f ∈ methods → ∃ id' methods' b',
      (Frame.ofThis id methods b).opener = .this id' methods' b' ∧ f.id ∈ methods' :=
    fun b f hf => ⟨_, _, _, rfl, List.mem_map_of_mem hf⟩
  unfold Run.declareClass
  rw [Run.define_bind, Run.currentScope_bind]
  refine Safe.later (.of_store hs₁ hgrows) ?_
  cases superclass with
  | none =>
    cases ref? with
    | some ref => cases hsome
    | none =>
      exact declareMethods_safe (s := { s with store := s.store.define s.scope name.lexeme .nil })
        hs₁ hm₁ hm₁ rfl (fun f hf => ⟨hmethods f hf, hmem false f hf⟩) hx
  | some c =>
    cases ref? with
    | none => cases hsome
    | some ref =>
      show Safe S _ _ ((Run.alloc _ >>= _) _)
      rw [Run.alloc_bind]
      have hvalues : ({("super", .cls c)} : Bindings) =
        (∅ : Bindings).insert "super" (.cls c) := rfl
      have hread : ∀ (x : String) (v : Value),
          ({("super", .cls c)} : Bindings)[x]? = some v → v = .cls c := by
        intro x v hv
        rw [hvalues, Std.ExtTreeMap.getElem?_insert] at hv
        split at hv
        · cases hv
          rfl
        · simp at hv
      have hs₂ : StoreOk S ((s.store.define s.scope name.lexeme .nil).newScope
          { enclosing := some s.scope, values := {("super", .cls c)} }).2 :=
        hs₁.newScope fun x v hv => by
          rw [hread x v hv]
          exact .of_ne (by simp) (by simp)
      have hm₂ := hs₁.mirrors_newScope
        { enclosing := some s.scope, values := {("super", .cls c)} }
        (f := Frame.ofSuper id) (N := anyName) hm₁ rfl ⟨_, ho c _ _ rfl rfl, rfl⟩ ?_ ?_
      · refine Safe.later (.of_store hs₂ (.newScope _ _)) ?_
        exact declareMethods_safe
          (s := { s with store := ((s.store.define s.scope name.lexeme .nil).newScope
            { enclosing := some s.scope, values := {("super", .cls c)} }).2 })
          hs₂ (hm₁.mono (.newScope _ _)) hm₂ rfl
          (fun f hf => ⟨hmethods f hf, hmem true f hf⟩) hx
      · intro _ x _ hr
        rw [Frame.ofSuper, Frame.ready?_singleton] at hr
        split at hr
        · rename_i hx
          rw [hvalues, hx]
          simp
        · cases hr
      · intro _ _ _
        exact ⟨c, by rw [hvalues]; simp⟩

end Lox
