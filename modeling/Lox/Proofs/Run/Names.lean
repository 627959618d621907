import Lox.Proofs.Run.Equations
import Lox.Proofs.Run.Safe

/-!
# Names at run time

Reading and writing names is safe in a chain of scopes that mirrors the nesting of the node: the
distance that was recorded leads to a local scope, and where the programs are well-named to one that
binds a name that is ready, if it was sure to bind it.
-/

namespace Lox

/-! ### The functions of a store -/

namespace Store

/-- All functions there are have declarations that satisfy `P`. -/
def Functions (P : FunctionDecl → Prop) (st : Store) : Prop :=
  ∀ id f, st.function? id = some f → P f.declaration

namespace Functions

variable {P : FunctionDecl → Prop} {st : Store}

theorem newFunction (h : st.Functions P) {f : FunctionObject} (hf : P f.declaration) :
    (st.newFunction f).2.Functions P := by
  intro id g hg
  rw [function?_newFunction] at hg
  split at hg
  · cases hg
    exact hf
  · exact h id g hg

theorem method? (h : st.Functions P) {c : ClassId} {x : String} {f : FunctionObject}
    (hf : st.method? c x = some f) : P f.declaration := by
  obtain ⟨id, -, hid⟩ := Option.bind_eq_some_iff.1 hf
  exact h id f hid

theorem member? (h : st.Functions P) {i : InstanceId} {x : String} {f : FunctionObject}
    (hf : st.member? i x = some (.method f)) : P f.declaration := by
  unfold Store.member? at hf
  split at hf
  · cases hf
  · obtain ⟨g, hg, he⟩ := Option.map_eq_some_iff.1 hf
    cases he
    obtain ⟨object, -, hm⟩ := Option.bind_eq_some_iff.1 hg
    exact h.method? hm

theorem callable? (h : st.Functions P) {v : Value} {f : FunctionObject}
    (hf : st.callable? v = some (.function f)) : P f.declaration := by
  unfold Store.callable? at hf
  split at hf
  · rename_i id
    obtain ⟨g, hg, he⟩ := Option.map_eq_some_iff.1 hf
    cases he
    exact h id _ hg
  · simp at hf
  · simp at hf
  · cases hf

end Functions

end Store

/-! ### Variables -/

namespace Store

/-- A scope that owns a name binds it. -/
theorem isSome_of_owner? {st : Store} {e o : ScopeId} {x : String} (h : st.owner? e x = some o) :
    (st.read? o x).isSome := by
  have key : ∀ n e, st.ownerWithin? x n e = some o → (st.read? o x).isSome := by
    intro n
    induction n with
    | zero => intro e h; cases h
    | succ n ih =>
      intro e h
      rw [ownerWithin?] at h
      split at h
      · rename_i hb
        cases h
        exact hb
      · split at h
        · cases h
        · exact ih _ h
  exact key _ e h

theorem owner?_of_binds {st : Store} {e : ScopeId} {x : String} (h : st.binds e x) :
    st.owner? e x = some e := by
  obtain ⟨v, hv⟩ := Option.isSome_iff_exists.1 h
  obtain ⟨n, hn⟩ := Nat.exists_eq_succ_of_ne_zero (Nat.ne_of_gt (Nat.zero_lt_of_lt (lt_of_read? hv)))
  rw [owner?, hn, ownerWithin?, if_pos h]

/-- Outside of the outermost scope there is nothing to search. -/
theorem owner?_of_root {st : Store} {e : ScopeId} {x : String} (he : st.enclosing? e = none) :
    st.owner? e x = if st.binds e x then some e else none := by
  split
  · rename_i h
    exact owner?_of_binds h
  · rename_i h
    unfold owner?
    cases st.scopes.size with
    | zero => rfl
    | succ n => rw [ownerWithin?, if_neg h, he]

theorem read?_of_getAt {st : Store} {e a : ScopeId} {x : String} {d : Nat} {v : Value}
    (ha : st.ancestor? d e = some a) (h : st.getAt e d x = .ok v) : st.read? a x = some v := by
  simp only [getAt, scopeAt, Int.toNat_natCast, ha] at h
  split at h
  · rename_i hv
    rw [hv, Except.ok.inj h]
  · cases h

theorem getAt_of_read? {st : Store} {e a : ScopeId} {x : String} {d : Nat} {v : Value}
    (ha : st.ancestor? d e = some a) (h : st.read? a x = some v) : st.getAt e d x = .ok v := by
  simp only [getAt, scopeAt, Int.toNat_natCast, ha, h]

theorem get?_eq_some {st : Store} {e : ScopeId} {x : String} {v : Value}
    (h : st.get? e x = some v) : ∃ o, st.read? o x = some v := by
  obtain ⟨o, -, hv⟩ := Option.bind_eq_some_iff.1 h
  exact ⟨o, hv⟩

end Store

variable {S : Setting} {s : RunState} {Γ : Nesting} {N : String → Prop}

/-- A distance leads to the scope of its frame. -/
theorem Mirrors.scopeAt {d : Nat} {x : String} (hm : Mirrors S N s.store Γ s.scope)
    (hd : Γ.distance? x = some d) :
    ∃ f a, Γ[d]? = some f ∧ s.store.scopeAt s.scope d = .ok a ∧ Activation S N s.store f a := by
  obtain ⟨f, hf, -⟩ := Nesting.distance?_eq_some hd
  obtain ⟨a, ha, hact⟩ := hm.ancestor hf
  exact ⟨f, a, hf, by simp [Store.scopeAt, ha], hact⟩

/-- Reading a name at its distance. -/
theorem Mirrors.getAt {d : Nat} {x : String} (hs : StoreOk S s.store)
    (hm : Mirrors S N s.store Γ s.scope) (hd : Γ.distance? x = some d)
    (hready : S.named → N x ∧ ∃ f, Γ[d]? = some f ∧ f.ready? x = some true) :
    Safe S s (fun v st => ValueOk S st v) (Run.ofScope (s.store.getAt s.scope d x) s) := by
  obtain ⟨f, a, hf, ha, hact⟩ := hm.scopeAt hd
  cases hv : s.store.read? a x with
  | some v =>
    simp only [Store.getAt, ha, hv]
    exact .ok hs (hs.values a x v hv)
  | none =>
    simp only [Store.getAt, ha, hv]
    refine .raised hs (faultOk_of_unsure (o := f.opener) fun hc hsure => ?_)
    obtain ⟨hN, f', hf', hr⟩ := hready hc
    rw [hf] at hf'
    cases hf'
    have := hact.bound (S.clean_of_named hc) x hsure hN hr
    simp [hv] at this

/-- Reading the variable of a node. -/
theorem lookUp_safe {id : NodeId} {name : Token} (hs : StoreOk S s.store)
    (hm : Mirrors S N s.store Γ s.scope)
    (ht : ∀ d, S.context.table[id]? = some d → Γ.distance? name.lexeme = some d)
    (hready : S.named → ∀ d, S.context.table[id]? = some d →
      N name.lexeme ∧ ∃ f, Γ[d]? = some f ∧ f.ready? name.lexeme = some true) :
    Safe S s (fun v st => ValueOk S st v) (Run.lookUp S.context id name s) := by
  cases hd : S.context.table[id]? with
  | some d =>
    rw [Run.lookUp_of_local hd]
    exact hm.getAt hs (ht d hd) fun hc => hready hc d hd
  | none =>
    cases hv : s.store.get? S.context.globals name.lexeme with
    | some v =>
      obtain ⟨o, ho⟩ := Store.get?_eq_some hv
      rw [Run.lookUp_of_global hd hv]
      exact .ok hs (hs.values o _ v ho)
    | none =>
      rw [Run.lookUp_of_undefined hd hv]
      exact .error hs

/-- Writing the variable of a node. -/
theorem assign_safe (id : NodeId) (name : Token) {v : Value} (hs : StoreOk S s.store)
    (hm : Mirrors S N s.store Γ s.scope)
    (ht : ∀ d, S.context.table[id]? = some d → Γ.distance? name.lexeme = some d)
    (hname : S.named → name.lexeme ≠ "super") (hv : ValueOk S s.store v) :
    Safe S s (fun _ _ => True) (Run.assign S.context id name v s) := by
  have hdefine : ∀ a, (a = S.context.globals → S.global name.lexeme) →
      Safe S s (fun _ _ => True) (Run.modifyStore (·.define a name.lexeme v) s) := by
    intro a hg
    have hx := Store.Extends.define s.store a v hname
    exact ⟨.of_store (hs.define (hv.mono hx) hg hname) hx, trivial⟩
  unfold Run.assign
  rw [Action.bind_apply]
  cases hd : S.context.table[id]? with
  | some d =>
    obtain ⟨f, a, -, ha, hact⟩ := hm.scopeAt (ht d hd)
    rw [Run.assignedScope_of_local hd, ha]
    exact hdefine a fun h => absurd h hact.ne_globals
  | none =>
    cases ho : s.store.owner? S.context.globals name.lexeme with
    | some a =>
      rw [Run.assignedScope_of_global hd ho]
      exact hdefine a fun h => hs.global _ (h ▸ Store.isSome_of_owner? ho)
    | none =>
      rw [Run.assignedScope_of_undefined hd ho]
      exact .error hs

/-- Binding a name in the current scope. -/
theorem define_safe {x : String} {v : Value} (hs : StoreOk S s.store)
    (hv : ValueOk S (s.store.define s.scope x v) v)
    (hg : s.scope = S.context.globals → S.global x) (hx : S.named → x ≠ "super") :
    Safe S s (fun _ st => st = s.store.define s.scope x v) (Run.define x v s) :=
  ⟨.of_store (hs.define hv hg hx) (.define s.store s.scope v hx), rfl⟩

end Lox
