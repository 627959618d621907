import Lox.Proofs.Lexical.Changes
import Lox.Proofs.Run.Declare

/-!
# Variables, in scopes and in maps

A name is read and written at the location its map has for it, which is the one that the name has in
the scope its distance leads to.  A declaration gives the name a location in the current scope, which
by the static rules does not have it yet.
-/

namespace Lox

theorem Action.bind_of_ok {σ α β : Type} {x : Action σ α} {s s' : σ} {a : α} (h : x s = .ok a s')
    (k : α → Action σ β) : (x >>= k) s = k a s' := by
  rw [bind_apply, h]

namespace Store

variable {st : Store} {e a : ScopeId} {x : String}

theorem get?_of_root (he : st.enclosing? e = none) : st.get? e x = st.read? e x := by
  rw [get?, owner?_of_root he]
  unfold binds
  cases h : st.read? e x with
  | none => rfl
  | some v => exact h

end Store

namespace Lexical

variable {S : Setting} {P : ScopeId → Prop} {M : String → Prop} {μ : Links} {s : RunState}
  {l : State} {Γ : Nesting} {e : ScopeId} {ρ : Env} {x : String} {id : NodeId} {name : Token}
  {v : Value}

/-! ### Reading and writing -/

/-- In a strict setting a safe read of a local succeeds. -/
theorem exists_of_safe {α : Type} {Q : α → Store → Prop} {r : Except ScopeFault α} (hc : S.strict)
    (h : Safe S s Q (Run.ofScope r s)) : ∃ a, r = .ok a := by
  cases r with
  | ok a => exact ⟨a, rfl⟩
  | error fault =>
    obtain ⟨x, d, o, -, hx⟩ := h.2.found (S.named_of_strict hc) fault rfl
    exact absurd (S.sure_of_strict hc o x) hx

/-- A local name is read at its location. -/
theorem SameNames.read (hn : SameNames μ M s.store Γ e ρ) (h : Simulates S μ s l) (hM : M x) {d : Nat}
    (hd : Γ.distance? x = some d) (hv : s.store.getAt e d x = .ok v) :
    ∃ ℓ, ρ.find? x = some ℓ ∧ Eval.read x ℓ l = .ok v l := by
  obtain ⟨a, ℓ, ha, hl, hf⟩ := hn.found x d hM hd
  exact ⟨ℓ, hf, h.read hl (Store.read?_of_getAt ha hv)⟩

theorem readGlobal_eq (h : Simulates S μ s l) (hs : StoreOk S s.store) (name : Token) :
    Eval.readGlobal name l = match s.store.get? S.context.globals name.lexeme with
      | some v => .ok v l
      | none => Action.fail .undefinedVariable name l := by
  rw [Store.get?_of_root hs.root, h.vars.read?_globals]
  rfl

theorem lookUp_matches (hc : S.strict) (h : Simulates S μ s l) (hs : StoreOk S s.store)
    (hn : SameNames μ M s.store Γ s.scope ρ) (hM : M name.lexeme)
    (ht : S.context.table[id]? = Γ.distance? name.lexeme) {Q : Value → Store → Prop}
    (hsafe : Safe S s Q (Run.lookUp S.context id name s)) :
    Matches S μ (Same P μ) (Run.lookUp S.context id name s) (Eval.lookUp ρ name l) := by
  cases hd : Γ.distance? name.lexeme with
  | some d =>
    rw [Run.lookUp_of_local (ht.trans hd)] at hsafe ⊢
    obtain ⟨v, hv⟩ := exists_of_safe (r := s.store.getAt s.scope d name.lexeme) hc hsafe
    obtain ⟨ℓ, hf, hread⟩ := hn.read h hM hd hv
    rw [Eval.lookUp, hf, hv]
    show Matches S μ _ _ (Eval.read name.lexeme ℓ l)
    rw [hread]
    exact .same h
  | none =>
    rw [Eval.lookUp, hn.absent _ hM hd]
    show Matches S μ _ _ (Eval.readGlobal name l)
    rw [readGlobal_eq h hs]
    cases hv : s.store.get? S.context.globals name.lexeme with
    | some v =>
      rw [Run.lookUp_of_global (ht.trans hd) hv]
      exact .same h
    | none =>
      rw [Run.lookUp_of_undefined (ht.trans hd) hv]
      exact .raised h _

theorem assign_matches (h : Simulates S μ s l) (hs : StoreOk S s.store)
    (hn : SameNames μ M s.store Γ s.scope ρ) (hM : M name.lexeme)
    (ht : S.context.table[id]? = Γ.distance? name.lexeme) (hx : S.named → name.lexeme ≠ "super") :
    Matches S μ (Same P μ) (Run.assign S.context id name v s) (Eval.assign ρ name v l) := by
  unfold Run.assign
  rw [Action.bind_apply]
  cases hd : Γ.distance? name.lexeme with
  | some d =>
    obtain ⟨a, ℓ, ha, hl, hf⟩ := hn.found _ d hM hd
    have hscope : s.store.scopeAt s.scope d = .ok a := by
      simp only [Store.scopeAt, Int.toNat_natCast, ha]
    rw [Run.assignedScope_of_local (ht.trans hd), hscope, Eval.assign, hf]
    exact .same (h.define_local hl hx v)
  | none =>
    have howner := Store.owner?_of_root (x := name.lexeme) hs.root
    rw [Eval.assign, hn.absent _ hM hd]
    show Matches S μ _ _ ((Eval.readGlobal name >>= _) l)
    rw [Action.bind_apply (Eval.readGlobal name), readGlobal_eq h hs, Store.get?_of_root hs.root]
    unfold Store.binds at howner
    cases hw : s.store.read? S.context.globals name.lexeme with
    | some w =>
      rw [hw] at howner
      rw [Run.assignedScope_of_global (ht.trans hd) howner]
      exact .same (h.define_global hx v)
    | none =>
      rw [hw] at howner
      rw [Run.assignedScope_of_undefined (ht.trans hd) howner]
      exact .raised h _

/-! ### Declaring -/

/-- A declared name has a location from here on. -/
theorem Simulates.declareName {N : String → Prop} (h : Simulates S μ s l) (hs : StoreOk S s.store)
    (hm : Mirrors S N s.store Γ e) (hn : SameScope μ s.store Γ e ρ) (hfresh : Γ.hasHere x = false) :
    ∃ μ' ρ' l', Eval.declare ρ x l = .ok ρ' l' ∧ μ.Grows μ' ∧
      μ.SameOn (inStoreBut s.store e) μ' ∧ Simulates S μ' s l' ∧
      SameScope μ' s.store (Γ.mark x false) e ρ' := by
  cases Γ with
  | nil =>
    obtain rfl := hn.names.top.2 rfl
    exact ⟨μ, .top, l, rfl, .refl μ, .refl _ μ, h, hn⟩
  | cons f Γ =>
    cases ρ with
    | top => exact absurd (hn.names.top.1 rfl) (by simp)
    | inner names =>
      have hnone : μ e x = none := by
        by_contra hl
        have := hn.here x (Option.isSome_iff_ne_none.2 hl)
        rw [hfresh] at this
        cases this
      refine ⟨_, _, _, rfl, .add hnone _, fun e' he' => ?_, h.declare hm.1.ne_globals (Mirrors.lt hs hm) hnone,
        hn.names.declare hnone fun y hy => .inl hy, fun y hl => ?_⟩
      · funext y
        exact if_neg fun hey => he'.2 hey.1
      · show (f.mark x false).has y = true
        rw [Frame.has_mark]
        by_cases hy : y = x
        · simp [hy]
        · have hadd : μ.add e x ⟨l.cells.size⟩ e y = μ e y := if_neg fun hey => hy hey.2
          rw [hadd] at hl
          simp [show f.has y = true from hn.here y hl]

/-- What was declared is defined where it has its location. -/
theorem Simulates.defineName (h : Simulates S μ s l) (hn : SameScope μ s.store (Γ.mark x false) e ρ)
    (hg : Γ = [] → e = S.context.globals) (hx : S.named → x ≠ "super") (v : Value) :
    ∃ l', Eval.define ρ x v l = .ok () l' ∧
      Simulates S μ { s with store := s.store.define e x v } l' := by
  cases Γ with
  | nil =>
    obtain rfl := hg rfl
    have hf : ρ.find? x = none := hn.names.absent x trivial rfl
    refine ⟨_, ?_, h.define_global hx v⟩
    rw [Eval.define, hf]
    rfl
  | cons f Γ =>
    have hd : (Nesting.mark (f :: Γ) x false).distance? x = some 0 := by
      rw [Nesting.distance?_mark, if_pos rfl]
    obtain ⟨a, ℓ, ha, hl, hf⟩ := hn.names.found x 0 trivial hd
    cases ha
    refine ⟨_, ?_, h.define_local hl hx v⟩
    rw [Eval.define, hf]
    rfl

/-- A name that is ready is declared as before. -/
theorem SameScope.ready {st : Store} (h : SameScope μ st (Γ.mark x false) e ρ) :
    SameScope μ st (Γ.declareReady x) e ρ := by
  have hhas : ∀ y, (Γ.mark x false).hasHere y → (Γ.declareReady x).hasHere y := fun y => by
    cases Γ with
    | nil => exact id
    | cons f Γ =>
      show (f.mark x false).has y = true → ((f.mark x false).mark x true).has y = true
      intro hy
      rw [Frame.has_mark, hy, Bool.or_true]
  refine ⟨h.names.congr ?_ fun y hy => ⟨hy, ?_⟩, fun y hl => hhas y (h.here y hl)⟩
  · cases Γ <;> simp [Nesting.declareReady, Nesting.mark]
  · cases Γ with
    | nil => rfl
    | cons f Γ =>
      rw [Nesting.declareReady, Nesting.distance?_mark_of_has (Nesting.hasHere_mark_self x false)]

end Lexical

end Lox
