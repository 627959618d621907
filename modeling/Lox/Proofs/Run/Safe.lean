import Lox.Proofs.Run.Closures

/-!
# Safe runs

A run is safe if, however it ends, the store is right and comes later than the one it started from,
the scope and the call depth are what they were, its result is as claimed, and a fault is none that
the resolution is to blame for.  There is one rule for each way to build a run.
-/

namespace Lox

variable (S : Setting) {α β : Type}

/-- From one state of a run to a later one at the same scope and call depth. -/
structure Later (s s' : RunState) : Prop where
  store : StoreOk S s'.store
  grows : s.store.Extends S.named s'.store
  scope : s'.scope = s.scope
  depth : s'.depth = s.depth

/-- A read that finds nothing, of a name that was not sure to be bound. -/
def Setting.Misses (fault : Fault) : Prop :=
  ∃ x d o, fault = .scope (.unbound x d) ∧ ¬ S.sure o x

/-- A fault that may arise: where the programs are well-named, an error of the program, of an operator
or literal that cannot be evaluated, or a name that is missed; and in no case a distance that is too
long. -/
structure FaultOk (fault : Fault) : Prop where
  error : S.named → S.Evaluable → (∃ e, fault = .error e) ∨ S.Misses fault
  found : S.named → ∀ fault', fault = .scope fault' → S.Misses fault
  short : ∀ d, fault ≠ .scope (.walksPast d)

/-- What holds of the end of a run that started in `s`. -/
def Safe (s : RunState) (Q : α → Store → Prop) : Outcome RunState α → Prop
  | .ok a s' => Later S s s' ∧ Q a s'.store
  | .raised fault s' => Later S s s' ∧ FaultOk S fault
  | .outOfFuel => True

variable {S} {s s' s'' : RunState} {Q R : α → Store → Prop}

theorem Later.refl (h : StoreOk S s.store) : Later S s s := ⟨h, .refl _, rfl, rfl⟩

theorem Later.trans (h : Later S s s') (h' : Later S s' s'') : Later S s s'' :=
  ⟨h'.store, h.grows.trans h'.grows, h'.scope.trans h.scope, h'.depth.trans h.depth⟩

/-- A state with another store. -/
theorem Later.of_store {st : Store} (h : StoreOk S st) (hx : s.store.Extends S.named st) :
    Later S s { s with store := st } := ⟨h, hx, rfl, rfl⟩

theorem Later.mirrors {N : String → Prop} {Γ : Nesting} (h : Later S s s')
    (hm : Mirrors S N s.store Γ s.scope) : Mirrors S N s'.store Γ s'.scope := by
  rw [h.scope]
  exact hm.mono h.grows

theorem faultOk_error (e : RuntimeError) : FaultOk S (.error e) :=
  ⟨fun _ _ => .inl ⟨e, rfl⟩, fun _ => nofun, fun _ => nofun⟩

theorem faultOk_of_not_named {fault : Fault} (hc : ¬ S.named)
    (h : ∀ d, fault ≠ .scope (.walksPast d)) : FaultOk S fault :=
  ⟨fun hcl => absurd hcl hc, fun hcl => absurd hcl hc, h⟩

theorem faultOk_of_not_evaluable {fault : Fault} (he : ¬ S.Evaluable)
    (h : ∀ fault', fault ≠ .scope fault') : FaultOk S fault :=
  ⟨fun _ hev => absurd hev he, fun _ fault' hf => absurd hf (h fault'), fun _ => h _⟩

theorem faultOk_of_unsure {x : String} {d : Int} {o : Opener} (h : S.named → ¬ S.sure o x) :
    FaultOk S (.scope (.unbound x d)) :=
  ⟨fun hc _ => .inr ⟨x, d, o, rfl, h hc⟩, fun hc _ _ => ⟨x, d, o, rfl, h hc⟩, fun _ => nofun⟩

namespace Safe

theorem ok {a : α} (h : StoreOk S s.store) (hQ : Q a s.store) : Safe S s Q (.ok a s) :=
  ⟨.refl h, hQ⟩

theorem error {e : RuntimeError} (h : StoreOk S s.store) :
    Safe S s Q (.raised (.error e) s : Outcome RunState α) := ⟨.refl h, faultOk_error e⟩

theorem raised {fault : Fault} (h : StoreOk S s.store) (hf : FaultOk S fault) :
    Safe S s Q (.raised fault s : Outcome RunState α) := ⟨.refl h, hf⟩

theorem mono {o : Outcome RunState α} (h : Safe S s Q o) (hQ : ∀ a st, Q a st → R a st) :
    Safe S s R o := by
  cases o with
  | ok a s' => exact ⟨h.1, hQ _ _ h.2⟩
  | raised fault s' => exact h
  | outOfFuel => trivial

/-- A safe run from a later state is safe. -/
theorem later {o : Outcome RunState α} (hl : Later S s s') (h : Safe S s' Q o) : Safe S s Q o := by
  cases o with
  | ok a s'' => exact ⟨hl.trans h.1, h.2⟩
  | raised fault s'' => exact ⟨hl.trans h.1, h.2⟩
  | outOfFuel => trivial

theorem of_ok {o : Outcome RunState α} {a : α} (h : Safe S s Q o) (ho : o = .ok a s') :
    Later S s s' ∧ Q a s'.store := by
  subst ho
  exact h

/-- The store at the end comes later than that at the start. -/
theorem and_grows {o : Outcome RunState α} (h : Safe S s Q o) :
    Safe S s (fun a st => Q a st ∧ s.store.Extends S.named st) o := by
  cases o with
  | ok a s' => exact ⟨h.1, h.2, h.1.grows⟩
  | raised fault s' => exact h
  | outOfFuel => trivial

theorem bind {x : Run α} {f : α → Run β} {R : β → Store → Prop} (hx : Safe S s Q (x s))
    (hf : ∀ a s', x s = .ok a s' → Later S s s' → Q a s'.store → Safe S s' R (f a s')) :
    Safe S s R ((x >>= f) s) := by
  rw [Action.bind_apply]
  cases h : x s with
  | ok a s' =>
    rw [h] at hx
    exact (hf a s' h hx.1 hx.2).later hx.1
  | raised fault s' =>
    rw [h] at hx
    exact hx
  | outOfFuel => trivial

/-- What a run in another scope does, the scope apart. -/
theorem inScope {x : Run α} {e : ScopeId} (h : Safe S { s with scope := e } Q (x { s with scope := e })) :
    Safe S s Q (Run.inScope e x s) := by
  unfold Run.inScope
  cases hx : x { s with scope := e } with
  | ok a s' =>
    rw [hx] at h
    exact ⟨⟨h.1.store, h.1.grows, rfl, h.1.depth⟩, h.2⟩
  | raised fault s' =>
    rw [hx] at h
    exact ⟨⟨h.1.store, h.1.grows, rfl, h.1.depth⟩, h.2⟩
  | outOfFuel => trivial

theorem deeper {x : Run α}
    (h : Safe S { s with depth := s.depth + 1 } Q (x { s with depth := s.depth + 1 })) :
    Safe S s Q (Run.deeper x s) := by
  have hd : ∀ s' : RunState, Later S { s with depth := s.depth + 1 } s' → s'.depth - 1 = s.depth :=
    fun s' hl => by rw [hl.depth]; rfl
  unfold Run.deeper
  cases hx : x { s with depth := s.depth + 1 } with
  | ok a s' =>
    rw [hx] at h
    exact ⟨⟨h.1.store, h.1.grows, h.1.scope, hd s' h.1⟩, h.2⟩
  | raised fault s' =>
    rw [hx] at h
    exact ⟨⟨h.1.store, h.1.grows, h.1.scope, hd s' h.1⟩, h.2⟩
  | outOfFuel => trivial

end Safe

/-! ### Runs over lists -/

theorem List.take_succ_of_getElem? {as : List α} {k : Nat} {a : α} (h : as[k]? = some a) :
    as.take (k + 1) = as.take k ++ [a] := by
  rw [List.take_add_one, h]
  rfl

/-- What holds of the empty list, and still holds with the next element of `as`, holds of `as` up to
any element. -/
theorem List.take_induction {as : List α} {M : List α → Prop} (hnil : M [])
    (hconcat : ∀ (i : Nat) a, as[i]? = some a → M (as.take i) → M (as.take i ++ [a])) (k : Nat) :
    M (as.take k) := by
  induction k with
  | zero =>
    rw [List.take_zero]
    exact hnil
  | succ k ih =>
    cases hk : as[k]? with
    | none =>
      rw [List.getElem?_eq_none_iff] at hk
      rw [List.take_of_length_le hk] at ih
      rw [List.take_of_length_le (by omega)]
      exact ih
    | some a =>
      rw [List.take_succ_of_getElem? hk]
      exact hconcat k a hk ih

namespace Action

variable {σ : Type} {f : α → Action σ β} {g : α → Action σ Completion}

theorem collect_concat (as : List α) (a : α) :
    collect f (as ++ [a]) = (do
      let bs ← collect f as
      let b ← f a
      return bs ++ [b]) := by
  induction as with
  | nil => rfl
  | cons a' as ih =>
    rw [List.cons_append, collect, ih, collect]
    simp only [bind_assoc]
    rfl

theorem untilReturn_concat (as : List α) (a : α) :
    untilReturn g (as ++ [a]) = (do
      match ← untilReturn g as with
      | .normal => g a
      | .returned v => return .returned v) := by
  induction as with
  | nil =>
    funext s
    show (g a >>= fun c => match c with
      | .normal => pure .normal
      | .returned v => pure (.returned v)) s = g a s
    rw [bind_apply]
    cases g a s with
    | ok c s' => cases c <;> rfl
    | raised fault s' => rfl
    | outOfFuel => rfl
  | cons a' as ih =>
    rw [List.cons_append, untilReturn, untilReturn, ih]
    simp only [bind_assoc]
    congr
    funext c
    cases c with
    | normal => rfl
    | returned v => simp

theorem throughout_append (as bs : List α) :
    throughout g (as ++ bs) = (do
      throughout g as
      throughout g bs) := by
  induction as with
  | nil => rfl
  | cons a as ih => rw [List.cons_append, throughout, throughout, ih, bind_assoc]

theorem throughout_concat (as : List α) (a : α) :
    throughout g (as ++ [a]) = (do
      throughout g as
      let _ ← g a
      return ()) := throughout_append as [a]

end Action

end Lox
