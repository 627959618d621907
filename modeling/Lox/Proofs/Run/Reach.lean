import Lox.Proofs.Run.Evaluate

/-!
# Every node is come to at its nesting

If a node is come to where the scopes mirror its nesting, then so is every node that its run visits
(`At.visits`), however deep in calls it is and whether or not the run ends.
-/

namespace Lox

variable {S : Setting} {n : Nat} {Γ : Nesting} {t u : Part} {s s' : RunState}

/-- What an expression leads to when it is come to and evaluated. -/
theorem At.evaluated {e : Expr} {v : Value} (h : At S Γ (.expr e) s)
    (ho : OpensOk S n (.expr e) s) (he : evaluate S.context n e s = .ok v s') : Later S s s' :=
  (((sound n).expr h ho).of_ok he).1

/-- A node that is called is come to where the scopes mirror its nesting. -/
theorem At.call (h : At S Γ t s) (ho : OpensOk S (n + 1) t s)
    (hc : Calls S.context n t s u s') : ∃ Δ, At S Δ u s' := by
  have hsame : Later S s s := .refl h.store
  cases hc with
  | @assigned id target equals value =>
    have hi : (Expr.assign id target equals value).children[0]? = some value := by
      cases ht : target.asVariable? <;> simp [Expr.children, ht]
    exact ⟨Γ, h.subexpr hsame 0 hi⟩
  | binaryLeft => exact ⟨Γ, h.subexpr hsame 0 rfl⟩
  | binaryRight hl =>
    have hleft := (h.subexpr hsame 0 rfl).evaluated (ho.call .binaryLeft) hl
    exact ⟨Γ, h.subexpr hleft 1 rfl⟩
  | logicalLeft => exact ⟨Γ, h.subexpr hsame 0 rfl⟩
  | logicalRight hl hd =>
    have hleft := (h.subexpr hsame 0 rfl).evaluated (ho.call .logicalLeft) hl
    exact ⟨Γ, h.subexpr hleft 1 rfl⟩
  | operand => exact ⟨Γ, h.subexpr hsame 0 rfl⟩
  | inner => exact ⟨Γ, h.subexpr hsame 0 rfl⟩
  | callee => exact ⟨Γ, h.subexpr hsame 0 rfl⟩
  | @argument id callee paren arguments _ f s₁ vs _ i e hf hvs hi =>
    have hcallee := (callee_safe (sound n) h ho).of_ok hf
    have hargs := (arguments_safe (sound n) h ho hf hcallee.1 i).of_ok hvs
    exact ⟨Γ, (argument_at h ho hf hcallee.1 hi hvs hargs.1).1⟩
  | @body id callee paren arguments _ c vs s₁ f s₂ _ i st ha hs hb hi =>
    obtain ⟨Δ, hdecl, hsafe⟩ := body_safe (sound n) h ho ha hs
    obtain ⟨hl, hok⟩ := (hsafe i).of_ok hb
    refine ⟨_, S.declared_body hdecl i st hi, ?_, hl.store⟩
    rw [hl.scope]
    exact hok.mirrors rfl
  | getObject => exact ⟨Γ, h.subexpr hsame 0 rfl⟩
  | setObject => exact ⟨Γ, h.subexpr hsame 0 rfl⟩
  | setValue hobj =>
    have hobject := (h.subexpr hsame 0 rfl).evaluated (ho.call .setObject) hobj
    exact ⟨Γ, h.subexpr hobject 1 rfl⟩
  | @block id body _ scope s₁ _ i st hscope hb hi =>
    obtain ⟨hm, hs⟩ := block_at h ho hscope
    have hsafe := untilReturn_safe (s := { s₁ with scope := scope }) (sound n) body hs hm
      (fun i st hi => S.known_child h.known (i := i) (getElem?_map_some hi))
      (fun i st s' hi hb => ho.call (.block hscope hb hi)) i
    obtain ⟨hl, hok⟩ := hsafe.of_ok hb
    refine ⟨_, S.known_child h.known (i := i) (getElem?_map_some hi), ?_, hl.store⟩
    rw [hl.scope]
    exact hok.mirrors rfl
  | expression => exact ⟨_, h.child (i := 0) rfl h.store h.mirrors⟩
  | print => exact ⟨_, h.child (i := 0) rfl h.store h.mirrors⟩
  | @initializer id name e =>
    have hm : Mirrors S anyName s.store Γ s.scope := h.mirrors
    exact ⟨_, h.child (i := 0) rfl h.store (hm.mark_false name.lexeme)⟩
  | branchCondition => exact ⟨_, h.child (i := 0) rfl h.store h.mirrors⟩
  | thenBranch hv ht =>
    have hl := (h.child (i := 0) rfl h.store h.mirrors).evaluated (ho.call .branchCondition) hv
    exact ⟨_, h.child (i := 1) rfl hl.store (hl.mirrors h.mirrors)⟩
  | @elseBranch id condition thenBranch elseBranch _ v _ hv ht =>
    have hl := (h.child (i := 0) rfl h.store h.mirrors).evaluated (ho.call .branchCondition) hv
    have hm : Mirrors S anyName s'.store Γ s'.scope := hl.mirrors h.mirrors
    exact ⟨_, h.child (i := 2) rfl hl.store (hm.congr (covers_thenBranch h.known))⟩
  | loopCondition => exact ⟨_, h.child (i := 0) rfl h.store h.mirrors⟩
  | loopBody hv ht =>
    have hl := (h.child (i := 0) rfl h.store h.mirrors).evaluated (ho.call .loopCondition) hv
    exact ⟨_, h.child (i := 1) rfl hl.store (hl.mirrors h.mirrors)⟩
  | @loopAgain id condition body _ v s₁ _ hv ht hb =>
    have hl := (h.child (i := 0) rfl h.store h.mirrors).evaluated (ho.call .loopCondition) hv
    have hat : At S _ _ s₁ := h.child (i := 1) rfl hl.store (hl.mirrors h.mirrors)
    obtain ⟨hl', hok⟩ := ((sound n).stmt hat (ho.call (.loopBody hv ht))).of_ok hb
    refine ⟨Γ, h.known, ?_, hl'.store⟩
    rw [hl'.scope]
    exact (hok.mirrors rfl).congr (.after Γ body)
  | returned => exact ⟨_, h.child (i := 0) rfl h.store h.mirrors⟩
  | superclass => exact ⟨_, superclass_at h⟩

/-- Every node that is visited is come to where the scopes mirror its nesting. -/
theorem At.visits {m : Nat} (h : At S Γ t s) (ho : OpensOk S n t s)
    (hv : Visits S.context n t s m u s') : ∃ Δ, At S Δ u s' := by
  induction hv generalizing Γ with
  | here => exact ⟨Γ, h⟩
  | step hc _ ih =>
    obtain ⟨Δ, hΔ⟩ := h.call ho hc
    exact ih hΔ (ho.call hc)

end Lox
