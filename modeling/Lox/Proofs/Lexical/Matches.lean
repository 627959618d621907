import Lox.Proofs.Lexical.Relation
import Lox.Proofs.Run.Safe

/-!
# Runs that match

A run of the evaluator and one of the textbook semantics match if they end in the same way, in states
that correspond: with results as claimed, with the same fault, or both out of fuel.  There is one rule
for each way to build a run.
-/

namespace Lox.Lexical

variable (S : Setting) {α α' β β' : Type}

/-- What holds of the ends of two runs that started from linked scopes. -/
def Matches (μ : Links) (Q : Links → α → β → Store → State → Prop) :
    Outcome RunState α → Outcome State β → Prop
  | .ok a s, .ok b l => ∃ μ', μ.Grows μ' ∧ Simulates S μ' s l ∧ Q μ' a b s.store l
  | .raised fault s, .raised fault' l => fault = fault' ∧ ∃ μ', Simulates S μ' s l
  | .outOfFuel, .outOfFuel => True
  | _, _ => False

/-- The same result, and no new names in the scopes `P`. -/
def Same (P : ScopeId → Prop) (μ : Links) : Links → α → α → Store → State → Prop :=
  fun μ' a b _ _ => a = b ∧ μ.SameOn P μ'

variable {S} {P P' : ScopeId → Prop} {μ μ' : Links} {s : RunState} {l : State}
  {Q : Links → α → β → Store → State → Prop} {R : Links → α' → β' → Store → State → Prop}

namespace Simulates

/-- Neither the current scope nor a call that is entered and left counts. -/
theorem of_store {s' : RunState} {l' : State} (h : Simulates S μ s l) (hs : s'.store = s.store)
    (hp : s'.printed = s.printed) (hd : l'.depth = s'.depth)
    (hl : l' = { l with depth := l'.depth }) : Simulates S μ s' l' := by
  obtain ⟨ho, hv, -, hprint⟩ := h
  rw [hl]
  refine ⟨?_, ?_, hd, ?_⟩
  · rw [hs]
    exact ⟨ho.functions, ho.size, ho.natives, ho.classes, ho.instances⟩
  · rw [hs]
    exact hv.of_scopes rfl rfl rfl
  · rw [hp]
    exact hprint

theorem inScope (h : Simulates S μ s l) (e : ScopeId) : Simulates S μ { s with scope := e } l :=
  ⟨h.objects, h.vars, h.depth, h.printed⟩

end Simulates

namespace Matches

theorem ok {a : α} {b : β} (h : Simulates S μ s l) (hQ : Q μ a b s.store l) :
    Matches S μ Q (.ok a s) (.ok b l) := ⟨μ, .refl μ, h, hQ⟩

theorem raised (h : Simulates S μ s l) (fault : Fault) :
    Matches S μ Q (.raised fault s) (.raised fault l) := ⟨rfl, μ, h⟩

theorem mono {Q' : Links → α → β → Store → State → Prop} {x : Outcome RunState α}
    {y : Outcome State β} (h : Matches S μ Q x y)
    (hQ : ∀ μ' a b st l, Q μ' a b st l → Q' μ' a b st l) : Matches S μ Q' x y := by
  cases x <;> cases y <;> try exact h
  obtain ⟨μ', hg, hs, hq⟩ := h
  exact ⟨μ', hg, hs, hQ _ _ _ _ _ hq⟩

/-- Matching runs from later links match. -/
theorem later {x : Outcome RunState α} {y : Outcome State β} (hg : μ.Grows μ')
    (h : Matches S μ' Q x y) : Matches S μ Q x y := by
  cases x <;> cases y <;> try exact h
  obtain ⟨μ'', hg', hs, hq⟩ := h
  exact ⟨μ'', hg.trans hg', hs, hq⟩

theorem same {a : α} (h : Simulates S μ s l) : Matches S μ (Same P μ) (.ok a s) (.ok a l) :=
  .ok h ⟨rfl, .refl P μ⟩

theorem bind {x : Run α} {y : Eval β} {f : α → Run α'} {g : β → Eval β'}
    (hx : Matches S μ Q (x s) (y l))
    (hf : ∀ μ' a b s' l', x s = .ok a s' → μ.Grows μ' → Simulates S μ' s' l' →
      Q μ' a b s'.store l' → Matches S μ' R (f a s') (g b l')) :
    Matches S μ R ((x >>= f) s) ((y >>= g) l) := by
  rw [Action.bind_apply, Action.bind_apply]
  cases hxs : x s with
  | ok a s' =>
    cases hyl : y l with
    | ok b l' =>
      rw [hxs, hyl] at hx
      obtain ⟨μ', hg, hs, hq⟩ := hx
      exact (hf μ' a b s' l' hxs hg hs hq).later hg
    | raised fault l' =>
      rw [hxs, hyl] at hx
      exact hx.elim
    | outOfFuel =>
      rw [hxs, hyl] at hx
      exact hx.elim
  | raised fault s' =>
    cases hyl : y l with
    | raised fault' l' =>
      rw [hxs, hyl] at hx
      exact hx
    | ok b l' =>
      rw [hxs, hyl] at hx
      exact hx.elim
    | outOfFuel =>
      rw [hxs, hyl] at hx
      exact hx.elim
  | outOfFuel =>
    cases hyl : y l with
    | outOfFuel => trivial
    | ok b l' =>
      rw [hxs, hyl] at hx
      exact hx.elim
    | raised fault l' =>
      rw [hxs, hyl] at hx
      exact hx.elim

/-- The first of two runs has the same result on both sides. -/
theorem bind_same {x : Run α} {y : Eval α} {f : α → Run α'} {g : α → Eval β'}
    (hx : Matches S μ (Same P μ) (x s) (y l))
    (hf : ∀ μ' a s' l', x s = .ok a s' → μ.Grows μ' → μ.SameOn P μ' → Simulates S μ' s' l' →
      Matches S μ' R (f a s') (g a l')) :
    Matches S μ R ((x >>= f) s) ((y >>= g) l) := by
  refine hx.bind fun μ' a b s' l' ha hg hs hq => ?_
  obtain ⟨rfl, hsame⟩ := hq
  exact hf μ' a s' l' ha hg hsame hs

/-- The result is turned into another on the one side. -/
theorem map_right {x : Run α} {y : Eval β} {k : β → β'} {R : Links → α → β' → Store → State → Prop}
    (h : Matches S μ Q (x s) (y l))
    (hk : ∀ μ' a b s' l', x s = .ok a s' → μ.Grows μ' → Q μ' a b s'.store l' →
      R μ' a (k b) s'.store l') :
    Matches S μ R (x s) ((y >>= fun b => pure (k b)) l) := by
  have := Matches.bind (f := pure) (g := fun b => pure (k b)) (R := R) h
    fun μ' a b s' l' ha hg hs hq => .ok hs (hk μ' a b s' l' ha hg hq)
  rwa [bind_pure] at this

theorem inScope {x : Run α} {y : Outcome State β} {e : ScopeId}
    (h : Matches S μ Q (x { s with scope := e }) y) : Matches S μ Q (Run.inScope e x s) y := by
  unfold Run.inScope
  cases hx : x { s with scope := e } with
  | ok a s' =>
    rw [hx] at h
    cases y with
    | ok b l =>
      obtain ⟨μ', hg, hs, hq⟩ := h
      exact ⟨μ', hg, hs.inScope _, hq⟩
    | _ => exact h.elim
  | raised fault s' =>
    rw [hx] at h
    cases y with
    | raised fault' l =>
      obtain ⟨hfault, μ', hs⟩ := h
      exact ⟨hfault, μ', hs.inScope _⟩
    | _ => exact h.elim
  | outOfFuel =>
    rw [hx] at h
    exact h

theorem deeper {x : Run α} {y : Eval β} (hQ : ∀ μ' a b st l d, Q μ' a b st l →
      Q μ' a b st { l with depth := d })
    (h : Matches S μ Q (x { s with depth := s.depth + 1 }) (y { l with depth := l.depth + 1 })) :
    Matches S μ Q (Run.deeper x s) (Eval.deeper y l) := by
  unfold Run.deeper Eval.deeper
  cases hx : x { s with depth := s.depth + 1 } with
  | ok a s' =>
    cases hy : y { l with depth := l.depth + 1 } with
    | ok b l' =>
      rw [hx, hy] at h
      obtain ⟨μ', hg, hs, hq⟩ := h
      exact ⟨μ', hg, hs.of_store rfl rfl (by rw [hs.depth]) rfl, hQ _ _ _ _ _ _ hq⟩
    | _ =>
      rw [hx, hy] at h
      exact h.elim
  | raised fault s' =>
    cases hy : y { l with depth := l.depth + 1 } with
    | raised fault' l' =>
      rw [hx, hy] at h
      obtain ⟨hfault, μ', hs⟩ := h
      exact ⟨hfault, μ', hs.of_store rfl rfl (by rw [hs.depth]) rfl⟩
    | _ =>
      rw [hx, hy] at h
      exact h.elim
  | outOfFuel =>
    cases hy : y { l with depth := l.depth + 1 } with
    | outOfFuel => trivial
    | _ =>
      rw [hx, hy] at h
      exact h.elim

end Matches

end Lox.Lexical
