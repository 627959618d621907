import Lox.Proofs.Run.Interpretations

/-!
# The stores that are reached

A session reaches the stores before and after each program, at each node that is visited, and before and
after each change (`Episode.Reaches`).  What every change preserves holds of all of them
(`Episode.invariant`).  If each change goes up in some preorder, there is a store above all that are
reached, also when the last program is cut short (`Episode.exists_limit`).
-/

namespace Lox

/-- A store is reached during the run of a program. -/
inductive Episode.Reaches (E : Episode) : Store → Prop
  | start : E.Reaches E.interpreter.store
  | visit {m t s} (hv : E.Visits m t s) : E.Reaches s.store
  | before {m t s st st'} (hv : E.Visits (m + 1) t s) (hc : Changes E.context m t s st st') : E.Reaches st
  | after {m t s st st'} (hv : E.Visits (m + 1) t s) (hc : Changes E.context m t s st st') : E.Reaches st'
  | ended {report i} (hr : E.result? = some (report, i)) : E.Reaches i.store

/-- An episode is an interpretation with the table of its own program. -/
def Episode.interpretation (E : Episode) : Interpretation :=
  ⟨E.interpreter, E.program, E.program.resolve.table, E.fuel⟩

theorem Episode.visits_interpretation {E : Episode} {m : Nat} {t : Part} {s : RunState} :
    E.interpretation.Visits m t s ↔ E.Visits m t s := by
  constructor
  · rintro ⟨hfits, hb, hi, hv⟩
    exact .mk hfits hb hi hv
  · rintro ⟨hfits, hb, hi, hv⟩
    exact .mk hfits hb hi hv

theorem Episode.Reaches.interpretation {E : Episode} {st : Store} (h : E.Reaches st) :
    E.interpretation.Reaches st := by
  cases h with
  | start => exact .start
  | visit hv => exact .visit (visits_interpretation.2 hv)
  | before hv hc => exact .before (visits_interpretation.2 hv) hc
  | after hv hc => exact .after (visits_interpretation.2 hv) hc
  | ended hr => exact .ended hr

/-- The stores of one run lie between that before it and a last one. -/
theorem Episode.between {E : Episode} {R : Store → Store → Prop} (refl : ∀ st, R st st)
    (trans : ∀ {st st' st''}, R st st' → R st' st'' → R st st'')
    (hstep : ∀ {m t s st st'}, E.Visits (m + 1) t s → Changes E.context m t s st st' → R st st') :
    ∃ last, (∀ st, E.Reaches st → R E.interpreter.store st ∧ R st last) ∧
      ∀ report i, E.result? = some (report, i) → i.store = last := by
  obtain ⟨last, hall, hend⟩ := Interpretation.between (I := E.interpretation) refl trans
    fun hv hc => hstep (visits_interpretation.1 hv) hc
  exact ⟨last, fun st hst => hall st hst.interpretation, hend⟩

/-! ### All runs -/

/-- Each change in some episodes, one after the other, leads from a store to a later one. -/
def Stepwise (registry : NativeRegistry) (config : Config) (R : Store → Store → Prop)
    (Es : List Episode) : Prop :=
  ∀ Fs G, Fs ++ [G] <+: Es → History registry config Fs G.interpreter → ∀ {m t s st st'},
    G.Visits (m + 1) t s → Changes G.context m t s st st' → R st st'

section

variable {registry : NativeRegistry} {config : Config} {Es Fs : List Episode} {E : Episode}
  {i : Interpreter} {R : Store → Store → Prop} {I : Store → Prop}

theorem Stepwise.of_prefix (h : Stepwise registry config R Es) (hp : Fs <+: Es) :
    Stepwise registry config R Fs :=
  fun Gs G hG => h Gs G (hG.trans hp)

/-- Each of the episodes starts where those before it have led. -/
theorem History.of_mem (h : History registry config Es i) {G : Episode} (hG : G ∈ Es) :
    ∃ Fs, Fs ++ [G] <+: Es ∧ History registry config Fs G.interpreter := by
  induction h with
  | create h => cases hG
  | @interpret Es F report i h hr ih =>
    rcases List.mem_append.1 hG with hG | hG
    · obtain ⟨Fs, hp, hF⟩ := ih hG
      exact ⟨Fs, hp.trans (List.prefix_append _ _), hF⟩
    · obtain rfl := List.mem_singleton.1 hG
      exact ⟨Es, List.prefix_refl _, h⟩

/-- What holds of a new interpreter and is preserved by every change holds between the runs. -/
theorem History.invariant (h : History registry config Es i)
    (hcreate : ∀ i, Interpreter.create registry config = .ok i → I i.store)
    (hstep : Stepwise registry config (fun st st' => I st → I st') Es) : I i.store := by
  induction h with
  | create h => exact hcreate _ h
  | interpret h hr ih =>
    obtain ⟨last, hall, -⟩ := Episode.between (fun _ h => h) (fun h h' hI => h' (h hI))
      (hstep _ _ (List.prefix_refl _) h)
    exact (hall _ (.ended hr)).1 (ih (hstep.of_prefix (List.prefix_append _ _)))

namespace Episode

theorem history_of_mem (h : History registry config Es E.interpreter) {G : Episode}
    (hG : G ∈ Es ++ [E]) : ∃ Fs, Fs ++ [G] <+: Es ++ [E] ∧ History registry config Fs G.interpreter := by
  rcases List.mem_append.1 hG with hG | hG
  · obtain ⟨Fs, hp, hF⟩ := h.of_mem hG
    exact ⟨Fs, hp.trans (List.prefix_append _ _), hF⟩
  · obtain rfl := List.mem_singleton.1 hG
    exact ⟨Es, List.prefix_refl _, h⟩

/-- What holds of a new interpreter and is preserved by every change holds of all stores that are
reached. -/
theorem invariant (h : History registry config Es E.interpreter)
    (hcreate : ∀ i, Interpreter.create registry config = .ok i → I i.store)
    (hstep : Stepwise registry config (fun st st' => I st → I st') (Es ++ [E])) {G : Episode}
    (hG : G ∈ Es ++ [E]) {st : Store} (hst : G.Reaches st) : I st := by
  obtain ⟨Fs, hp, hF⟩ := history_of_mem h hG
  obtain ⟨last, hall, -⟩ := Episode.between (fun _ h => h) (fun h h' hI => h' (h hI)) (hstep _ _ hp hF)
  exact (hall st hst).1
    (hF.invariant hcreate (hstep.of_prefix ((List.prefix_append _ _).trans hp)))

/-- If each change goes up, what is reached before a run is below the store in which it starts. -/
theorem below_start (refl : ∀ st, R st st) (trans : ∀ {st st' st''}, R st st' → R st' st'' → R st st'')
    (h : History registry config Es i) (hstep : Stepwise registry config R Es) {G : Episode}
    (hG : G ∈ Es) {st : Store} (hst : G.Reaches st) : R st i.store := by
  induction h with
  | create h => cases hG
  | @interpret Es F report i h hr ih =>
    obtain ⟨last, hall, hend⟩ := Episode.between refl trans (hstep _ _ (List.prefix_refl _) h)
    rw [hend _ _ hr]
    rcases List.mem_append.1 hG with hG | hG
    · have hbefore := ih (hstep.of_prefix (List.prefix_append _ _)) hG
      exact trans hbefore (hall _ .start).2
    · obtain rfl := List.mem_singleton.1 hG
      exact (hall st hst).2

/-- If each change goes up, there is a store above all that are reached. -/
theorem exists_limit (refl : ∀ st, R st st) (trans : ∀ {st st' st''}, R st st' → R st' st'' → R st st'')
    (h : History registry config Es E.interpreter)
    (hstep : Stepwise registry config R (Es ++ [E])) :
    ∃ last, ∀ G ∈ Es ++ [E], ∀ st, G.Reaches st → R st last := by
  obtain ⟨last, hall, -⟩ := Episode.between refl trans (hstep _ _ (List.prefix_refl _) h)
  refine ⟨last, fun G hG st hst => ?_⟩
  rcases List.mem_append.1 hG with hG | hG
  · exact trans (below_start refl trans h (hstep.of_prefix (List.prefix_append _ _)) hG hst)
      (hall _ .start).2
  · obtain rfl := List.mem_singleton.1 hG
    exact (hall st hst).2

end Episode

end

end Lox
