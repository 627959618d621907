import Lox.Proofs.Run.Stores
import Lox.Proofs.Run.Termination

/-!
# Invariants of all runs

Nodes come from programs, and from the functions of the store.  So if all nodes of some programs are of a
kind, and an invariant of the store has all nodes of the functions be of that kind too, every node that is
visited is of the kind; and if each change that such a node makes keeps the invariant, and leads to a store
that is related to the one before, both go through whole runs (`Preserved`), whatever table they are run
with.
-/

namespace Lox

namespace Part

theorem All.functions {P : Part → Prop} {t : Part} (h : t.All P) (hP : ∀ f, P (stmt (.function f)) → P (.method f)) :
    ∀ f ∈ t.functions, (Part.method f).All P := by
  intro f hf
  cases t with
  | stmt st =>
    cases st with
    | function g =>
      obtain rfl := List.mem_singleton.1 hf
      exact h.method (hP f)
    | classDecl id name superclass methods =>
      exact h.of_mem (List.mem_append_right _ (List.mem_map_of_mem hf))
    | _ => cases hf
  | _ => cases hf

end Part

/-- What each change at a part of a kind preserves: an invariant, by which the functions of the store are of
that kind, and with it a preorder. -/
structure Preserved (P : Part → Prop) (Inv : Store → Prop) (R : Store → Store → Prop) : Prop where
  refl : ∀ st, R st st
  trans : ∀ {st st' st''}, R st st' → R st' st'' → R st st''
  method : ∀ f, P (.stmt (.function f)) → P (.method f)
  bodies : ∀ {st}, Inv st → st.Functions fun f => (Part.method f).All P
  step : ∀ {ctx n t s st st'}, t.All P → Changes ctx n t s st st' → Inv st → Inv st' ∧ R st st'

/-- From a store with the invariant a run visits parts of the kind only, and its stores have the invariant
and lie between the first and a last one. -/
def Upholds (P : Part → Prop) (Inv : Store → Prop) (R : Store → Store → Prop) (M : Event → Prop)
    (st : Store) (o : Outcome Store Unit) : Prop :=
  Inv st → ∃ last, Inv last ∧ R st last ∧ o.EndsWith last ∧
    (∀ m t s, M (.visit m t s) → t.All P) ∧
    ∀ ev, M ev → ∀ st' ∈ ev.stores, Inv st' ∧ R st st' ∧ R st' last

namespace Preserved

variable {P : Part → Prop} {Inv : Store → Prop} {R : Store → Store → Prop} (hp : Preserved P Inv R)

include hp

theorem account : Account (Upholds P Inv R) where
  less hless h hst := by
    obtain ⟨last, hlast, hup, ho, hvisits, hall⟩ := h hst
    exact ⟨last, hlast, hup, ho, fun m t s hM => hvisits m t s (hless _ hM),
      fun ev hev => hall ev (hless ev hev)⟩
  done st hst := ⟨st, hst, hp.refl st, rfl, fun _ _ _ h => h.elim, fun _ h => h.elim⟩
  next := by
    intro M N st st' o h h' hst
    obtain ⟨mid, hmid, hup, rfl, hvisits, hbefore⟩ := h hst
    obtain ⟨last, hlast, hup', ho, hvisits', hafter⟩ := h' hmid
    refine ⟨last, hlast, hp.trans hup hup', ho, fun m t s hM => ?_, fun ev hev st'' hst'' => ?_⟩
    · exact hM.elim (hvisits m t s) (hvisits' m t s)
    · rcases hev with hev | hev
      · obtain ⟨hinv, hup₁, hup₂⟩ := hbefore ev hev st'' hst''
        exact ⟨hinv, hup₁, hp.trans hup₂ hup'⟩
      · obtain ⟨hinv, hup₁, hup₂⟩ := hafter ev hev st'' hst''
        exact ⟨hinv, hp.trans hup hup₁, hup₂⟩

/-- A single event in a store with the invariant. -/
theorem upholds_event {ev : Event} {st st' : Store} {o : Outcome Store Unit}
    (hvisit : ∀ m t s, ev = .visit m t s → t.All P) (hstores : ∀ st'' ∈ ev.stores, st'' = st ∨ st'' = st')
    (hend : o.EndsWith st') (hstep : Inv st → Inv st' ∧ R st st') : Upholds P Inv R (· = ev) st o := by
  intro hst
  obtain ⟨hst', hup⟩ := hstep hst
  refine ⟨st', hst', hup, hend, fun m t s hM => hvisit m t s hM.symm, ?_⟩
  rintro ev rfl st'' hst''
  rcases hstores st'' hst'' with rfl | rfl
  · exact ⟨hst, hp.refl _, hup⟩
  · exact ⟨hst', hup, hp.refl _⟩

theorem accounts (ctx : Context) :
    Accounts (Upholds P Inv R) ctx fun _ t s => t.All P ∧ Inv s.store where
  account := hp.account
  stop hv := hp.upholds_event (by rintro _ _ _ ⟨⟩; exact hv.1) (by simp [Event.stores]) trivial
    fun hst => ⟨hst, hp.refl _⟩
  visit hv := hp.upholds_event (by rintro _ _ _ ⟨⟩; exact hv.1) (by simp [Event.stores]) rfl
    fun hst => ⟨hst, hp.refl _⟩
  change hv hc := hp.upholds_event nofun (by simp [Event.stores]) rfl (hp.step hv.1 hc)
  raise _ _ := hp.upholds_event nofun (by simp [Event.stores]) rfl fun hst => ⟨hst, hp.refl _⟩
  call := by
    intro n t s u s' hv hc hcomes happlied
    have hstore : Inv s'.store := by
      obtain ⟨M, hM⟩ := hcomes
      obtain ⟨last, hlast, -, hend, -⟩ := hM hv.2
      rwa [show s'.store = last from hend]
    refine ⟨?_, hstore⟩
    cases hc.goesOn with
    | child hmem => exact hv.1.of_mem hmem
    | again => exact hv.1
    | body ha hs hst =>
      obtain ⟨M, hM⟩ := happlied _ _ _ _ _ _ _ _ rfl rfl ha
      obtain ⟨last, hlast, -, hend, -⟩ := hM hv.2
      cases hend
      exact (hs.declaration (hp.bodies hlast) ha).of_mem (List.mem_map_of_mem hst)

/-- The run of a part of the kind. -/
theorem part {ctx : Context} {n : Nat} {t : Part} {s : RunState} (ht : t.All P) (hs : Inv s.store) :
    ∃ last, Inv last ∧ R s.store last ∧ (t.outcome ctx n s).EndsWith last ∧
      (∀ m u s', Visits ctx n t s m u s' → u.All P) ∧
      ∀ ev, Happens ctx n t s ev → ∀ st ∈ ev.stores, Inv st ∧ R s.store st ∧ R st last := by
  obtain ⟨last, hlast, hup, hend, hvisits, hall⟩ := (hp.accounts ctx).run n t s ⟨ht, hs⟩ hs
  exact ⟨last, hlast, hup, hend, fun m u s' hv => hvisits m u s' (.visit hv), hall⟩

/-- The run of a program whose parts are of the kind. -/
theorem visits {J : Interpretation} (hprogram : (Part.program J.program).All P)
    (hstart : Inv J.interpreter.store) {m : Nat} {t : Part} {s : RunState} (hv : J.Visits m t s) :
    t.All P ∧ Inv s.store := by
  obtain ⟨hfits, hb, hi, hv⟩ := hv
  obtain ⟨last, -, -, -, hvisits, hall⟩ := (hp.accounts J.context).program (n := J.fuel)
    (p := J.program) (s := J.ready.start) (fun k st s' hk _ hcomes => by
      obtain ⟨M, hM⟩ := hcomes
      obtain ⟨last, hlast, -, hend, -⟩ := hM hstart
      refine ⟨hprogram.of_mem (List.mem_map_of_mem (List.mem_of_getElem? hk)), ?_⟩
      rwa [show s'.store = last from hend]) hstart
  have hhappens : ProgramHappens J.context J.fuel J.program J.ready.start (.visit m t s) :=
    ⟨_, _, hi, _, hb, .visit hv⟩
  exact ⟨hvisits m t s hhappens, (hall _ hhappens s.store List.mem_cons_self).1⟩

/-! ### Programs one after the other -/

section History

variable {registry : NativeRegistry} {config : Config} {Es : List Episode} {E : Episode} {i : Interpreter}
  (hcreate : ∀ i, Interpreter.create registry config = .ok i → Inv i.store)

theorem visits_episode {G : Episode} (hprogram : (Part.program G.program).All P)
    (hstart : Inv G.interpreter.store) {m : Nat} {t : Part} {s : RunState} (hv : G.Visits m t s) :
    t.All P :=
  (hp.visits (J := G.interpretation) hprogram hstart (Episode.visits_interpretation.2 hv)).1

include hcreate

theorem history (h : History registry config Es i) (hall : ∀ p ∈ programs Es, (Part.program p).All P) :
    Inv i.store := by
  induction h with
  | create h => exact hcreate _ h
  | @interpret Es G report i h hr ih =>
    rw [programs_append, List.forall_mem_append] at hall
    have hstart := ih hall.1
    have hprogram := hall.2 _ List.mem_cons_self
    obtain ⟨last, hreached, -⟩ := Episode.between (E := G) (R := fun st st' => Inv st → Inv st')
      (fun _ h => h) (fun h h' hst => h' (h hst))
      fun hv hc hst => (hp.step (hp.visits_episode hprogram hstart hv) hc hst).1
    exact (hreached _ (.ended hr)).1 hstart

/-- All that is visited in some episodes is of the kind, and there is a store that all stores that are
reached lead to. -/
theorem exists_limit (h : History registry config Es E.interpreter)
    (hall : ∀ p ∈ programs (Es ++ [E]), (Part.program p).All P) :
    ∃ last, ∀ G ∈ Es ++ [E], (∀ m t s, G.Visits m t s → t.All P) ∧
      ∀ st, G.Reaches st → Inv st ∧ R st last := by
  have hvisits : ∀ Fs G, Fs ++ [G] <+: Es ++ [E] → History registry config Fs G.interpreter →
      ∀ m t s, G.Visits m t s → t.All P := by
    intro Fs G hpre hF m t s hv
    have hsub : programs (Fs ++ [G]) ⊆ programs (Es ++ [E]) := List.map_subset _ hpre.subset
    rw [programs_append] at hsub
    refine hp.visits_episode (hall _ (hsub (by simp))) ?_ hv
    exact hp.history hcreate hF fun p hp => hall p (hsub (List.mem_append_left _ hp))
  have hsteps : Stepwise registry config (fun st st' => Inv st → Inv st' ∧ R st st') (Es ++ [E]) :=
    fun Fs G hpre hF _ _ _ _ _ hv hc hst => hp.step (hvisits Fs G hpre hF _ _ _ hv) hc hst
  obtain ⟨last, hlast⟩ := Episode.exists_limit (R := fun st st' => Inv st → Inv st' ∧ R st st')
    (fun st hst => ⟨hst, hp.refl st⟩) (fun h h' hst => by
      obtain ⟨hst', hup⟩ := h hst
      obtain ⟨hst'', hup'⟩ := h' hst'
      exact ⟨hst'', hp.trans hup hup'⟩) h hsteps
  refine ⟨last, fun G hG => ?_⟩
  obtain ⟨Fs, hpre, hF⟩ := Episode.history_of_mem h hG
  refine ⟨hvisits Fs G hpre hF, fun st hst => ?_⟩
  have hinv : Inv st := Episode.invariant h hcreate
    (fun Fs G hpre hF _ _ _ _ _ hv hc hst => (hsteps Fs G hpre hF hv hc hst).1) hG hst
  exact ⟨hinv, (hlast G hG st hst hinv).2⟩

end History

end Preserved

/-- Where the parts of a program are of a kind, so are the bodies of the functions it makes. -/
theorem preserved_bodies {P : Part → Prop} (hP : ∀ f, P (.stmt (.function f)) → P (.method f)) :
    Preserved P (fun st => st.Functions fun f => (Part.method f).All P) (fun _ _ => True) where
  refl _ := trivial
  trans _ _ := trivial
  method := hP
  bodies h := h
  step ht hc h := ⟨hc.functions (ht.functions hP) h, trivial⟩

end Lox
