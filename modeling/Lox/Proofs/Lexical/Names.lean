import Lox.Proofs.Lexical.Semantics
import Lox.Proofs.Run.Closures

/-!
# Maps that stand for chains of scopes

A map of names to locations stands for a chain of scopes at a nesting if it has the names the nesting
has, each at the location of that name in the scope the distance leads to (`SameNames`).  Which
locations the names of the scopes have is kept track of by `Links`.  Scopes gain names after closures
were made over them, but a nesting tells of the names that count at its place alone, so the map of a
closure goes on standing for its scopes.
-/

namespace Lox

/-! ### Distances -/

namespace Nesting

theorem distance?_cons (f : Frame) (Γ : Nesting) (x : String) :
    distance? (f :: Γ) x = if f.has x then some 0 else (Γ.distance? x).map (· + 1) := by
  rw [distance?, List.findIdx?_cons]
  split <;> rfl

theorem distance?_mark {f : Frame} {Γ : Nesting} (x y : String) (b : Bool) :
    (mark (f :: Γ) x b).distance? y = if y = x then some 0 else distance? (f :: Γ) y := by
  show distance? (f.mark x b :: Γ) y = _
  rw [distance?_cons, distance?_cons, Frame.has_mark]
  by_cases h : y = x <;> simp [h]

/-- A name that the scope has already can be marked without an effect on the distances. -/
theorem distance?_mark_of_has {Γ : Nesting} {x : String} (h : Γ.hasHere x) (b : Bool) (y : String) :
    (Γ.mark x b).distance? y = Γ.distance? y := by
  cases Γ with
  | nil => rfl
  | cons f Γ =>
    rw [distance?_mark]
    split
    · rename_i hy
      rw [distance?_cons, hy, if_pos (show f.has x = true from h)]
    · rfl

theorem hasHere_mark_self {f : Frame} {Γ : Nesting} (x : String) (b : Bool) :
    (mark (f :: Γ) x b).hasHere x := by
  show (f.mark x b).has x = true
  simp [Frame.has_mark]

theorem distance?_declareReady {f : Frame} {Γ : Nesting} (x y : String) :
    (declareReady (f :: Γ) x).distance? y = if y = x then some 0 else distance? (f :: Γ) y := by
  rw [declareReady, distance?_mark_of_has (hasHere_mark_self x false), distance?_mark]

end Nesting

namespace Store

theorem Extends.ancestor? {named : Prop} {st st' : Store} (h : st.Extends named st') {d : Nat}
    {e a : ScopeId} (ha : st.ancestor? d e = some a) : st'.ancestor? d e = some a := by
  induction d generalizing e with
  | zero => exact ha
  | succ d ih =>
    rw [Store.ancestor?] at ha ⊢
    cases he : st.enclosing? e with
    | none =>
      rw [he] at ha
      cases ha
    | some e' =>
      rw [he] at ha
      rw [h.enclosing_some he]
      exact ih ha

end Store

namespace Lexical

/-- The locations of the names of the scopes. -/
abbrev Links := ScopeId → String → Option Location

namespace Links

variable {μ μ' : Links}

/-- Gives one more name of a scope a location. -/
def add (μ : Links) (e : ScopeId) (x : String) (ℓ : Location) : Links := fun e' x' =>
  if e' = e ∧ x' = x then some ℓ else μ e' x'

/-- Gives the names of a new scope their locations. -/
def addScope (μ : Links) (e : ScopeId) (own : String → Option Location) : Links := fun e' x =>
  if e' = e then own x else μ e' x

theorem add_self (μ : Links) (e : ScopeId) (x : String) (ℓ : Location) : μ.add e x ℓ e x = some ℓ :=
  if_pos ⟨rfl, rfl⟩

/-- No location changes. -/
def Grows (μ μ' : Links) : Prop := ∀ e x ℓ, μ e x = some ℓ → μ' e x = some ℓ

theorem Grows.refl (μ : Links) : Grows μ μ := fun _ _ _ h => h

theorem Grows.trans {μ'' : Links} (h : Grows μ μ') (h' : Grows μ' μ'') : Grows μ μ'' :=
  fun e x ℓ hl => h' e x ℓ (h e x ℓ hl)

theorem Grows.add {e : ScopeId} {x : String} (h : μ e x = none) (ℓ : Location) :
    Grows μ (μ.add e x ℓ) := by
  intro e' x' ℓ' hl
  unfold Links.add
  split
  · rename_i hc
    rw [hc.1, hc.2, h] at hl
    cases hl
  · exact hl

theorem Grows.addScope {e : ScopeId} {own : String → Option Location} (h : ∀ x, μ e x = none) :
    Grows μ (μ.addScope e own) := by
  intro e' x ℓ hl
  unfold Links.addScope
  split
  · rename_i he
    rw [he, h] at hl
    cases hl
  · exact hl

/-- The names of some scopes have the same locations. -/
def SameOn (P : ScopeId → Prop) (μ μ' : Links) : Prop := ∀ e, P e → μ' e = μ e

theorem SameOn.refl (P : ScopeId → Prop) (μ : Links) : SameOn P μ μ := fun _ _ => rfl

theorem SameOn.trans {P Q : ScopeId → Prop} {μ'' : Links} (h : SameOn P μ μ') (h' : SameOn Q μ' μ'')
    (hP : ∀ e, P e → Q e) : SameOn P μ μ'' :=
  fun e he => (h' e (hP e he)).trans (h e he)

theorem SameOn.mono {P Q : ScopeId → Prop} (h : SameOn Q μ μ') (hP : ∀ e, P e → Q e) :
    SameOn P μ μ' := fun e he => h e (hP e he)

end Links

/-- The scopes of a store. -/
def inStore (st : Store) : ScopeId → Prop := fun e => e.index < st.scopes.size

/-- The scopes of a store other than one. -/
def inStoreBut (st : Store) (e : ScopeId) : ScopeId → Prop := fun e' => inStore st e' ∧ e' ≠ e

/-- A map stands for the scopes from `e` outwards, as far as the names `N` are concerned. -/
structure SameNames (μ : Links) (N : String → Prop) (st : Store) (Γ : Nesting) (e : ScopeId)
    (ρ : Env) : Prop where
  top : ρ = .top ↔ Γ = []
  found : ∀ x d, N x → Γ.distance? x = some d →
    ∃ a ℓ, st.ancestor? d e = some a ∧ μ a x = some ℓ ∧ ρ.find? x = some ℓ
  absent : ∀ x, N x → Γ.distance? x = none → ρ.find? x = none

namespace SameNames

variable {μ μ' : Links} {N M : String → Prop} {st st' : Store} {Γ Δ : Nesting} {e : ScopeId}
  {ρ : Env} {f : Frame}

theorem mono {named : Prop} (h : SameNames μ N st Γ e ρ) (hx : st.Extends named st')
    (hg : μ.Grows μ') : SameNames μ' N st' Γ e ρ where
  top := h.top
  found x d hN hd := by
    obtain ⟨a, ℓ, ha, hl, hf⟩ := h.found x d hN hd
    exact ⟨a, ℓ, hx.ancestor? ha, hg a x ℓ hl, hf⟩
  absent := h.absent

/-- Only the distances of the names that matter count. -/
theorem congr (h : SameNames μ N st Γ e ρ) (hnil : Γ = [] ↔ Δ = [])
    (hM : ∀ x, M x → N x ∧ Γ.distance? x = Δ.distance? x) : SameNames μ M st Δ e ρ where
  top := h.top.trans hnil
  found x d hx hd := h.found x d (hM x hx).1 ((hM x hx).2.trans hd)
  absent x hx hd := h.absent x (hM x hx).1 ((hM x hx).2.trans hd)

theorem weaken (h : SameNames μ N st Γ e ρ) (hM : ∀ x, M x → N x) : SameNames μ M st Γ e ρ :=
  h.congr Iff.rfl fun x hx => ⟨hM x hx, rfl⟩

/-- Nothing is found at the top level. -/
theorem nil {st : Store} {e : ScopeId} : SameNames μ N st [] e .top where
  top := by simp
  found x d _ hd := by cases hd
  absent x _ _ := by simp [Env.find?, Env.names]

/-- A scope with names of its own. -/
theorem cons {ρ' : Env} {e' : ScopeId} (h : SameNames μ N st Γ e ρ)
    (he : st.enclosing? e' = some e) (hρ : ρ' ≠ .top)
    (hown : ∀ x, N x → f.has x = true → ∃ ℓ, μ e' x = some ℓ ∧ ρ'.find? x = some ℓ)
    (houter : ∀ x, N x → f.has x = false → ρ'.find? x = ρ.find? x) :
    SameNames μ N st (f :: Γ) e' ρ' where
  top := by simp [hρ]
  found x d hN hd := by
    rw [Nesting.distance?_cons] at hd
    split at hd
    · rename_i hf
      cases hd
      obtain ⟨ℓ, hl, hfind⟩ := hown x hN hf
      exact ⟨e', ℓ, rfl, hl, hfind⟩
    · rename_i hf
      obtain ⟨k, hk, rfl⟩ := Option.map_eq_some_iff.1 hd
      obtain ⟨a, ℓ, ha, hl, hfind⟩ := h.found x k hN hk
      refine ⟨a, ℓ, ?_, hl, (houter x hN (by simpa using hf)).trans hfind⟩
      rw [Store.ancestor?, he]
      exact ha
  absent x hN hd := by
    rw [Nesting.distance?_cons] at hd
    split at hd
    · cases hd
    · rename_i hf
      exact (houter x hN (by simpa using hf)).trans
        (h.absent x hN (Option.map_eq_none_iff.1 hd))

/-- One more name of the innermost scope. -/
theorem declare {x : String} {b : Bool} {ℓ : Location} (h : SameNames μ N st (f :: Γ) e ρ)
    (hfresh : μ e x = none) (hM : ∀ y, M y → N y ∨ y = x) :
    SameNames (μ.add e x ℓ) M st (Nesting.mark (f :: Γ) x b) e (ρ.extend x ℓ) where
  top := by simp [Env.extend, Nesting.mark]
  found y d hy hd := by
    rw [Nesting.distance?_mark] at hd
    split at hd
    · rename_i hyx
      cases hd
      subst hyx
      refine ⟨e, ℓ, rfl, μ.add_self e y ℓ, ?_⟩
      simp [Env.find?, Env.extend, Env.names]
    · rename_i hyx
      obtain ⟨a, ℓ', ha, hl, hf⟩ := h.found y d ((hM y hy).resolve_right hyx) hd
      refine ⟨a, ℓ', ha, Links.Grows.add hfresh ℓ a y ℓ' hl, ?_⟩
      simpa [Env.find?, Env.extend, Env.names, Std.ExtTreeMap.getElem?_insert, Ne.symm hyx] using hf
  absent y hy hd := by
    rw [Nesting.distance?_mark] at hd
    split at hd
    · cases hd
    · rename_i hyx
      have hf := h.absent y ((hM y hy).resolve_right hyx) hd
      simpa [Env.find?, Env.extend, Env.names, Std.ExtTreeMap.getElem?_insert, Ne.symm hyx] using hf

end SameNames

/-- The map stands for the scopes, and the innermost scope links no names but those of its frame. -/
structure SameScope (μ : Links) (st : Store) (Γ : Nesting) (e : ScopeId) (ρ : Env) : Prop where
  names : SameNames μ anyName st Γ e ρ
  here : ∀ x, (μ e x).isSome → Γ.hasHere x

theorem SameScope.mono {named : Prop} {P : ScopeId → Prop} {μ μ' : Links} {st st' : Store}
    {Γ : Nesting} {e : ScopeId} {ρ : Env} (h : SameScope μ st Γ e ρ) (hx : st.Extends named st')
    (hg : μ.Grows μ') (hs : μ.SameOn P μ') (he : P e) : SameScope μ' st' Γ e ρ where
  names := h.names.mono hx hg
  here x hl := h.here x (hs e he ▸ hl)

theorem SameScope.later {named : Prop} {μ : Links} {st st' : Store} {Γ : Nesting} {e : ScopeId}
    {ρ : Env} (h : SameScope μ st Γ e ρ) (hx : st.Extends named st') : SameScope μ st' Γ e ρ :=
  ⟨h.names.mono hx (.refl μ), h.here⟩

end Lexical

end Lox
