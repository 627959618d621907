import Lox.Proofs.Lexical.Matches
import Lox.Proofs.Run.Names

/-!
# Changes that are followed

What the evaluator does to its state, each time with what the textbook semantics does instead, and
the links after it.  A new scope is followed by fresh locations for the names it is made with
(`Bound`); every other change leaves the links as they are.
-/

namespace Lox.Lexical

variable {S : Setting} {μ : Links} {s : RunState} {l : State}

namespace Simulates

/-! ### Variables -/

/-- Binding a name that has a location. -/
theorem define_local (h : Simulates S μ s l) {e : ScopeId} {x : String} {ℓ : Location}
    (hl : μ e x = some ℓ) (hx : S.named → x ≠ "super") (v : Value) :
    Simulates S μ { s with store := s.store.define e x v }
      { l with cells := l.cells.setIfInBounds ℓ.index (some v) } where
  objects := h.objects.mono (.define _ _ _ hx) (.refl μ) (.refl _) rfl rfl rfl rfl rfl
  vars := h.vars.define hl v rfl rfl
  depth := h.depth
  printed := h.printed

theorem define_global (h : Simulates S μ s l) {x : String} (hx : S.named → x ≠ "super") (v : Value) :
    Simulates S μ { s with store := s.store.define S.context.globals x v }
      { l with globals := l.globals.insert x v } where
  objects := h.objects.mono (.define _ _ _ hx) (.refl μ) (.refl _) rfl rfl rfl rfl rfl
  vars := h.vars.define_global v rfl rfl
  depth := h.depth
  printed := h.printed

/-- A name that gets a location has no value yet. -/
theorem declare (h : Simulates S μ s l) {e : ScopeId} {x : String} (he : e ≠ S.context.globals)
    (hlt : e.index < s.store.scopes.size) (hl : μ e x = none) :
    Simulates S (μ.add e x ⟨l.cells.size⟩) s { l with cells := l.cells.push none } where
  objects := h.objects.mono (.refl _) (.add hl _) (.refl _) rfl rfl rfl rfl rfl
  vars := h.vars.declare he hlt hl rfl rfl
  depth := h.depth
  printed := h.printed

/-- What a linked name is bound to is in its cell. -/
theorem read (h : Simulates S μ s l) {e : ScopeId} {x : String} {ℓ : Location} {v : Value}
    (hl : μ e x = some ℓ) (hv : s.store.read? e x = some v) : Eval.read x ℓ l = .ok v l := by
  have hcell := h.vars.cells e x ℓ hl
  rw [hv] at hcell
  simp only [Eval.read, hcell]

/-! ### Objects -/

/-- A map is captured. -/
theorem capture (h : Simulates S μ s l) (ρ : Env) :
    Simulates S μ s { l with captured := l.captured.push ρ } where
  objects := h.objects.mono (.refl _) (.refl μ) (.push _ ρ) rfl rfl rfl rfl rfl
  vars := h.vars.of_scopes rfl rfl rfl
  depth := h.depth
  printed := h.printed

theorem newFunction (h : Simulates S μ s l) {f f' : FunctionObject}
    (hf : SameFunction S μ s.store l.captured f f') :
    (l.objects.newFunction f').1 = (s.store.newFunction f).1 ∧
      Simulates S μ { s with store := (s.store.newFunction f).2 }
        { l with objects := (l.objects.newFunction f').2 } := by
  have hx : s.store.Extends S.named (s.store.newFunction f).2 := .newFunction _ _
  have hid : (l.objects.newFunction f').1 = (s.store.newFunction f).1 :=
    congrArg FunctionId.mk h.objects.size
  refine ⟨hid, ⟨fun id => ?_, ?_, h.objects.natives, h.objects.classes, h.objects.instances⟩,
    h.vars.of_scopes rfl rfl rfl, h.depth, h.printed⟩
  · rw [Store.function?_newFunction, Store.function?_newFunction, hid]
    split
    · exact .some (hf.mono hx (.refl μ) (.refl _))
    · exact SameObjects.rel_mono (fun _ _ hr => hr.mono hx (.refl μ) (.refl _)) (h.objects.functions id)
  · simp [Store.newFunction, h.objects.size]

theorem newClass (h : Simulates S μ s l) (c : ClassObject) :
    (l.objects.newClass c).1 = (s.store.newClass c).1 ∧
      Simulates S μ { s with store := (s.store.newClass c).2 }
        { l with objects := (l.objects.newClass c).2 } := by
  have hx : s.store.Extends S.named (s.store.newClass c).2 := .newClass _ _
  refine ⟨by simp only [Store.newClass, h.objects.classes], ⟨fun id => ?_, h.objects.size,
    h.objects.natives, ?_, h.objects.instances⟩, h.vars.of_scopes rfl rfl rfl, h.depth, h.printed⟩
  · exact SameObjects.rel_mono (fun _ _ hr => hr.mono hx (.refl μ) (.refl _)) (h.objects.functions id)
  · simp only [Store.newClass, h.objects.classes]

theorem newInstance (h : Simulates S μ s l) (c : ClassId) :
    (l.objects.newInstance c).1 = (s.store.newInstance c).1 ∧
      Simulates S μ { s with store := (s.store.newInstance c).2 }
        { l with objects := (l.objects.newInstance c).2 } := by
  have hx : s.store.Extends S.named (s.store.newInstance c).2 := .newInstance _ _
  refine ⟨by simp only [Store.newInstance, h.objects.instances], ⟨fun id => ?_, h.objects.size,
    h.objects.natives, h.objects.classes, ?_⟩, h.vars.of_scopes rfl rfl rfl, h.depth, h.printed⟩
  · exact SameObjects.rel_mono (fun _ _ hr => hr.mono hx (.refl μ) (.refl _)) (h.objects.functions id)
  · simp only [Store.newInstance, h.objects.instances]

theorem setField (h : Simulates S μ s l) (i : InstanceId) (x : String) (v : Value) :
    Simulates S μ { s with store := s.store.setField i x v }
      { l with objects := l.objects.setField i x v } := by
  have hx : s.store.Extends S.named (s.store.setField i x v) := .setField _ _ _ _
  refine ⟨⟨fun id => ?_, h.objects.size, h.objects.natives, h.objects.classes, ?_⟩,
    h.vars.of_scopes rfl rfl rfl, h.depth, h.printed⟩
  · exact SameObjects.rel_mono (fun _ _ hr => hr.mono hx (.refl μ) (.refl _)) (h.objects.functions id)
  · simp only [Store.setField, h.objects.instances]

end Simulates

/-! ### Scopes that are made with names -/

/-- A map `ρ` with fresh locations for the names of a new scope, put around a map `ρ₀`. -/
structure Bound (ρ₀ : Env) (cells₀ : Array (Option Value)) (own : String → Option Location)
    (values : Bindings) (cells : Array (Option Value)) (ρ : Env) : Prop where
  inner : ρ ≠ .top
  find? : ∀ x, ρ.find? x = (own x).or (ρ₀.find? x)
  isSome : ∀ x, (own x).isSome = (values[x]?).isSome
  cell : ∀ x ℓ, own x = some ℓ → cells₀.size ≤ ℓ.index ∧ cells[ℓ.index]? = some values[x]?
  unique : ∀ x y ℓ, own x = some ℓ → own y = some ℓ → x = y
  old : ∀ i < cells₀.size, cells[i]? = cells₀[i]?
  size : cells₀.size ≤ cells.size

namespace Bound

variable {ρ₀ ρ : Env} {cells₀ cells : Array (Option Value)} {own : String → Option Location}
  {values : Bindings}

/-- A scope without names. -/
theorem enter (ρ₀ : Env) (cells₀ : Array (Option Value)) :
    Bound ρ₀ cells₀ (fun _ => none) ∅ cells₀ ρ₀.enter where
  inner := by simp [Env.enter]
  find? x := rfl
  isSome x := by simp
  cell x ℓ h := by cases h
  unique x y ℓ h := by cases h
  old i _ := rfl
  size := Nat.le_refl _

/-- One more name. -/
theorem insert (h : Bound ρ₀ cells₀ own values cells ρ) (x : String) (v : Value) :
    Bound ρ₀ cells₀ (fun y => if y = x then some ⟨cells.size⟩ else own y) (values.insert x v)
      (cells.push (some v)) (ρ.extend x ⟨cells.size⟩) := by
  have hlt : ∀ y ℓ, own y = some ℓ → ℓ.index < cells.size := fun y ℓ hl =>
    (Array.getElem?_eq_some_iff.1 (h.cell y ℓ hl).2).1
  refine ⟨by simp [Env.extend], fun y => ?_, fun y => ?_, fun y ℓ hl => ?_, fun y z ℓ hy hz => ?_,
    fun i hi => ?_, Nat.le_trans h.size (by simp)⟩
  · have hfind : (ρ.extend x ⟨cells.size⟩).find? y =
        if y = x then some ⟨cells.size⟩ else ρ.find? y := by
      by_cases hy : y = x
      · simp [Env.find?, Env.extend, Env.names, hy]
      · simp [Env.find?, Env.extend, Env.names, Std.ExtTreeMap.getElem?_insert, hy, Ne.symm hy]
    rw [hfind, h.find?]
    split <;> rfl
  · rw [Std.ExtTreeMap.getElem?_insert]
    by_cases hy : y = x
    · simp [hy]
    · simp [hy, Ne.symm hy, h.isSome]
  · rw [Std.ExtTreeMap.getElem?_insert]
    by_cases hy : y = x
    · rw [if_pos hy] at hl
      cases hl
      exact ⟨h.size, by simp [hy]⟩
    · rw [if_neg hy] at hl
      obtain ⟨hle, hcell⟩ := h.cell y ℓ hl
      refine ⟨hle, ?_⟩
      rw [Array.getElem?_push, if_neg (Nat.ne_of_lt (hlt y ℓ hl)), hcell]
      simp [Ne.symm hy]
  · split at hy <;> split at hz
    · rename_i hyx hzx
      exact hyx.trans hzx.symm
    · cases hy
      exact absurd (hlt z _ hz) (Nat.lt_irrefl _)
    · cases hz
      exact absurd (hlt y _ hy) (Nat.lt_irrefl _)
    · exact h.unique y z ℓ hy hz
  · rw [Array.getElem?_push, if_neg (by have := h.size; omega)]
    exact h.old i hi

/-- Parameters, from the first on. -/
theorem params (pairs : List (Token × Value)) : ∀ {own values l ρ},
    Bound ρ₀ cells₀ own values l.cells ρ → ∃ own' cells' ρ',
      Eval.bindParams ρ pairs l = .ok ρ' { l with cells := cells' } ∧
        Bound ρ₀ cells₀ own' (Run.bindParams values pairs) cells' ρ' := by
  induction pairs with
  | nil => exact fun h => ⟨_, _, _, rfl, h⟩
  | cons pair pairs ih =>
    intro own values l ρ h
    obtain ⟨own', cells', ρ', hl, h'⟩ := ih (l := { l with cells := l.cells.push (some pair.2) })
      (h.insert pair.1.lexeme pair.2)
    exact ⟨own', cells', ρ', hl, h'⟩

end Bound

/-- A new scope, in which the nesting has one more frame. -/
theorem Simulates.enter {f : Frame} {Γ : Nesting} {e : ScopeId} {ρ ρ' : Env}
    {own : String → Option Location} {cells : Array (Option Value)} (scope : Scope)
    (h : Simulates S μ s l)
    (hgl : S.context.globals.index < s.store.scopes.size)
    (hb : Bound ρ l.cells own scope.values cells ρ')
    (hn : SameNames μ anyName s.store Γ e ρ) (he : scope.enclosing = some e)
    (hf : ∀ x, f.has x = (scope.values[x]?).isSome) :
    ∃ μ', μ.Grows μ' ∧ μ.SameOn (inStore s.store) μ' ∧
      Simulates S μ' { s with store := (s.store.newScope scope).2 } { l with cells := cells } ∧
      SameScope μ' (s.store.newScope scope).2 (f :: Γ) (s.store.newScope scope).1 ρ' := by
  have hx : s.store.Extends S.named (s.store.newScope scope).2 := .newScope _ _
  have hnone : ∀ x, μ (s.store.newScope scope).1 x = none := fun x => by
    cases hl : μ (s.store.newScope scope).1 x with
    | none => rfl
    | some ℓ => exact absurd (h.vars.locals _ x ℓ hl).2 (Nat.lt_irrefl _)
  have hg : μ.Grows (μ.addScope (s.store.newScope scope).1 own) := .addScope hnone
  have hself : ∀ x, μ.addScope (s.store.newScope scope).1 own (s.store.newScope scope).1 x = own x :=
    fun x => if_pos rfl
  refine ⟨_, hg, fun e' he' => ?_, ⟨?_, ?_, h.depth, h.printed⟩, ?_, fun x hl => ?_⟩
  · funext x
    refine if_neg ?_
    rintro rfl
    exact Nat.lt_irrefl _ he'
  · exact h.objects.mono hx hg (.refl _) rfl rfl rfl rfl rfl
  · exact h.vars.newScope hgl hb.old hb.cell hb.unique (fun x hv => by rw [hb.isSome, hv]) rfl
  · refine (hn.mono hx hg).cons ?_ hb.inner (fun x _ hfx => ?_) fun x _ hfx => ?_
    · rw [Store.enclosing?_newScope_self, he]
    · rw [hf, ← hb.isSome] at hfx
      obtain ⟨ℓ, hℓ⟩ := Option.isSome_iff_exists.1 hfx
      exact ⟨ℓ, (hself x).trans hℓ, by rw [hb.find?, hℓ, Option.some_or]⟩
    · rw [hf, ← hb.isSome, Option.isSome_eq_false_iff, Option.isNone_iff_eq_none] at hfx
      rw [hb.find?, hfx, Option.none_or]
  · show f.has x = true
    rw [hf, ← hb.isSome, ← hself x]
    exact hl

end Lox.Lexical
