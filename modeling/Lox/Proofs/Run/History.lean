import Lox.Session
import Lox.Proofs.Run.Episodes

/-!
# The store between the runs

A new interpreter has the natives in its globals and nothing else.  From there on the store is right
whenever a run starts (`History.storeOk`), whatever the runs before did and however they ended.
-/

namespace Lox

/-! ### A new interpreter -/

/-- A store in which nothing but natives is bound. -/
structure Store.OnlyNatives (st : Store) : Prop where
  values : ∀ e x v, st.read? e x = some v → ∃ id, v = .native id
  fields : ∀ i x, st.field? i x = none
  classes : ∀ c, st.class? c = none
  functions : ∀ f, st.function? f = none

namespace Store.OnlyNatives

variable {st : Store}

theorem newNative (h : st.OnlyNatives) (n : NativeFunction) : (st.newNative n).2.OnlyNatives :=
  ⟨h.values, h.fields, h.classes, h.functions⟩

theorem define (h : st.OnlyNatives) (e : ScopeId) (x : String) (id : NativeId) :
    (st.define e x (.native id)).OnlyNatives := by
  refine ⟨fun t y v hv => ?_, h.fields, h.classes, h.functions⟩
  rw [read?_define] at hv
  split at hv
  · cases hv
    exact ⟨id, rfl⟩
  · exact h.values t y v hv

/-- Installing natives binds natives, and leaves the links between the scopes alone. -/
theorem install {r : NativeRegistry} {s : ScopeId} {names : List String} {unknown : Option String}
    {st' : Store} (h : st.OnlyNatives) (hi : r.install s names st = (unknown, st')) :
    st'.OnlyNatives ∧ st'.scopes.size = st.scopes.size ∧
      ∀ e, st'.enclosing? e = st.enclosing? e := by
  induction names generalizing st with
  | nil =>
    cases hi
    exact ⟨h, rfl, fun _ => rfl⟩
  | cons name rest ih =>
    rw [NativeRegistry.install] at hi
    split at hi
    · cases hi
      exact ⟨h, rfl, fun _ => rfl⟩
    · obtain ⟨ho, hs, he⟩ := ih ((h.newNative _).define s name _) hi
      refine ⟨ho, by rw [hs, size_define]; rfl, fun e => ?_⟩
      rw [he, enclosing?_define]
      rfl

end Store.OnlyNatives

/-- A new interpreter is at its globals, which are its only scope, and has no table yet. -/
theorem Interpreter.create_eq {registry : NativeRegistry} {config : Config} {i : Interpreter}
    (h : Interpreter.create registry config = .ok i) :
    ∃ st, registry.install ⟨0⟩ config.natives (({} : Store).newScope {}).2 = (none, st) ∧
      i = { config, globals := ⟨0⟩, store := st, scope := ⟨0⟩ } := by
  unfold create at h
  dsimp only at h
  split at h
  · cases h
  · rename_i st hi
    cases h
    exact ⟨st, hi, rfl⟩

/-- A new session has a new interpreter. -/
theorem Session.create_eq {registry : NativeRegistry} {config : Config} {s : Session}
    (h : Session.create registry config = .ok s) :
    ∃ i, Interpreter.create registry config = .ok i ∧ s = { interpreter := i } := by
  unfold create at h
  cases hi : Interpreter.create registry config with
  | error name =>
    rw [hi] at h
    cases h
  | ok i =>
    rw [hi] at h
    cases h
    exact ⟨i, rfl, rfl⟩

theorem Store.read?_newScope_empty (e : ScopeId) (x : String) :
    (({} : Store).newScope {}).2.read? e x = none := by
  rw [read?_newScope]
  split
  · simp
  · simp [read?, scope?]

theorem Store.onlyNatives_newScope : (({} : Store).newScope {}).2.OnlyNatives := by
  refine ⟨fun e x v hv => ?_, fun i x => ?_, fun c => ?_, fun f => ?_⟩
  · rw [read?_newScope_empty] at hv
    cases hv
  · simp [field?, instance?, newScope]
  · simp [class?, newScope]
  · simp [function?, newScope]

/-- A new interpreter has no functions. -/
theorem Interpreter.functions_of_create {registry : NativeRegistry} {config : Config} {i : Interpreter}
    (h : Interpreter.create registry config = .ok i) (P : FunctionDecl → Prop) :
    i.store.Functions P := by
  obtain ⟨st, hi, rfl⟩ := Interpreter.create_eq h
  intro id f hf
  rw [(Store.onlyNatives_newScope.install hi).1.functions] at hf
  cases hf

/-- The store of a new interpreter is right for every run. -/
theorem Interpreter.create_storeOk {S : Setting} {registry : NativeRegistry} {config : Config}
    {i : Interpreter} (h : Interpreter.create registry config = .ok i)
    (hg : S.context.globals = i.globals)
    (hglobal : ∀ x, (i.store.read? i.globals x).isSome → S.global x) : StoreOk S i.store := by
  obtain ⟨st, hi, rfl⟩ := Interpreter.create_eq h
  obtain ⟨ho, hs, he⟩ := Store.onlyNatives_newScope.install hi
  refine ⟨fun e x v hv => ?_, fun i x v hv => ?_, fun c cls x id hc => ?_, ?_, ?_, fun x hx => ?_⟩
  · obtain ⟨id, rfl⟩ := ho.values e x v hv
    exact .of_ne (fun _ h => by cases h) fun _ h => by cases h
  · rw [ho.fields] at hv
    cases hv
  · rw [ho.classes] at hc
    cases hc
  · rw [hg, hs]
    exact Nat.zero_lt_one
  · rw [hg, he]
    rfl
  · exact hglobal x (hg ▸ hx)

/-! ### The interpreter after a run -/

namespace Episode

variable {E : Episode} {report : Report} {i : Interpreter}

/-- A run that ends leaves the interpreter at rest, with the store of its last state. -/
inductive Ended (E : Episode) : Report → Interpreter → Prop
  | refused (hfits : E.interpreter.config.fitsStack = false) :
      Ended E ⟨.crashed .stackTooLarge, []⟩ E.ready.atRest
  | completed {s : RunState} (hfits : E.interpreter.config.fitsStack = true)
      (h : Action.throughout (execute E.context E.fuel) E.program E.ready.start = .ok () s) :
      Ended E ⟨.completed, s.printed.toList⟩ (E.ready.resume s).atRest
  | raised {fault : Fault} {s : RunState} (hfits : E.interpreter.config.fitsStack = true)
      (h : Action.throughout (execute E.context E.fuel) E.program E.ready.start = .raised fault s) :
      Ended E ⟨Interpreter.endingOf fault, s.printed.toList⟩ (E.ready.resume s).atRest

theorem ended_of_result? (h : E.result? = some (report, i)) : E.Ended report i := by
  unfold result? Interpreter.interpret at h
  dsimp only at h
  split at h
  · rename_i hfits
    split at h
    · rename_i hr
      cases h
      exact .completed hfits hr
    · rename_i hr
      cases h
      exact .raised hfits hr
    · cases h
  · rename_i hfits
    cases h
    exact .refused (eq_false_of_ne_true hfits)

theorem Ended.globals (h : E.Ended report i) : i.globals = E.interpreter.globals := by
  cases h <;> rfl

theorem Ended.config (h : E.Ended report i) : i.config = E.interpreter.config := by
  cases h <;> rfl

theorem Ended.table (h : E.Ended report i) :
    i.table = E.interpreter.table ∪ E.program.resolve.table := by
  cases h <;> rfl

theorem Ended.scope (h : E.Ended report i) : i.scope = i.globals := by
  cases h <;> rfl

theorem Ended.depth (h : E.Ended report i) : i.depth = 0 := by
  cases h <;> rfl

end Episode

/-! ### All runs -/

section History

variable {registry : NativeRegistry} {config : Config} {Es : List Episode} {E : Episode}
  {i : Interpreter} {clean : Prop} {discipline : Discipline}

theorem programs_append (Es : List Episode) (E : Episode) :
    programs (Es ++ [E]) = programs Es ++ [E.program] := by
  simp [programs]

/-- The table has the entries of all programs so far. -/
theorem History.isTableOf (h : History registry config Es i) : IsTableOf i.table (programs Es) := by
  induction h with
  | create h =>
    obtain ⟨_, -, rfl⟩ := Interpreter.create_eq h
    exact ⟨fun id d hd => by simp at hd, fun p hp => by cases hp⟩
  | interpret _ hr ih =>
    rw [(Episode.ended_of_result? hr).table, programs_append]
    exact ih.union _

theorem History.isTableOf_context (h : History registry config Es E.interpreter) :
    IsTableOf E.context.table (programs (Es ++ [E])) := by
  rw [programs_append]
  exact h.isTableOf.union _

/-- Between the runs the interpreter is back at the globals. -/
theorem History.scope (h : History registry config Es i) : i.scope = i.globals := by
  cases h with
  | create h =>
    obtain ⟨_, -, rfl⟩ := Interpreter.create_eq h
    rfl
  | interpret _ hr => exact (Episode.ended_of_result? hr).scope

/-- Between the runs no call is open. -/
theorem History.depth (h : History registry config Es i) : i.depth = 0 := by
  cases h with
  | create h =>
    obtain ⟨_, -, rfl⟩ := Interpreter.create_eq h
    rfl
  | interpret _ hr => exact (Episode.ended_of_result? hr).depth

theorem History.config_eq (h : History registry config Es i) : i.config = config := by
  induction h with
  | create h =>
    obtain ⟨_, -, rfl⟩ := Interpreter.create_eq h
    rfl
  | interpret _ hr ih => rw [(Episode.ended_of_result? hr).config, ih]

theorem Episode.Fits.mono {Es more : List Episode} (h : Fits clean more discipline) (hsub : Es ⊆ more) :
    Fits clean Es discipline :=
  ⟨h.distinct.mono (List.map_subset _ hsub), fun hc p hp => h.clean hc p (List.map_subset _ hsub hp)⟩

/-- What one run may rely on, the next one may rely on too. -/
theorem Episode.setting_leads {F : Episode} (hg : E.interpreter.globals = F.interpreter.globals)
    {hf : Fits clean (Es ++ [F]) discipline} {ht} {hf' : Fits clean (Es ++ [F] ++ [E]) discipline} {ht'} :
    (F.setting Es clean hf ht).Leads (E.setting (Es ++ [F]) clean hf' ht') where
  globals := hg
  declared := by
    rintro Γ f ⟨G, hG, hplace⟩
    exact ⟨G, List.mem_append_left _ hG, hplace⟩
  opened := by
    rintro e w ⟨G, hG, ho⟩
    exact ⟨G, List.mem_append_left _ hG, ho⟩
  sure := by
    intro o x hsure p hp
    refine hsure p ?_
    rw [programs_append]
    exact List.mem_append_left _ hp
  clean := id
  named := id

/-- Whatever the runs before did and however they ended, the store is right for the next one. -/
theorem History.storeOk (h : History registry config Es i) :
    ∀ (E : Episode) (_ : E.interpreter = i) (hf : Episode.Fits clean (Es ++ [E]) discipline)
      (ht : IsTableOf E.context.table (programs (Es ++ [E]))),
      StoreOk (E.setting Es clean hf ht) i.store := by
  induction h with
  | create h =>
    rintro E rfl hf ht
    exact Interpreter.create_storeOk h rfl fun x hx => .inl hx
  | @interpret Es F report i h hr ih =>
    rintro E rfl hf ht
    have hfits : Episode.Fits clean (Es ++ [F]) discipline := hf.mono (List.subset_append_left _ _)
    have htable := h.isTableOf_context
    have hstart := ih F rfl hfits htable
    have hend : StoreOk (F.setting Es clean hfits htable) E.interpreter.store := by
      generalize E.interpreter = i at hr
      cases Episode.ended_of_result? hr with
      | refused => exact hstart
      | completed hc hrun => exact ((Episode.run_safe hstart h.scope hc).of_ok hrun).1.store
      | raised hc hrun =>
        have hsafe := Episode.run_safe hstart h.scope hc
        rw [hrun] at hsafe
        exact hsafe.1.store
    have hg := (Episode.ended_of_result? hr).globals
    refine (Episode.setting_leads hg).storeOk hend fun x hx => .inl ?_
    rw [hg]
    exact hx

end History

end Lox
