import Lox.Proofs.Renaming.Stores

/-!
# Runs of a program and of the renamed program

Two runs from states that are alike up to the names end alike (`Outcome.Renamed`): with the same result, with
faults that differ only in names, or both without fuel, and again in states that are alike.  There is one
rule for each way to build a run, and then each operation of the evaluator is seen to keep to it.

The lines of two such states are the texts of the same values, under the old names and under the new ones.
Which value a line shows is said by a relation `P` between numbers of lines, stores and values, which is a
parameter here.
-/

namespace Lox

variable {ρ : Renaming} {P : Nat → Store → Value → Prop} {α β : Type} {K : α → Prop} {L : β → Prop}
  {s s' : RunState}

/-- The same fault up to names: an error of the same cause in the same line, a distance that does not fit
under the new name, or the very same fault. -/
inductive Fault.Renamed (ρ : Renaming) : Fault → Fault → Prop
  | error {e e' : RuntimeError} (hcause : e'.cause = e.cause) (hline : e'.token.line = e.token.line) :
      Renamed ρ (.error e) (.error e')
  | scope (fault : ScopeFault) : Renamed ρ (.scope fault) (.scope (fault.rename ρ))
  | same (fault : Fault) : Renamed ρ fault fault

/-- Lines that show the same values, under the old names and under the new ones. -/
structure ShowAlike (ρ : Renaming) (P : Nat → Store → Value → Prop) (lines lines' : List String) :
    Prop where
  length : lines'.length = lines.length
  each : ∀ (k : Nat) line line', lines[k]? = some line → lines'[k]? = some line' →
    ∃ st v, P k st v ∧ line = st.display v ∧ line' = st.displayAs ρ v

/-- The same state under other names. -/
structure RunState.Renamed (ρ : Renaming) (P : Nat → Store → Value → Prop) (s s' : RunState) :
    Prop where
  store : s.store.Renamed ρ s'.store
  scope : s'.scope = s.scope
  depth : s'.depth = s.depth
  lines : ShowAlike ρ P s.printed.toList s'.printed.toList

/-- Two runs that end alike: with the same result, which is as claimed, or with faults that differ only in
names, in states that are alike, or both without fuel. -/
inductive Outcome.Renamed (ρ : Renaming) (P : Nat → Store → Value → Prop) (K : α → Prop) :
    Outcome RunState α → Outcome RunState α → Prop
  | ok {a : α} {s s' : RunState} (ha : K a) (h : s.Renamed ρ P s') : Renamed ρ P K (.ok a s) (.ok a s')
  | raised {fault fault' : Fault} {s s' : RunState} (hfault : fault.Renamed ρ fault')
      (h : s.Renamed ρ P s') : Renamed ρ P K (.raised fault s) (.raised fault' s')
  | outOfFuel : Renamed ρ P K .outOfFuel .outOfFuel

/-- A statement does not return a scope. -/
def Completion.Ordinary (c : Completion) : Prop := ∀ v, c = .returned v → v.Ordinary

theorem Completion.ordinary_normal : Completion.normal.Ordinary := nofun

theorem Completion.ordinary_returned {v : Value} (hv : v.Ordinary) : (Completion.returned v).Ordinary := by
  rintro w ⟨⟩
  exact hv

/-- One more line. -/
theorem ShowAlike.concat {lines lines' : List String} (h : ShowAlike ρ P lines lines') {st : Store}
    {v : Value} (hP : P lines.length st v) :
    ShowAlike ρ P (lines ++ [st.display v]) (lines' ++ [st.displayAs ρ v]) := by
  refine ⟨by simp [h.length], fun k line line' hline hline' => ?_⟩
  by_cases hk : k < lines.length
  · rw [List.getElem?_append_left hk] at hline
    rw [List.getElem?_append_left (h.length ▸ hk)] at hline'
    exact h.each k line line' hline hline'
  · obtain ⟨hlt, -⟩ := List.getElem?_eq_some_iff.1 hline
    have hlast : k = lines.length := by
      simp only [List.length_append, List.length_singleton] at hlt
      omega
    subst hlast
    rw [List.getElem?_concat_length] at hline
    rw [← h.length, List.getElem?_concat_length] at hline'
    cases hline
    cases hline'
    exact ⟨st, v, hP, rfl, rfl⟩

namespace RunState.Renamed

theorem withStore (h : s.Renamed ρ P s') {st st' : Store} (hst : st.Renamed ρ st') :
    RunState.Renamed ρ P { s with store := st } { s' with store := st' } :=
  { h with store := hst }

theorem inScope (h : s.Renamed ρ P s') {e e' : ScopeId} (he : e' = e) :
    RunState.Renamed ρ P { s with scope := e } { s' with scope := e' } :=
  { h with scope := he }

theorem atDepth (h : s.Renamed ρ P s') {d d' : Nat} (hd : d' = d) :
    RunState.Renamed ρ P { s with depth := d } { s' with depth := d' } :=
  { h with depth := hd }

/-- A value is printed. -/
theorem print (h : s.Renamed ρ P s') {v : Value} (hv : v.Ordinary)
    (hP : P s.printed.size s.store v) :
    RunState.Renamed ρ P { s with printed := s.printed.push (s.store.display v) }
      { s' with printed := s'.printed.push (s'.store.display v) } := by
  refine { h with lines := ?_ }
  rw [Array.toList_push, Array.toList_push, h.store.display hv]
  exact h.lines.concat (by rwa [Array.length_toList])

end RunState.Renamed

namespace Outcome.Renamed

/-! ### Rules -/

theorem bind {x x' : Run α} {f f' : α → Run β} (hx : Renamed ρ P K (x s) (x' s'))
    (hf : ∀ a t t', x s = .ok a t → K a → t.Renamed ρ P t' → Renamed ρ P L (f a t) (f' a t')) :
    Renamed ρ P L ((x >>= f) s) ((x' >>= f') s') := by
  rw [Action.bind_apply, Action.bind_apply]
  generalize hxs : x s = o at hx
  generalize x' s' = o' at hx
  cases hx with
  | ok ha h => exact hf _ _ _ hxs ha h
  | raised hfault h => exact .raised hfault h
  | outOfFuel => exact .outOfFuel

theorem fail (h : s.Renamed ρ P s') (cause : RuntimeCause) {t t' : Token} (ht : t'.line = t.line) :
    Renamed ρ P K (Action.fail cause t s) (Action.fail cause t' s') :=
  .raised (.error rfl ht) h

theorem inScope {x x' : Run α} {e e' : ScopeId} (h : s.Renamed ρ P s')
    (hx : Renamed ρ P K (x { s with scope := e }) (x' { s' with scope := e' })) :
    Renamed ρ P K (Run.inScope e x s) (Run.inScope e' x' s') := by
  unfold Run.inScope
  generalize x { s with scope := e } = o at hx
  generalize x' { s' with scope := e' } = o' at hx
  cases hx with
  | ok ha ht => exact .ok ha (ht.inScope h.scope)
  | raised hfault ht => exact .raised hfault (ht.inScope h.scope)
  | outOfFuel => exact .outOfFuel

theorem deeper {x x' : Run α}
    (hx : Renamed ρ P K (x { s with depth := s.depth + 1 }) (x' { s' with depth := s'.depth + 1 })) :
    Renamed ρ P K (Run.deeper x s) (Run.deeper x' s') := by
  unfold Run.deeper
  generalize x { s with depth := s.depth + 1 } = o at hx
  generalize x' { s' with depth := s'.depth + 1 } = o' at hx
  cases hx with
  | ok ha ht => exact .ok ha (ht.atDepth (by rw [ht.depth]))
  | raised hfault ht => exact .raised hfault (ht.atDepth (by rw [ht.depth]))
  | outOfFuel => exact .outOfFuel

theorem currentScope (h : s.Renamed ρ P s') :
    Renamed ρ P (fun _ => True) (Run.currentScope s) (Run.currentScope s') := by
  show Renamed ρ P (fun _ => True) (.ok s.scope s) (.ok s'.scope s')
  rw [h.scope]
  exact .ok trivial h

/-- Something is made, with the same identity in both stores. -/
theorem alloc (h : s.Renamed ρ P s') {f f' : Store → α × Store}
    (hmade : (f' s'.store).1 = (f s.store).1 ∧ (f s.store).2.Renamed ρ (f' s'.store).2)
    (hK : K (f s.store).1) : Renamed ρ P K (Run.alloc f s) (Run.alloc f' s') := by
  show Renamed ρ P K (.ok (f s.store).1 _) (.ok (f' s'.store).1 _)
  rw [hmade.1]
  exact .ok hK (h.withStore hmade.2)

theorem ofScope (h : s.Renamed ρ P s') {x : Except ScopeFault α} (hK : ∀ a, x = .ok a → K a) :
    Renamed ρ P K (Run.ofScope x s) (Run.ofScope (x.mapError (ScopeFault.rename ρ)) s') := by
  cases x with
  | ok a => exact .ok (hK a rfl) h
  | error fault => exact .raised (.scope fault) h

theorem ofExcept (h : s.Renamed ρ P s') {x : Except Fault α} (hK : ∀ a, x = .ok a → K a) :
    Renamed ρ P K (Action.ofExcept x s) (Action.ofExcept x s') := by
  cases x with
  | ok a => exact .ok (hK a rfl) h
  | error fault => exact .raised (.same fault) h

/-! ### Lists -/

section Lists

variable {γ δ : Type} {g : γ → δ} {as : List γ}

/-- Runs over a list and over its image, if the empty ones end alike, and with those over some of the
elements the ones over one element more. -/
theorem prefixes {x : List γ → Run α} {x' : List δ → Run α} (hnil : Renamed ρ P K (x [] s) (x' [] s'))
    (hconcat : ∀ (i : Nat) a, as[i]? = some a →
      Renamed ρ P K (x (as.take i) s) (x' ((as.take i).map g) s') →
      Renamed ρ P K (x (as.take i ++ [a]) s) (x' ((as.take i).map g ++ [g a]) s')) :
    Renamed ρ P K (x as s) (x' (as.map g) s') := by
  have hall := List.take_induction (M := fun l => Renamed ρ P K (x l s) (x' (l.map g) s')) hnil
    (fun i a (ha : as[i]? = some a) hbefore => by
      rw [List.map_append, List.map_singleton]
      exact hconcat i a ha hbefore) as.length
  rwa [List.take_length] at hall

theorem collect {f : γ → Run Value} {f' : δ → Run Value} (h : s.Renamed ρ P s')
    (hf : ∀ (i : Nat) a vs t t', as[i]? = some a → Action.collect f (as.take i) s = .ok vs t →
      t.Renamed ρ P t' → Renamed ρ P Value.Ordinary (f a t) (f' (g a) t')) :
    Renamed ρ P (fun vs => ∀ v ∈ vs, v.Ordinary) (Action.collect f as s)
      (Action.collect f' (as.map g) s') := by
  refine prefixes (.ok nofun h) fun i a ha hbefore => ?_
  rw [Action.collect_concat, Action.collect_concat]
  refine hbefore.bind fun vs t t' hvs hold ht => (hf i a vs t t' ha hvs ht).bind
    fun v u u' _ hv hu => .ok (fun w hw => ?_) hu
  rcases List.mem_append.1 hw with hw | hw
  · exact hold w hw
  · exact List.mem_singleton.1 hw ▸ hv

theorem untilReturn {f : γ → Run Completion} {f' : δ → Run Completion} (h : s.Renamed ρ P s')
    (hf : ∀ (i : Nat) a t t', as[i]? = some a → Action.untilReturn f (as.take i) s = .ok .normal t →
      t.Renamed ρ P t' → Renamed ρ P Completion.Ordinary (f a t) (f' (g a) t')) :
    Renamed ρ P Completion.Ordinary (Action.untilReturn f as s)
      (Action.untilReturn f' (as.map g) s') := by
  refine prefixes (.ok Completion.ordinary_normal h) fun i a ha hbefore => ?_
  rw [Action.untilReturn_concat, Action.untilReturn_concat]
  refine hbefore.bind fun c t t' hc hold ht => ?_
  cases c with
  | normal => exact hf i a t t' ha hc ht
  | returned v => exact .ok hold ht

theorem throughout {f : γ → Run Completion} {f' : δ → Run Completion} (h : s.Renamed ρ P s')
    (hf : ∀ (i : Nat) a t t', as[i]? = some a → Action.throughout f (as.take i) s = .ok () t →
      t.Renamed ρ P t' → Renamed ρ P Completion.Ordinary (f a t) (f' (g a) t')) :
    Renamed ρ P (fun _ => True) (Action.throughout f as s) (Action.throughout f' (as.map g) s') := by
  refine prefixes (.ok trivial h) fun i a ha hbefore => ?_
  rw [Action.throughout_concat, Action.throughout_concat]
  exact hbefore.bind fun _ t t' hbs _ ht => (hf i a t t' ha hbs ht).bind
    fun c u u' _ _ hu => .ok trivial hu

end Lists

end Outcome.Renamed

/-! ### Names -/

theorem renamed_lookUp (h : s.Renamed ρ P s') (ctx : Context) (id : NodeId) (name : Token) :
    Outcome.Renamed ρ P Value.Ordinary (Run.lookUp ctx id name s)
      (Run.lookUp ctx id (name.rename ρ) s') := by
  cases hd : ctx.table[id]? with
  | some d =>
    rw [Run.lookUp_of_local hd, Run.lookUp_of_local hd, h.scope, name.lexeme_rename, h.store.getAt]
    exact .ofScope h fun v hv => h.store.ordinary_of_getAt hv
  | none =>
    have hv' : s'.store.get? ctx.globals (name.rename ρ).lexeme = s.store.get? ctx.globals name.lexeme := by
      rw [name.lexeme_rename, h.store.get?]
    cases hv : s.store.get? ctx.globals name.lexeme with
    | some v =>
      rw [Run.lookUp_of_global hd hv, Run.lookUp_of_global hd (hv'.trans hv)]
      exact .ok (h.store.ordinary_of_get? hv) h
    | none =>
      rw [Run.lookUp_of_undefined hd hv, Run.lookUp_of_undefined hd (hv'.trans hv)]
      exact .fail h .undefinedVariable name.line_rename

theorem renamed_define (h : s.Renamed ρ P s') (x : String) {v : Value} (hv : v.Ordinary) :
    Outcome.Renamed ρ P (fun _ => True) (Run.define x v s) (Run.define (ρ x) v s') := by
  refine .ok trivial (h.withStore ?_)
  rw [h.scope]
  exact h.store.define s.scope x hv

theorem renamed_assignedScope (h : s.Renamed ρ P s') (ctx : Context) (id : NodeId) (name : Token) :
    Outcome.Renamed ρ P (fun _ => True) (Run.assignedScope ctx id name s)
      (Run.assignedScope ctx id (name.rename ρ) s') := by
  cases hd : ctx.table[id]? with
  | some d =>
    rw [Run.assignedScope_of_local hd, Run.assignedScope_of_local hd, h.scope, h.store.scopeAt]
    cases s.store.scopeAt s.scope d with
    | ok e => exact .ok trivial h
    | error fault => exact .raised (.same _) h
  | none =>
    have he' : s'.store.owner? ctx.globals (name.rename ρ).lexeme =
        s.store.owner? ctx.globals name.lexeme := by
      rw [name.lexeme_rename, h.store.owner?]
    cases he : s.store.owner? ctx.globals name.lexeme with
    | some e =>
      rw [Run.assignedScope_of_global hd he, Run.assignedScope_of_global hd (he'.trans he)]
      exact .ok trivial h
    | none =>
      rw [Run.assignedScope_of_undefined hd he, Run.assignedScope_of_undefined hd (he'.trans he)]
      exact .fail h .undefinedVariable name.line_rename

theorem renamed_assign (h : s.Renamed ρ P s') (ctx : Context) (id : NodeId) (name : Token) {v : Value}
    (hv : v.Ordinary) :
    Outcome.Renamed ρ P (fun _ => True) (Run.assign ctx id name v s)
      (Run.assign ctx id (name.rename ρ) v s') :=
  (renamed_assignedScope h ctx id name).bind fun e _ _ _ _ ht =>
    .ok trivial (ht.withStore (ht.store.define e name.lexeme hv))

/-! ### Properties -/

/-- A method is bound to a value. -/
theorem renamed_bindValue (h : s.Renamed ρ P s') (f : FunctionObject) {this : Value}
    (hthis : this.Ordinary) :
    Outcome.Renamed ρ P Value.Ordinary (Run.alloc (·.bindValue f this) s)
      (Run.alloc (·.bindValue (f.rename ρ) this) s') :=
  .alloc h (h.store.bindValue f hthis) nofun

theorem renamed_getProperty (h : s.Renamed ρ P s') (i : InstanceId) (name : Token) :
    Outcome.Renamed ρ P Value.Ordinary (Run.getProperty i name s)
      (Run.getProperty i (name.rename ρ) s') := by
  unfold Run.getProperty
  rw [Run.ask_bind, Run.ask_bind, name.lexeme_rename, h.store.member?]
  cases hm : s.store.member? i name.lexeme with
  | none => exact .fail h .undefinedProperty name.line_rename
  | some m =>
    cases m with
    | field v => exact .ok (h.store.ordinary_of_member? hm) h
    | method f => exact renamed_bindValue h f nofun

theorem renamed_superMethod (h : s.Renamed ρ P s') (ctx : Context) (id : NodeId) (method : Token) :
    Outcome.Renamed ρ P Value.Ordinary (Run.superMethod ctx id method s)
      (Run.superMethod ctx id (method.rename ρ) s') := by
  unfold Run.superMethod
  cases ctx.table[id]? with
  | none => exact .raised (.same _) h
  | some d =>
    show Outcome.Renamed ρ P _ ((Run.currentScope >>= _) s) ((Run.currentScope >>= _) s')
    rw [Run.currentScope_bind, Run.ask_bind, Run.currentScope_bind, Run.ask_bind, h.scope,
      h.store.getAt_super]
    refine (Outcome.Renamed.ofScope h fun c hc => h.store.ordinary_of_getAt hc).bind
      fun superclass t t' _ _ ht => ?_
    rw [Run.ask_bind, Run.ask_bind, ht.store.getAt_this]
    refine (Outcome.Renamed.ofScope ht fun v hv => ht.store.ordinary_of_getAt hv).bind
      fun this u u' _ hthis hu => ?_
    cases superclass with
    | cls c =>
      show Outcome.Renamed ρ P _ ((Run.ask _ >>= _) u) ((Run.ask _ >>= _) u')
      rw [Run.ask_bind, Run.ask_bind, method.lexeme_rename, hu.store.method?]
      cases u.store.method? c method.lexeme with
      | some f => exact renamed_bindValue hu f hthis
      | none => exact .fail hu .undefinedProperty method.line_rename
    | _ => exact .raised (.same _) hu

/-! ### Calls -/

section Calls

variable {runBody runBody' : List Stmt → Run Completion} {vs : List Value}

theorem renamed_callFunction (h : s.Renamed ρ P s') (f : FunctionObject) (hvs : ∀ v ∈ vs, v.Ordinary)
    (hbody : ∀ scope t t', Run.enterFunction f vs s = .ok scope t → t.Renamed ρ P t' →
      Outcome.Renamed ρ P Completion.Ordinary (runBody f.declaration.body { t with scope := scope })
        (runBody' (f.rename ρ).declaration.body { t' with scope := scope })) :
    Outcome.Renamed ρ P Value.Ordinary (Run.callFunction runBody f vs s)
      (Run.callFunction runBody' (f.rename ρ) vs s') := by
  have henter : Outcome.Renamed ρ P (fun _ => True) (Run.enterFunction f vs s)
      (Run.enterFunction (f.rename ρ) vs s') := .alloc h (h.store.newCall f hvs) trivial
  refine henter.bind fun scope t t' he _ ht => ?_
  refine (Outcome.Renamed.inScope ht (hbody scope t t' he ht)).bind fun c u u' _ hc hu => ?_
  have hsame : (f.rename ρ).isInitializer = f.isInitializer := rfl
  rw [hsame]
  cases f.isInitializer with
  | true =>
    show Outcome.Renamed ρ P _ (Run.ofScope (u.store.getAt f.closure 0 "this") u)
      (Run.ofScope (u'.store.getAt f.closure 0 "this") u')
    rw [hu.store.getAt_this]
    exact .ofScope hu fun v hv => hu.store.ordinary_of_getAt hv
  | false =>
    cases c with
    | normal => exact .ok nofun hu
    | returned v => exact .ok (hc v rfl) hu

theorem renamed_invoke (h : s.Renamed ρ P s') (c : Callable) (hvs : ∀ v ∈ vs, v.Ordinary)
    (hbody : ∀ f t t', Starts vs c s f t → t.Renamed ρ P t' →
      Outcome.Renamed ρ P Completion.Ordinary (runBody f.declaration.body t)
        (runBody' (f.rename ρ).declaration.body t')) :
    Outcome.Renamed ρ P Value.Ordinary (Run.invoke runBody c vs s)
      (Run.invoke runBody' (c.rename ρ) vs s') := by
  cases c with
  | native n =>
    refine .ok ?_ h
    rcases n.apply_known vs with hmem | hplain
    · exact hvs _ hmem
    · exact Value.ordinary_of_isPlain hplain
  | function f =>
    exact renamed_callFunction h f hvs fun scope t t' he ht => hbody f _ _ (.function he) (ht.inScope rfl)
  | cls c =>
    obtain ⟨hid, hst⟩ := h.store.newInstance c
    show Outcome.Renamed ρ P _ ((Run.alloc _ >>= _) s) ((Run.alloc _ >>= _) s')
    rw [Run.alloc_bind, Run.ask_bind, Run.alloc_bind, Run.ask_bind, hst.initializer?, hid]
    cases hf : (s.store.newInstance c).2.initializer? c with
    | none => exact .ok nofun (h.withStore hst)
    | some f =>
      have hc : Constructs c s f _ _ := .mk rfl hf rfl
      have hthis : (Value.inst (s.store.newInstance c).1).Ordinary := nofun
      obtain ⟨hbound, hst'⟩ := hst.bind f hthis
      show Outcome.Renamed ρ P _ ((Run.alloc _ >>= _) _) ((Run.alloc _ >>= _) _)
      rw [Run.alloc_bind, Run.alloc_bind]
      dsimp only
      rw [hbound]
      exact (renamed_callFunction (h.withStore hst') _ hvs fun scope t t' he ht =>
        hbody _ _ _ (.construct hc he) (ht.inScope rfl)).bind fun v t t' _ _ ht => .ok nofun ht

theorem renamed_call (h : s.Renamed ρ P s') (ctx : Context) (paren : Token) (callee : Value)
    (hvs : ∀ v ∈ vs, v.Ordinary)
    (hbody : ∀ c, s.store.callable? callee = some c → vs.length = s.store.arity c →
      s.depth < ctx.maxDepth → ∀ f t t', Starts vs c { s with depth := s.depth + 1 } f t →
      t.Renamed ρ P t' → Outcome.Renamed ρ P Completion.Ordinary (runBody f.declaration.body t)
        (runBody' (f.rename ρ).declaration.body t')) :
    Outcome.Renamed ρ P Value.Ordinary (Run.call ctx runBody paren callee vs s)
      (Run.call ctx runBody' paren callee vs s') := by
  have hcallable := h.store.callable? callee
  cases hc : s.store.callable? callee with
  | none =>
    rw [hc] at hcallable
    rw [Run.call_of_not_callable hc, Run.call_of_not_callable hcallable]
    exact .fail h .notCallable rfl
  | some c =>
    rw [hc] at hcallable
    have hsame := h.store.arity c
    by_cases harity : (vs.length : Int) = s.store.arity c
    · have harity' := harity.trans hsame.symm
      by_cases hdepth : s.depth < ctx.maxDepth
      · rw [Run.call_of_applies hc harity hdepth,
          Run.call_of_applies hcallable harity' (by rwa [h.depth])]
        exact .deeper (renamed_invoke (h.atDepth (by rw [h.depth])) c hvs (hbody c hc harity hdepth))
      · have hdeep := Nat.le_of_not_lt hdepth
        rw [Run.call_of_overflow hc harity hdeep,
          Run.call_of_overflow hcallable harity' (by rwa [h.depth])]
        exact .fail h (.stackOverflow ctx.maxDepth) rfl
    · rw [Run.call_of_arity hc harity, Run.call_of_arity hcallable (by rwa [hsame]), hsame]
      exact .fail h (.arity _ _) rfl

end Calls

/-! ### Classes -/

theorem renamed_declareClass (h : s.Renamed ρ P s') (name : Token) (superclass : Option ClassId)
    (methods : List FunctionDecl) :
    Outcome.Renamed ρ P (fun _ => True) (Run.declareClass name superclass methods s)
      (Run.declareClass (name.rename ρ) superclass (FunctionDecl.renameAll ρ methods) s') := by
  cases he : (s.store.define s.scope name.lexeme .nil).methodScope s.scope superclass with
  | mk e st =>
    cases he' : (s'.store.define s'.scope (name.rename ρ).lexeme .nil).methodScope s'.scope superclass with
    | mk e' st' =>
      obtain ⟨rfl, hst⟩ : e' = e ∧ st.Renamed ρ st' := by
        have hscope := (h.store.define s.scope name.lexeme (v := .nil) nofun).methodScope s.scope superclass
        rwa [he, ← h.scope, ← name.lexeme_rename, he'] at hscope
      obtain ⟨hid, hmade⟩ := hst.makeClass name.lexeme superclass methods e'
      have howner := hmade.owner? s.scope name.lexeme
      rw [← h.scope] at howner
      rw [Run.declareClass_apply he, Run.declareClass_apply he',
        name.lexeme_rename, hid, howner, h.scope]
      cases (st.makeClass name.lexeme superclass methods e').2.owner? s.scope name.lexeme with
      | none => exact .raised (.error rfl name.line_rename) { h with store := hmade, scope := rfl }
      | some owner =>
        exact .ok trivial { h with store := hmade.define owner name.lexeme nofun, scope := rfl }

end Lox
