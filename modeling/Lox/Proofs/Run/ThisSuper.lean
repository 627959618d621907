import Lox.Proofs.Check
import Lox.Proofs.Scoping.Enclosing
import Lox.Proofs.Run.Receivers

/-!
# What `this` and `super` mean

A scope that is made when a method is bound holds its receiver for ever, an instance of the class that
declares the method or of one that inherits from it; and a scope that is made for a subclass holds its
superclass for ever.  In programs that break no static rule, the scope in which `this` is found is the
one that was made when the innermost method around was bound, however many functions and blocks are in
between and however much later a closure is called.  So `this` is the receiver of that method, and
`super` starts at the superclass of the class that owns it (`Episode.this_and_super`).
-/

namespace Lox

/-- A class declaration makes a class, from a superclass if there is one, with methods that close over
the scope. -/
inductive MakesClass (ctx : Context) (n : Nat) :
    Part → RunState → Option ClassId → ScopeId → ClassId → Prop
  | mk {id name superclass methods s c s₁ e st} (hc : Inherits ctx n superclass s c s₁)
      (he : (s₁.store.define s₁.scope name.lexeme .nil).methodScope s₁.scope c = (e, st)) :
      MakesClass ctx n (.stmt (.classDecl id name superclass methods)) s c e
        (st.makeClass name.lexeme c methods e).1

/-- A part of a program is run in a state while the innermost method around it runs for a receiver: so
many scopes out is that of a call of the method, and right outside of it the one that was made when the
method was bound to the receiver. -/
def RunsMethod (Es : List Episode) (t : Part) (s : RunState) (st : Store) (mid : FunctionId)
    (f : FunctionObject) (this : Value) : Prop :=
  MethodBound Es st mid f this ∧ ∃ F ∈ Es, ∃ a d call, F.program.part? a = some t ∧
    F.program.InnermostMethod a f.declaration ∧ s.store.ancestor? d s.scope = some call ∧
    (∃ G ∈ Es, G.Opened call (.call f.declaration.id)) ∧
    s.store.enclosing? call = some st.bindScope

/-- A method was bound to an instance of its class, or of a class that inherits from that, and the scope
that was made for it holds the instance for ever. -/
structure Receives (Es : List Episode) (st : Store) (mid : FunctionId) (f : FunctionObject)
    (i : InstanceId) : Prop where
  owned : ∃ k, st.Owns k mid
  isA : ∀ k, st.Owns k mid → st.IsA i k
  scope : ∀ st', Reached Es st' → st.bindScope.index < st'.scopes.size →
    st'.scope? st.bindScope = some { enclosing := some f.closure, values := {("this", .inst i)} }

/-- A class was made with a superclass, and the scope that was made for its methods holds the superclass
for ever. -/
structure Derives (Es : List Episode) (outer e : ScopeId) (c k : ClassId) : Prop where
  scope : ∀ st, Reached Es st → e.index < st.scopes.size →
    st.scope? e = some { enclosing := some outer, values := {("super", .cls c)} }
  made : ∀ st, Reached Es st → k.index < st.classes.size →
    ∃ cls, st.class? k = some cls ∧ cls.superclass = some c ∧
      ∀ (x : String) mid f, cls.methods[x]? = some mid → st.function? mid = some f → f.closure = e

theorem Store.exists_function {st : Store} {v : Value} {f : FunctionObject}
    (h : st.callable? v = some (.function f)) : ∃ id, st.function? id = some f := by
  cases v with
  | function id =>
    obtain ⟨g, hg, he⟩ := Option.map_eq_some_iff.1 h
    cases he
    exact ⟨id, hg⟩
  | native id => simp [callable?] at h
  | cls id => simp [callable?] at h
  | _ => cases h

theorem state_of_evaluate_var {ctx : Context} {n : Nat} {ref : VarRef} {s s' : RunState} {v : Value}
    (h : evaluate ctx n (.var ref) s = .ok v s') : s = s' := by
  cases n with
  | zero => cases h
  | succ n =>
    rcases Run.lookUp_cases ctx ref.id ref.name s with ⟨w, hw⟩ | ⟨fault, hf⟩
    · cases hw.symm.trans h
      rfl
    · cases hf.symm.trans h

namespace Permanent

variable {Es : List Episode} {last st st' : Store} {e : ScopeId}

/-- A scope that is made with a keyword binds the keyword for ever, and nothing else. -/
theorem keywordScope (hP : Permanent Es last) (hst : Reached Es st) (hst' : Reached Es st')
    {outer : ScopeId} {x : String} {v : Value} (hg : e ≠ ⟨0⟩) (hx : x = "this" ∨ x = "super")
    (he : st.scope? e = some { enclosing := some outer, values := {(x, v)} })
    (hlt : e.index < st'.scopes.size) :
    st'.scope? e = some { enclosing := some outer, values := {(x, v)} } := by
  have hread : st.read? e x = some v := by
    rw [Store.read?_of_scope? he, if_pos rfl]
  have hread' := hP.keyword hst hst' hg hx hread hlt
  have hok := hP.right st' hst'
  obtain ⟨outer', hscope⟩ :
      ∃ outer', st'.scope? e = some { enclosing := some outer', values := {(x, v)} } := by
    rcases hx with rfl | rfl
    · obtain ⟨-, -, -, m, -, -, -, -, hscope⟩ := hok.this e v hg hread'
      exact ⟨_, hscope⟩
    · exact hok.super e v hg hread'
  have hlink := hP.enclosing hst hst' (Store.enclosing?_of_scope? he) hlt
  rw [Store.enclosing?_of_scope? hscope] at hlink
  rw [hscope, Option.some.inj hlink]

/-- What is said of a bound method, where it was selected for its receiver. -/
theorem receives (hP : Permanent Es last) (hst : Reached Es st) (hst' : Reached Es st')
    {mid : FunctionId} {f : FunctionObject} {this : Value}
    (hscopes : st'.scopes = (st.bind f this).2.scopes) (hs : st.Selects ⟨0⟩ mid f this) :
    ∃ i, this = .inst i ∧ Receives Es st mid f i := by
  have hok := hP.right st hst
  obtain ⟨i, k, rfl, hisa, ho⟩ := hok.receiver hs
  have hne : st.bindScope ≠ ⟨0⟩ := fun he =>
    Nat.ne_of_gt hok.globals_lt (congrArg ScopeId.index he)
  have hscope : st'.scope? st.bindScope =
      some { enclosing := some f.closure, values := {("this", .inst i)} } :=
    (congrArg (·[st.bindScope.index]?) hscopes).trans
      ((Store.scope?_newScope ..).trans (if_pos rfl))
  exact ⟨i, rfl, ⟨k, ho⟩, fun k' ho' => hok.owner k k' mid ho ho' ▸ hisa,
    fun st'' hst'' hlt => hP.keywordScope hst' hst'' hne (.inl rfl) hscope hlt⟩

/-- The `super` around a bound method is the superclass of the class that owns the method. -/
theorem superclass_of_bound (hP : Permanent Es last) {mid : FunctionId} {f : FunctionObject}
    {this : Value} (hb : MethodBound Es st mid f this) {k c : ClassId} (ho : st.Owns k mid)
    (hst' : Reached Es st') (hne : f.closure ≠ ⟨0⟩)
    (hread : st'.read? f.closure "super" = some (.cls c)) :
    ∃ cls, st.class? k = some cls ∧ cls.superclass = some c := by
  have hst := hb.reached
  have hok := hP.right st hst
  obtain ⟨F, -, m, t, s, -, hb⟩ := hb
  obtain ⟨cls, hcls, x, hx⟩ := ho
  obtain ⟨f', hf', hsuper⟩ := hok.methods k cls x mid hcls hx
  obtain rfl := Option.some.inj (hb.function?.symm.trans hf')
  refine ⟨cls, hcls, ?_⟩
  have hsuper := hsuper.resolve_left hne
  rw [hP.keyword hst' hst hne (.inr rfl) hread (hok.closures mid f hf')] at hsuper
  obtain ⟨c', hc', he⟩ := Option.map_eq_some_iff.1 hsuper.symm
  cases he
  exact hc'

/-- A class that was made keeps its superclass, and its methods close over their scope for ever. -/
theorem class_of_makeClass (hP : Permanent Es last) {name : String} {c : Option ClassId}
    {fs : List FunctionDecl} (hmade : Reached Es (st.makeClass name c fs e).2)
    (hst' : Reached Es st') (hlt : (st.makeClass name c fs e).1.index < st'.classes.size) :
    ∃ cls, st'.class? (st.makeClass name c fs e).1 = some cls ∧ cls.superclass = c ∧
      ∀ (x : String) mid f, cls.methods[x]? = some mid → st'.function? mid = some f → f.closure = e := by
  have hkeeps := hP.keeps _ hmade
  have hold := hkeeps.classes _ _ ((Store.class?_newClass ..).trans (if_pos rfl))
  have hnow := (hP.keeps st' hst').classes _ _ (Array.getElem?_eq_getElem hlt)
  have hcls := Option.some.inj (hnow.symm.trans hold)
  refine ⟨_, Array.getElem?_eq_getElem hlt, congrArg ClassObject.superclass hcls, ?_⟩
  intro x mid f hx hf
  rw [hcls] at hx
  rcases Store.getElem?_newMethods e fs ∅ st hx with hx | ⟨-, g, hg, he⟩
  · simp at hx
  · have hf' := (hP.keeps st' hst').functions mid f hf
    obtain rfl := Option.some.inj (hf'.symm.trans (hkeeps.functions mid g hg))
    exact he

/-- What is said of a declaration with a superclass. -/
theorem derives (hP : Permanent Es last) {F : Episode} (hF : F ∈ Es) {m : Nat} {t : Part}
    {s : RunState} {id : NodeId} (hv : F.Visits (m + 1) t s)
    (ho : Opens F.context m t s e (.super id)) :
    ∃ c k, MakesClass F.context m t s (some c) e k ∧ Derives Es s.scope e c k := by
  cases ho with
  | @subclass _ name ref methods _ c s₁ _ _ _ h hd hs =>
    cases hd
    cases hs
    obtain rfl := state_of_evaluate_var h
    have hi : Inherits F.context m (some ref) s (some c) s := .of h
    have hreserved := hP.right _ ⟨F, hF, .before hv (.enclosed hi)⟩
    refine ⟨c, _, .mk hi rfl, fun st hst hlt => ?_, fun st hst hlt => ?_⟩
    · refine hP.keywordScope ⟨F, hF, .after hv (.enclosed hi)⟩ hst (fun he => ?_) (.inr rfl) ?_ hlt
      · exact Nat.ne_of_gt hreserved.globals_lt (congrArg ScopeId.index he)
      · exact (Store.scope?_newScope ..).trans (if_pos rfl)
    · exact hP.class_of_makeClass ⟨F, hF, .after hv (.made hi rfl)⟩ hst hlt

end Permanent

/-- A `this` in a program that breaks no static rule is looked up. -/
theorem Place.Fit.entry_this {named : Prop} {Γ : Nesting} {id : NodeId} {keyword : Token}
    (h : Place.Fit named ⟨Γ, .expr (.this id keyword)⟩) :
    Part.entry? Γ (.expr (.this id keyword)) = Γ.distance? keyword.lexeme := by
  have hv := h.violations
  cases hc : Γ.classKind with
  | none => simp [Place.violations, Part.violations, hc] at hv
  | plain => simp [Part.entry?, hc]
  | subclass => simp [Part.entry?, hc]

section

variable {registry : NativeRegistry} {config : Config} {Es : List Episode} {E : Episode}

namespace Episode

/-- A declaration with the identity of a method is the method. -/
theorem Declared.eq_method {all : List Episode} (hd : DistinctNodes (programs all)) {Γ : Nesting}
    {f g : FunctionDecl} {F : Episode} {a : Address} (h : E.Declared Es Γ f) (hsub : Es ++ [E] ⊆ all)
    (hF : F ∈ all) (ha : F.program.part? a = some (.method g)) (hid : f.id = g.id) : f = g := by
  obtain ⟨G, hG, b, P, hb, hP⟩ := h
  have hpart : P.part.id? = some g.id := by
    rcases hP with ⟨hp, -⟩ | ⟨hp, -⟩ <;> rw [hp, ← hid] <;> rfl
  obtain ⟨-, -, he⟩ := hd.part_unique (List.mem_map_of_mem (hsub hG)) (List.mem_map_of_mem hF)
    (Program.part?_of_place? hb) ha hpart rfl
  rcases hP with ⟨hp, -⟩ | ⟨hp, -⟩
  · cases hp.symm.trans he
  · cases hp.symm.trans he
    rfl

variable (hd : DistinctNodes (programs (Es ++ [E]))) (h : History registry config Es E.interpreter)
  {last : Store} (hP : Permanent (Es ++ [E]) last)

include hd h hP

/-- The receiver of a method that is bound, and what is said of it. -/
theorem receives_of_binds (hw : ∀ p ∈ programs (Es ++ [E]), p.WellNamed) {F : Episode}
    (hF : F ∈ Es ++ [E]) {m : Nat} {t : Part} {s : RunState} {st : Store} {mid : FunctionId}
    {f : FunctionObject} {this : Value} (hv : F.Visits (m + 1) t s)
    (hb : BindsMethod F.context m t s st mid f this) :
    ∃ i, this = .inst i ∧ Receives (Es ++ [E]) st mid f i := by
  obtain ⟨Fs, hp, hg, _, _, Γ, hat⟩ := at_of_mem hd h hF hv
  have hs := selects_of_binds (fun p hmem => hw p (List.map_subset _ hp.subset hmem)) hat hb
  rw [hg] at hs
  obtain ⟨st', hc, hscopes⟩ := hb.changes
  exact hP.receives ⟨F, hF, .before hv hc⟩ ⟨F, hF, .after hv hc⟩ hscopes hs

/-- A call in a scope with `this` is that of a method, which was bound in this scope. -/
theorem bound_of_call {G : Episode} (hG : G ∈ Es ++ [E]) {call e : ScopeId} {id : NodeId}
    (hopened : G.Opened call (.call id)) {st : Store} (hst : Reached (Es ++ [E]) st)
    (hlink : st.enclosing? call = some e) (he : e ≠ ⟨0⟩) {v : Value}
    (hthis : st.read? e "this" = some v) :
    ∃ st₀ mid f this, MethodBound (Es ++ [E]) st₀ mid f this ∧ e = st₀.bindScope ∧
      f.declaration.id = id ∧
      ∃ Fs Γ, Fs ++ [G] <+: Es ++ [E] ∧ G.Declared Fs Γ f.declaration := by
  obtain ⟨m, t, s, hv, ho⟩ := hopened
  obtain ⟨Fs, hp, -, _, _, Γ, hat⟩ := at_of_mem hd h hG hv
  -- the scope around the call is the one the function closes over
  have hclosure : ∀ {st₁ : Store} {scope : Scope} {f : FunctionObject},
      call = (st₁.newScope scope).1 → scope.enclosing = some f.closure →
      Changes G.context m t s st₁ (st₁.newScope scope).2 → e = f.closure := by
    rintro st₁ scope f rfl hscope hc
    have hlink' := hP.enclosing ⟨G, hG, .after hv hc⟩ hst
      ((Store.enclosing?_newScope_self ..).trans hscope) (Store.lt_of_enclosing? hlink)
    exact Option.some.inj (hlink.symm.trans hlink')
  cases ho with
  | @call _ _ _ _ _ c vs s₁ f s₂ ha hs =>
    obtain ⟨-, -, -, Δ, hdecl, -⟩ := (ha.callOk (sound m) hat hv.opensOk).starts hs
    cases hs with
    | function henter =>
      cases henter
      have hreached : Reached (Es ++ [E]) s₁.store := ⟨G, hG, .before hv (.entered ha)⟩
      obtain rfl := hclosure rfl rfl (.entered ha)
      obtain ⟨fid, hf⟩ : ∃ fid, s₁.store.function? fid = some f := by
        cases ha with
        | mk _ _ hc => exact Store.exists_function hc
      have hok := hP.right _ hreached
      have hread := hP.keyword hst hreached he (.inl rfl) hthis (hok.closures fid f hf)
      obtain ⟨st₀, mid, g, this, hb, hscope, hg⟩ := hok.bound fid f hf he (hread ▸ rfl)
      exact ⟨st₀, mid, g, this, hb, hscope, hg ▸ rfl, Fs, Δ, hp, hg ▸ hdecl⟩
    | construct hc henter =>
      cases henter
      have hbound : e = f.closure := hclosure rfl rfl (.enteredInitializer ha hc)
      cases hc with
      | mk hi hf hg =>
        cases hi
        cases hg
        obtain ⟨mid, hm, hf⟩ := Option.bind_eq_some_iff.1 hf
        exact ⟨_, mid, _, _, ⟨G, hG, m, _, s, hv, .initialized ha hm hf⟩, hbound, rfl, Fs, Δ, hp,
          hdecl⟩

variable (hw : ∀ p ∈ programs (Es ++ [E]), p.WellNamed) {hf : Fits True (Es ++ [E]) .named}
  {ht : IsTableOf E.context.table (programs (Es ++ [E]))} {Γ : Nesting} {t : Part} {s : RunState}
  {m d : Nat}

include hw

/-- The scope in which `this` is found is that of the innermost method around, which was bound in it. -/
theorem runsMethod (hv : E.Visits m t s) (hat : At (E.setting Es True hf ht) Γ t s)
    (hm : ∀ f, t ≠ .method f) (huse : t.mayUse "this") (hdist : Γ.distance? "this" = some d)
    (hready : ∃ f, Γ[d]? = some f ∧ f.ready? "this" = some true) :
    ∃ st mid f i, RunsMethod (Es ++ [E]) t s st mid f (.inst i) ∧ Receives (Es ++ [E]) st mid f i ∧
      s.store.ancestor? d s.scope = some st.bindScope ∧
      s.store.scope? st.bindScope =
        some { enclosing := some f.closure, values := {("this", .inst i)} } := by
  have hst : Reached (Es ++ [E]) s.store := ⟨E, by simp, .visit hv⟩
  obtain ⟨F, hF, a, ha, -, -⟩ := hat.known
  obtain ⟨k, g, rfl, hinner, hopener⟩ :=
    Program.innermostMethod_of_distance (hw _ (List.mem_map_of_mem hF)) ha hm hdist
  obtain ⟨fr, hfr, hr⟩ := hready
  obtain ⟨e, he, hact⟩ := hat.mirrors.ancestor hfr
  obtain ⟨fc, hfc, hoc⟩ : ∃ fc : Frame, Γ[k]? = some fc ∧ fc.opener = .function g.id := by
    rw [List.getElem?_map] at hopener
    exact Option.map_eq_some_iff.1 hopener
  obtain ⟨call, hcall, hcact⟩ := hat.mirrors.ancestor hfc
  obtain ⟨G, hG, hopened⟩ : ∃ G ∈ Es ++ [E], G.Opened call (.call g.id) := by
    obtain ⟨w, ⟨G, hG, hopened⟩, how⟩ := hcact.opened
    rw [hoc] at how
    cases w with
    | call id =>
      obtain rfl : g.id = id := how
      exact ⟨G, hG, hopened⟩
    | _ => cases how
  have hlink := Store.ancestor?_succ hcall he
  obtain ⟨v, hread⟩ := Option.isSome_iff_exists.1
    (hact.bound trivial "this" ((E.setting Es True hf ht).sure_this trivial _) huse hr)
  have hne : e ≠ ⟨0⟩ := h.globals ▸ hact.ne_globals
  obtain ⟨st, mid, f, this, hb, rfl, hid, Fs, Δ, hp, hdecl⟩ :=
    bound_of_call hd h hP hG hopened hst hlink hne hread
  obtain rfl : f.declaration = g := by
    obtain ⟨b, -, hg, -⟩ := hinner
    exact hdecl.eq_method hd hp.subset hF hg hid
  obtain ⟨i, rfl, hrec⟩ : ∃ i, this = .inst i ∧ Receives (Es ++ [E]) st mid f i := by
    obtain ⟨F', hF', m', t', s', hv', hb'⟩ := hb
    exact receives_of_binds hd h hP hw hF' hv' hb'
  have hruns : RunsMethod (Es ++ [E]) t s st mid f (.inst i) :=
    ⟨hb, F, hF, a, k, call, Program.part?_of_place? ha, hinner, hcall, ⟨G, hG, hopened⟩, hlink⟩
  exact ⟨st, mid, f, i, hruns, hrec, he, hrec.scope _ hst (Store.lt_of_read? hread)⟩

/-- A `this` is the receiver of the innermost method around it. -/
theorem evaluate_this {id : NodeId} {keyword : Token}
    (hv : E.Visits (m + 1) (.expr (.this id keyword)) s)
    (hat : At (E.setting Es True hf ht) Γ (.expr (.this id keyword)) s) :
    ∃ st mid f i, RunsMethod (Es ++ [E]) (.expr (.this id keyword)) s st mid f (.inst i) ∧
      evaluate E.context (m + 1) (.this id keyword) s = .ok (.inst i) s := by
  have hfit := (E.setting Es True hf ht).fit trivial hat.known
  have hkeyword : keyword.lexeme = "this" := hfit.wellNamed trivial
  obtain ⟨d, fr, hdist, hfr, hr⟩ := hfit.ready_this trivial
  obtain ⟨st, mid, f, i, hruns, -, he, hscope⟩ :=
    runsMethod hd h hP hw hv hat nofun trivial hdist ⟨fr, hfr, hr⟩
  refine ⟨st, mid, f, i, hruns, ?_⟩
  have htable : E.context.table[id]? = some d := by
    refine (Setting.table_eq _ hat.known rfl).trans ?_
    rw [hfit.entry_this, hkeyword, hdist]
  have hread : s.store.getAt s.scope d "this" = .ok (.inst i) := by
    refine Store.getAt_of_read? he ?_
    rw [Store.read?_of_scope? hscope, if_pos rfl]
  show Run.lookUp E.context id keyword s = _
  rw [Run.lookUp_of_local htable, hkeyword, hread]
  rfl

/-- A `super` starts at the superclass of the class that declares the innermost method around it, and
binds what it finds to the receiver of the method. -/
theorem evaluate_super {id : NodeId} {keyword method : Token}
    (hv : E.Visits (m + 1) (.expr (.super id keyword method)) s)
    (hat : At (E.setting Es True hf ht) Γ (.expr (.super id keyword method)) s) :
    ∃ st mid f i k cls c,
      RunsMethod (Es ++ [E]) (.expr (.super id keyword method)) s st mid f (.inst i) ∧
      st.Owns k mid ∧ st.class? k = some cls ∧ cls.superclass = some c ∧
      ((∃ g, s.store.method? c method.lexeme = some g ∧
        evaluate E.context (m + 1) (.super id keyword method) s =
          .ok (s.store.bindValue g (.inst i)).1
            { s with store := (s.store.bindValue g (.inst i)).2 }) ∨
      s.store.method? c method.lexeme = none ∧ ∃ e : RuntimeError, e.cause.code = "E403" ∧
        e.token = method ∧
        evaluate E.context (m + 1) (.super id keyword method) s = .raised (.error e) s) := by
  have hst : Reached (Es ++ [E]) s.store := ⟨E, by simp, .visit hv⟩
  have hfit := (E.setting Es True hf ht).fit trivial hat.known
  have hkeyword : keyword.lexeme = "super" := hfit.wellNamed trivial
  obtain ⟨d, fsuper, fthis, id', hsuper, hfs, hop, hft, hr, hdist⟩ := hfit.ready_super trivial
  obtain ⟨st, mid, f, i, hruns, hrec, he, hscope⟩ :=
    runsMethod hd h hP hw hv hat nofun trivial hdist ⟨fthis, hft, hr⟩
  -- the scope around that with `this` holds a class
  obtain ⟨e, hesuper, hact⟩ := hat.mirrors.ancestor hfs
  obtain ⟨c, hc⟩ := hact.holds trivial id' hop
  obtain rfl : e = f.closure := by
    have hlink := Store.ancestor?_succ he hesuper
    rw [Store.enclosing?_of_scope? hscope] at hlink
    exact (Option.some.inj hlink).symm
  obtain ⟨k, howns⟩ := hrec.owned
  obtain ⟨cls, hcls, hsuperclass⟩ := hP.superclass_of_bound hruns.1 howns hst
    (h.globals ▸ hact.ne_globals) hc
  refine ⟨st, mid, f, i, k, cls, c, hruns, howns, hcls, hsuperclass, ?_⟩
  have htable : E.context.table[id]? = some (d + 1) := by
    refine (Setting.table_eq _ hat.known rfl).trans ?_
    show Γ.distance? keyword.lexeme = _
    rw [hkeyword, hsuper]
  have hclass : s.store.getAt s.scope ((d + 1 : Nat) : Int) "super" = .ok (.cls c) :=
    Store.getAt_of_read? hesuper hc
  have hinst : s.store.getAt s.scope (((d + 1 : Nat) : Int) - 1) "this" = .ok (.inst i) := by
    have hd : ((d + 1 : Nat) : Int) - 1 = (d : Int) := by omega
    rw [hd]
    refine Store.getAt_of_read? he ?_
    rw [Store.read?_of_scope? hscope, if_pos rfl]
  cases hm : s.store.method? c method.lexeme with
  | some g => exact .inl ⟨g, rfl, Run.superMethod_of_found htable hclass hinst hm⟩
  | none => exact .inr ⟨rfl, _, rfl, rfl, Run.superMethod_of_missing htable hclass hinst hm⟩

end Episode

/-- The runs of well-named programs, one after the other: each method that is bound is bound to an
instance of its class or of one that inherits from it, and each scope that is made for a method or for
a subclass holds its receiver or its superclass for ever, and nothing else.  If the programs break no
static rule, then wherever a `this` is evaluated, it is the receiver of the innermost method around it;
and wherever a `super` is evaluated, the superclass of the class that owns this method is searched, and
what is found there is bound to the receiver. -/
theorem Episode.this_and_super (h : History registry config Es E.interpreter)
    (hd : DistinctNodes (programs (Es ++ [E]))) (hw : ∀ p ∈ programs (Es ++ [E]), p.WellNamed) :
    (∀ F ∈ Es ++ [E], ∀ m t s, F.Visits (m + 1) t s →
      (∀ e id, Opens F.context m t s e (.bind id) → ∃ st mid f this,
        BindsMethod F.context m t s st mid f this ∧ e = st.bindScope ∧ id = f.declaration.id) ∧
      (∀ st mid f this, BindsMethod F.context m t s st mid f this →
        ∃ i, this = .inst i ∧ Receives (Es ++ [E]) st mid f i) ∧
      ∀ e id, Opens F.context m t s e (.super id) →
        ∃ c k, MakesClass F.context m t s (some c) e k ∧ Derives (Es ++ [E]) s.scope e c k) ∧
    ((∀ p ∈ programs (Es ++ [E]), p.resolve.hasErrors = false) → ∀ m s id keyword,
      (E.Visits (m + 1) (.expr (.this id keyword)) s → ∃ st mid f i,
        RunsMethod (Es ++ [E]) (.expr (.this id keyword)) s st mid f (.inst i) ∧
        evaluate E.context (m + 1) (.this id keyword) s = .ok (.inst i) s) ∧
      ∀ method, E.Visits (m + 1) (.expr (.super id keyword method)) s → ∃ st mid f i k cls c,
        RunsMethod (Es ++ [E]) (.expr (.super id keyword method)) s st mid f (.inst i) ∧
        st.Owns k mid ∧ st.class? k = some cls ∧ cls.superclass = some c ∧
        ((∃ g, s.store.method? c method.lexeme = some g ∧
          evaluate E.context (m + 1) (.super id keyword method) s =
            .ok (s.store.bindValue g (.inst i)).1
              { s with store := (s.store.bindValue g (.inst i)).2 }) ∨
        s.store.method? c method.lexeme = none ∧ ∃ e : RuntimeError, e.cause.code = "E403" ∧
          e.token = method ∧
          evaluate E.context (m + 1) (.super id keyword method) s = .raised (.error e) s)) := by
  obtain ⟨last, hP⟩ := Episode.exists_permanent hd hw h
  refine ⟨fun F hF m t s hv => ⟨fun e id ho => ho.bindsMethod, fun st mid f this hb => ?_,
    fun e id ho => hP.derives hF hv ho⟩, fun he m s id keyword => ?_⟩
  · exact Episode.receives_of_binds hd h hP hw hF hv hb
  · have hf : Episode.Fits True (Es ++ [E]) .named := ⟨hd, fun _ p hp => ⟨hw p hp, he p hp⟩⟩
    have hs := h.storeOk E rfl hf h.isTableOf_context
    refine ⟨fun hv => ?_, fun method hv => ?_⟩
    · obtain ⟨Γ, hat⟩ := Episode.at_of_visits hs h.scope hv
      exact Episode.evaluate_this hd h hP hw hv hat
    · obtain ⟨Γ, hat⟩ := Episode.at_of_visits hs h.scope hv
      exact Episode.evaluate_super hd h hP hw hv hat

end

/-- A method that returns its receiver. -/
def FunctionDecl.receiver : FunctionDecl :=
  ⟨1, ⟨.identifier, "m", .nil, 1⟩, [],
    [.ret 2 ⟨.kwReturn, "return", .nil, 1⟩ (some (.this 3 ⟨.kwThis, "this", .nil, 1⟩))]⟩

/-- A function that calls the method of the superclass. -/
def FunctionDecl.callsSuper : FunctionDecl :=
  ⟨4, ⟨.identifier, "g", .nil, 2⟩, [],
    [.ret 5 ⟨.kwReturn, "return", .nil, 2⟩ (some
      (.call 6 (.super 7 ⟨.kwSuper, "super", .nil, 2⟩ ⟨.identifier, "m", .nil, 2⟩)
        ⟨.rightParen, ")", .nil, 2⟩ []))]⟩

/-- A method that returns the function. -/
def FunctionDecl.later : FunctionDecl :=
  ⟨8, ⟨.identifier, "m", .nil, 2⟩, [],
    [.function .callsSuper,
     .ret 9 ⟨.kwReturn, "return", .nil, 3⟩ (some (.var ⟨10, ⟨.identifier, "g", .nil, 3⟩⟩))]⟩

/-- A class with the method that returns its receiver. -/
def Stmt.receiverClass : Stmt := .classDecl 11 ⟨.identifier, "A", .nil, 1⟩ none [.receiver]

/-- A class that inherits from it, with the method that returns the function. -/
def Stmt.laterClass : Stmt :=
  .classDecl 12 ⟨.identifier, "B", .nil, 2⟩ (some ⟨13, ⟨.identifier, "A", .nil, 2⟩⟩) [.later]

/-- The method of a new instance. -/
def Expr.laterMethod : Expr :=
  .get 17 (.call 18 (.var ⟨19, ⟨.identifier, "B", .nil, 4⟩⟩) ⟨.rightParen, ")", .nil, 4⟩ [])
    ⟨.identifier, "m", .nil, 4⟩

/-- Two classes, and a call of the function when the method that returns it is over. -/
def Program.laterSuper : Program :=
  [.receiverClass, .laterClass,
   .expression 14 (.call 15 (.call 16 .laterMethod ⟨.rightParen, ")", .nil, 4⟩ [])
    ⟨.rightParen, ")", .nil, 4⟩ [])]

/-- The program, as the first one of an interpreter. -/
def Episode.laterSuper : Episode where
  interpreter := {
    config := { natives := [], maxCallDepth_pos := Config.defaultDepth_pos }
    globals := ⟨0⟩
    store := (({} : Store).newScope {}).2
    scope := ⟨0⟩ }
  program := .laterSuper
  fuel := 12

/-! The states of its run: with the first class, with both, with the method bound to the instance, and
with the function that the method returns. -/

def RunState.receiverClass : RunState where
  store := {
    scopes := #[{ values := {("A", .cls ⟨0⟩)} }]
    functions := #[⟨.receiver, ⟨0⟩, false⟩]
    classes := #[⟨"A", none, {("m", ⟨0⟩)}⟩] }
  scope := ⟨0⟩

def RunState.laterClass : RunState where
  store := {
    scopes := #[{ values := {("B", .cls ⟨1⟩), ("A", .cls ⟨0⟩)} },
      { enclosing := some ⟨0⟩, values := {("super", .cls ⟨0⟩)} }]
    functions := #[⟨.receiver, ⟨0⟩, false⟩, ⟨.later, ⟨1⟩, false⟩]
    classes := #[⟨"A", none, {("m", ⟨0⟩)}⟩, ⟨"B", some ⟨0⟩, {("m", ⟨1⟩)}⟩] }
  scope := ⟨0⟩

def RunState.laterBound : RunState where
  store := {
    scopes := #[{ values := {("B", .cls ⟨1⟩), ("A", .cls ⟨0⟩)} },
      { enclosing := some ⟨0⟩, values := {("super", .cls ⟨0⟩)} },
      { enclosing := some ⟨1⟩, values := {("this", .inst ⟨0⟩)} }]
    functions := #[⟨.receiver, ⟨0⟩, false⟩, ⟨.later, ⟨1⟩, false⟩, ⟨.later, ⟨2⟩, false⟩]
    classes := #[⟨"A", none, {("m", ⟨0⟩)}⟩, ⟨"B", some ⟨0⟩, {("m", ⟨1⟩)}⟩]
    instances := #[{ cls := ⟨1⟩ }] }
  scope := ⟨0⟩

def RunState.laterReturned : RunState where
  store := {
    scopes := #[{ values := {("B", .cls ⟨1⟩), ("A", .cls ⟨0⟩)} },
      { enclosing := some ⟨0⟩, values := {("super", .cls ⟨0⟩)} },
      { enclosing := some ⟨1⟩, values := {("this", .inst ⟨0⟩)} },
      { enclosing := some ⟨2⟩, values := {("g", .function ⟨3⟩)} }]
    functions := #[⟨.receiver, ⟨0⟩, false⟩, ⟨.later, ⟨1⟩, false⟩, ⟨.later, ⟨2⟩, false⟩,
      ⟨.callsSuper, ⟨3⟩, false⟩]
    classes := #[⟨"A", none, {("m", ⟨0⟩)}⟩, ⟨"B", some ⟨0⟩, {("m", ⟨1⟩)}⟩]
    instances := #[{ cls := ⟨1⟩ }] }
  scope := ⟨0⟩

theorem Episode.laterSuper_classes : Action.throughout (execute laterSuper.context laterSuper.fuel)
    (laterSuper.program.take 2) laterSuper.ready.start = .ok () .laterClass := by
  have hfirst : execute laterSuper.context 12 .receiverClass laterSuper.ready.start =
      .ok .normal .receiverClass := rfl
  have hsecond : execute laterSuper.context 12 .laterClass .receiverClass =
      .ok .normal .laterClass := rfl
  show (execute laterSuper.context 12 .receiverClass >>= _) _ = _
  rw [Action.bind_apply, hfirst]
  show (execute laterSuper.context 12 .laterClass >>= _) _ = _
  rw [Action.bind_apply, hsecond]
  rfl

theorem Episode.laterSuper_returned :
    evaluate laterSuper.context 10 (.call 16 .laterMethod ⟨.rightParen, ")", .nil, 4⟩ []) .laterClass =
      .ok (.function ⟨3⟩) .laterReturned := by
  have hbound : evaluate laterSuper.context 9 .laterMethod .laterClass =
      .ok (.function ⟨2⟩) .laterBound := rfl
  show (evaluate laterSuper.context 9 .laterMethod >>= _) _ = _
  rw [Action.bind_apply, hbound]
  rfl

/-- The call of the method of the superclass. -/
def Expr.laterSuper : Expr :=
  .super 7 ⟨.kwSuper, "super", .nil, 2⟩ ⟨.identifier, "m", .nil, 2⟩

/-- When the function is called, the method that made it is over.  Yet its `super` starts at the
superclass, and what it finds is bound to the receiver that the method had. -/
theorem Episode.laterSuper_evaluates :
    History {} { natives := [] } [] laterSuper.interpreter ∧
      DistinctNodes (programs [laterSuper]) ∧
      (∀ p ∈ programs [laterSuper], p.WellNamed) ∧
      (∀ p ∈ programs [laterSuper], p.resolve.hasErrors = false) ∧
      ∃ s, laterSuper.Visits 8 (.expr .laterSuper) s ∧ ∃ st mid f i k cls c,
        RunsMethod [laterSuper] (.expr .laterSuper) s st mid f (.inst i) ∧
        st.Owns k mid ∧ st.class? k = some cls ∧ cls.superclass = some c ∧
        ∃ g s', s.store.method? c "m" = some g ∧
          evaluate laterSuper.context 8 .laterSuper s = .ok (s.store.bindValue g (.inst i)).1 s' := by
  have hh : History {} { natives := [] } [] laterSuper.interpreter := .create rfl
  have hd : DistinctNodes (programs [laterSuper]) := .of_within 8 (by decide) (by decide)
  have hw : ∀ p ∈ programs [laterSuper], p.WellNamed := by
    intro p hp
    obtain rfl := List.mem_singleton.1 hp
    exact .of_within 8 (by decide) (by decide)
  have he : ∀ p ∈ programs [laterSuper], p.resolve.hasErrors = false := by
    intro p hp
    obtain rfl := List.mem_singleton.1 hp
    decide
  have hv : ∃ s, laterSuper.Visits 8 (.expr .laterSuper) s ∧
      ∃ v s', evaluate laterSuper.context 8 .laterSuper s = .ok v s' := by
    refine ⟨?s, .mk (i := 2) (by decide) laterSuper_classes (by rfl) ?h, ?v, ?s', ?super⟩
    case h =>
      refine .step .expression ?_
      refine .step (.body (i := 0) (.mk laterSuper_returned (by rfl) (by rfl) (by rfl) (by decide))
        (.function (by rfl)) (by rfl) (by rfl)) ?_
      refine .step .returned ?_
      refine .step .callee ?_
      exact .here
    case super => rfl
  obtain ⟨s, hv, v, s', hsuper⟩ := hv
  obtain ⟨st, mid, f, i, k, cls, c, hruns, howns, hcls, hc, hfound⟩ :=
    ((this_and_super hh hd hw).2 he 7 s 7 _).2 _ hv
  refine ⟨hh, hd, hw, he, s, hv, st, mid, f, i, k, cls, c, hruns, howns, hcls, hc, ?_⟩
  rcases hfound with ⟨g, hg, hok⟩ | ⟨-, e, -, -, hraised⟩
  · exact ⟨g, _, hg, hok⟩
  · cases hraised.symm.trans hsuper

end Lox
