import Lox.Proofs.Run.Events
import Lox.Proofs.Run.History

/-!
# The operations a run is made of

Where programs are well-named, each change of the store is one of a few operations, and these leave
the scopes with `this` and `super` alone: names are bound in the globals, or in scopes that were made
for a block or a call and get no name that is a keyword (`Changes.operation`).  What is said of
operations in terms of the store alone can then be proved of the operations one by one.

The three places where a method is bound have one rule each in `BindsMethod`; what they do is to
select a method for a receiver (`Store.Selects`).
-/

namespace Lox

/-- A scope that binds one name. -/
theorem getElem?_singleton (y x : String) (v : Value) :
    ({(y, v)} : Bindings)[x]? = if x = y then some v else none := by
  have hinsert : ({(y, v)} : Bindings) = (∅ : Bindings).insert y v := rfl
  rw [hinsert, Std.ExtTreeMap.getElem?_insert]
  by_cases hx : x = y
  · simp [hx]
  · simp [hx, Ne.symm hx]

namespace Store

theorem enclosing?_of_scope? {st : Store} {e : ScopeId} {scope : Scope} (h : st.scope? e = some scope) :
    st.enclosing? e = scope.enclosing := by
  rw [enclosing?, h]
  rfl

/-- A scope that holds one binding. -/
theorem read?_of_scope? {st : Store} {e : ScopeId} {outer : Option ScopeId} {y : String} {v : Value}
    (h : st.scope? e = some { enclosing := outer, values := {(y, v)} }) (x : String) :
    st.read? e x = if x = y then some v else none := by
  rw [read?, h, Option.bind_some, getElem?_singleton]

/-! ### Binding methods -/

/-- A class inherits from another, in any number of steps. -/
inductive Descends (st : Store) : ClassId → ClassId → Prop
  | refl (c : ClassId) : Descends st c c
  | step {c d k cls} (hc : st.class? c = some cls) (hs : cls.superclass = some d)
      (h : Descends st d k) : Descends st c k

/-- A class is that of an instance, or one of its ancestors. -/
def IsA (st : Store) (i : InstanceId) (k : ClassId) : Prop :=
  ∃ o, st.instance? i = some o ∧ st.Descends o.cls k

/-- A function is a method of a class, declared by the class itself. -/
def Owns (st : Store) (k : ClassId) (mid : FunctionId) : Prop :=
  ∃ cls, st.class? k = some cls ∧ ∃ x : String, cls.methods[x]? = some mid

/-- A method that is found is declared by that name in the class or in one of its ancestors. -/
theorem declarer_of_findMethod? {st : Store} {c : ClassId} {x : String} {mid : FunctionId}
    (h : st.findMethod? c x = some mid) :
    ∃ k cls, st.Descends c k ∧ st.class? k = some cls ∧ cls.methods[x]? = some mid := by
  have key : ∀ n c, st.findMethodWithin? x n c = some mid →
      ∃ k cls, st.Descends c k ∧ st.class? k = some cls ∧ cls.methods[x]? = some mid := by
    intro n
    induction n with
    | zero => intro c h; cases h
    | succ n ih =>
      intro c h
      rw [findMethodWithin?] at h
      split at h
      · cases h
      · rename_i cls hc
        split at h
        · rename_i hm
          cases h
          exact ⟨c, cls, .refl c, hc, hm⟩
        · cases h
        · rename_i d _ hs
          obtain ⟨k, cls', hk, ho⟩ := ih d h
          exact ⟨k, cls', .step hc hs hk, ho⟩
  exact key _ c h

/-- So it is owned by the class or one of its ancestors. -/
theorem owner_of_findMethod? {st : Store} {c : ClassId} {x : String} {mid : FunctionId}
    (h : st.findMethod? c x = some mid) : ∃ k, st.Descends c k ∧ st.Owns k mid := by
  obtain ⟨k, cls, hk, hc, hm⟩ := declarer_of_findMethod? h
  exact ⟨k, hk, cls, hc, x, hm⟩

/-- A property that is a method is no field, and is found in the class of the instance. -/
theorem method_of_member? {st : Store} {i : InstanceId} {x : String} {f : FunctionObject}
    (h : st.member? i x = some (.method f)) : st.field? i x = none ∧ ∃ o mid,
      st.instance? i = some o ∧ st.findMethod? o.cls x = some mid ∧ st.function? mid = some f := by
  unfold member? at h
  split at h
  · cases h
  · rename_i hfield
    obtain ⟨g, hg, he⟩ := Option.map_eq_some_iff.1 h
    cases he
    obtain ⟨o, ho, hm⟩ := Option.bind_eq_some_iff.1 hg
    obtain ⟨mid, hmid, hf⟩ := Option.bind_eq_some_iff.1 hm
    exact ⟨hfield, o, mid, ho, hmid, hf⟩

/-- The scope that binding a method makes. -/
def bindScope (st : Store) : ScopeId := ⟨st.scopes.size⟩

/-- A method is selected for a receiver: one that its class has, or, in a method of some class, one that
the superclass has. -/
inductive Selects (st : Store) (g : ScopeId) : FunctionId → FunctionObject → Value → Prop
  | own {i o x mid f} (hi : st.instance? i = some o) (hm : st.findMethod? o.cls x = some mid)
      (hf : st.function? mid = some f) : Selects st g mid f (.inst i)
  | super {e e' c this x mid f} (he : e ≠ g) (he' : e' ≠ g) (hlink : st.enclosing? e = some e')
      (hc : st.read? e' "super" = some (.cls c)) (ht : st.read? e "this" = some this)
      (hm : st.findMethod? c x = some mid) (hf : st.function? mid = some f) : Selects st g mid f this

end Store

/-- While a part is run in a state, the method with the identity is bound to a value, in the store as it
is then. -/
inductive BindsMethod (ctx : Context) (n : Nat) :
    Part → RunState → Store → FunctionId → FunctionObject → Value → Prop
  | got {id object name s i s₁ o mid f} (ho : evaluate ctx n object s = .ok (.inst i) s₁)
      (hfield : s₁.store.field? i name.lexeme = none) (hi : s₁.store.instance? i = some o)
      (hm : s₁.store.findMethod? o.cls name.lexeme = some mid)
      (hf : s₁.store.function? mid = some f) :
      BindsMethod ctx n (.expr (.get id object name)) s s₁.store mid f (.inst i)
  | initialized {id callee paren arguments s c vs s₁ mid f}
      (ha : Applies ctx n callee arguments s (.cls c) vs s₁)
      (hm : (s₁.store.newInstance c).2.findMethod? c FunctionDecl.initializerName = some mid)
      (hf : (s₁.store.newInstance c).2.function? mid = some f) :
      BindsMethod ctx n (.expr (.call id callee paren arguments)) s (s₁.store.newInstance c).2 mid f
        (.inst (s₁.store.newInstance c).1)
  | super {id keyword method s d c this mid f} (hd : ctx.table[id]? = some d)
      (hc : s.store.getAt s.scope d "super" = .ok (.cls c))
      (ht : s.store.getAt s.scope ((d : Int) - 1) "this" = .ok this)
      (hm : s.store.findMethod? c method.lexeme = some mid) (hf : s.store.function? mid = some f) :
      BindsMethod ctx n (.expr (.super id keyword method)) s s.store mid f this

section

variable {ctx : Context} {n : Nat} {t : Part} {s : RunState} {st st' : Store} {mid : FunctionId}
  {f : FunctionObject} {this : Value} {e : ScopeId} {id : NodeId}

/-- Every scope that is made for a bound method comes from one of the rules. -/
theorem Opens.bindsMethod (h : Opens ctx n t s e (.bind id)) : ∃ st mid f this,
    BindsMethod ctx n t s st mid f this ∧ e = st.bindScope ∧ id = f.declaration.id := by
  cases h with
  | construct ha hc =>
    cases hc with
    | mk hi hf hg =>
      cases hi
      cases hg
      obtain ⟨mid, hm, hf⟩ := Option.bind_eq_some_iff.1 hf
      exact ⟨_, _, _, _, .initialized ha hm hf, rfl, rfl⟩
  | get ho hm _ =>
    obtain ⟨hfield, o, mid, hi, hm, hf⟩ := Store.method_of_member? hm
    exact ⟨_, _, _, _, .got ho hfield hi hm hf, rfl, rfl⟩
  | super hd hc ht hf =>
    obtain ⟨mid, hm, hf⟩ := Option.bind_eq_some_iff.1 hf
    exact ⟨_, _, _, _, .super hd hc ht hm hf, rfl, rfl⟩

theorem BindsMethod.function? (h : BindsMethod ctx n t s st mid f this) :
    st.function? mid = some f := by
  cases h <;> assumption

/-- Binding a method changes the store. -/
theorem BindsMethod.changes (h : BindsMethod ctx n t s st mid f this) :
    ∃ st', Changes ctx n t s st st' ∧ st'.scopes = (st.bind f this).2.scopes := by
  cases h with
  | got ho hfield hi hm hf =>
    refine ⟨_, .got ho (f := f) ?_, rfl⟩
    simp [Store.member?, hfield, hi, Store.method?, hm, hf]
  | initialized ha hm hf =>
    refine ⟨_, .initialized ha (.mk rfl ?_ rfl), rfl⟩
    exact Option.bind_eq_some_iff.2 ⟨_, hm, hf⟩
  | super hd hc ht hm hf =>
    exact ⟨_, .super hd hc ht (Option.bind_eq_some_iff.2 ⟨_, hm, hf⟩), rfl⟩

end

/-! ### Operations -/

/-- Scopes in which declarations are bound. -/
def Opening.isFrame : Opening → Bool
  | .block _ => true
  | .call _ => true
  | _ => false

/-- A change of a store, with the globals `g`, scopes `O` for declarations, and methods that are bound as
`B` says. -/
inductive Store.Operation (g : ScopeId) (O : ScopeId → Prop)
    (B : Store → FunctionId → FunctionObject → Value → Prop) : Store → Store → Prop
  | nothing {st} : Operation g O B st st
  | defineGlobal {st x v} : Operation g O B st (st.define g x v)
  | define {st e x v} (he : O e) (hx : x ≠ "this" ∧ x ≠ "super") : Operation g O B st (st.define e x v)
  | setField {st i x v} : Operation g O B st (st.setField i x v)
  | newInstance {st c} : Operation g O B st (st.newInstance c).2
  | newFrame {st e} {values : Bindings} (hthis : values["this"]? = none)
      (hsuper : values["super"]? = none) :
      Operation g O B st (st.newScope { enclosing := some e, values }).2
  | newSuper {st e c} :
      Operation g O B st (st.newScope { enclosing := some e, values := {("super", .cls c)} }).2
  | newFunction {st d e} (he : e = g ∨ O e) (hlt : e.index < st.scopes.size) :
      Operation g O B st (st.newFunction ⟨d, e, false⟩).2
  | makeClass {st e x c fs} (hlt : e.index < st.scopes.size)
      (he : (c = none ∧ (e = g ∨ O e)) ∨
        e ≠ g ∧ ∃ d, c = some d ∧ st.read? e "super" = some (.cls d)) :
      Operation g O B st (st.makeClass x c fs e).2
  | bind {st mid f this} (hb : B st mid f this) (hs : st.Selects g mid f this) :
      Operation g O B st (st.bind f this).2
  | bindValue {st mid f this} (hb : B st mid f this) (hs : st.Selects g mid f this) :
      Operation g O B st (st.bindValue f this).2

namespace Store

theorem Extends.methodScope {named : Prop} (st : Store) (e : ScopeId) (c : Option ClassId) :
    st.Extends named (st.methodScope e c).2 := by
  cases c with
  | none => exact .refl st
  | some c => exact .newScope st _

theorem Extends.newMethods {N : Prop} (e : ScopeId) (fs : List FunctionDecl) :
    ∀ (table : Std.ExtTreeMap String FunctionId) (st : Store),
      st.Extends N (newMethods e table fs st).2 := by
  induction fs with
  | nil => exact fun _ st => .refl st
  | cons f fs ih => exact fun _ st => (Extends.newFunction st _).trans (ih _ _)

theorem Extends.makeClass {named : Prop} (st : Store) (x : String) (c : Option ClassId)
    (fs : List FunctionDecl) (e : ScopeId) : st.Extends named (st.makeClass x c fs e).2 :=
  (Extends.newMethods e fs ∅ st).trans (.newClass _ _)

/-- Following one more link. -/
theorem ancestor?_succ {st : Store} : ∀ {d : Nat} {e a a' : ScopeId}, st.ancestor? d e = some a →
    st.ancestor? (d + 1) e = some a' → st.enclosing? a = some a'
  | 0, e, a, a', ha, ha' => by
    cases ha
    rw [ancestor?] at ha'
    split at ha'
    · cases ha'
    · rename_i b hb
      cases ha'
      exact hb
  | d + 1, e, a, a', ha, ha' => by
    rw [ancestor?] at ha ha'
    split at ha
    · cases ha
    · rename_i b hb
      rw [hb] at ha'
      exact ancestor?_succ ha ha'

end Store

/-! ### The nodes of a program -/

theorem Part.stmt_ne_method (s : Stmt) (f : FunctionDecl) : Part.stmt s ≠ .method f := by
  intro h
  cases h

/-- A scope was made in some episodes for a block or a call. -/
def Framed (Es : List Episode) (e : ScopeId) : Prop :=
  ∃ F ∈ Es, ∃ w, F.Opened e w ∧ w.isFrame

theorem Framed.mono {Es more : List Episode} {e : ScopeId} (h : Framed Es e) (hsub : Es ⊆ more) :
    Framed more e := by
  obtain ⟨F, hF, hw⟩ := h
  exact ⟨F, hsub hF, hw⟩

/-- A method is bound in some episodes. -/
def MethodBound (Es : List Episode) (st : Store) (mid : FunctionId) (f : FunctionObject) (this : Value) :
    Prop :=
  ∃ F ∈ Es, ∃ m t s, F.Visits (m + 1) t s ∧ BindsMethod F.context m t s st mid f this

namespace Episode

variable {Es : List Episode} {E : Episode} {hf : Fits False (Es ++ [E])}
  {ht : IsTableOf E.context.table (programs (Es ++ [E]))}
  {Γ : Nesting} {t : Part} {s s' : RunState} {N : String → Prop} {st st' : Store} {f : Frame}
  {e : ScopeId} {m : Nat}

/-- A scope that stands for a frame with names was made for a block or a call. -/
theorem framed_of_activation (h : Activation (E.setting Es False hf ht) N st f e)
    (hthis : ¬ f.opener.isThis) (hsuper : ∀ id, f.opener ≠ .super id) : Framed (Es ++ [E]) e := by
  obtain ⟨w, ⟨F, hF, hw⟩, ho⟩ := h.opened
  refine ⟨F, hF, w, hw, ?_⟩
  cases hop : f.opener with
  | this => exact absurd (by rw [hop]; rfl) hthis
  | super id => exact absurd hop (hsuper id)
  | block =>
    rw [hop] at ho
    cases w with
    | block => rfl
    | _ => cases ho
  | function =>
    rw [hop] at ho
    cases w with
    | call => rfl
    | _ => cases ho

/-- The current scope is the globals, or was made for a block or a call. -/
theorem currentScope_framed (h : At (E.setting Es False hf ht) Γ t s) (hm : ∀ f, t ≠ .method f) :
    (s.scope = E.interpreter.globals ∨ Framed (Es ++ [E]) s.scope) ∧
      s.scope.index < s.store.scopes.size := by
  obtain ⟨F, hF, a, ha, -, -⟩ := h.known
  have hplain := Program.plain_of_place? ha hm
  have hmirrors := h.mirrors
  cases Γ with
  | nil =>
    have hscope : s.scope = E.interpreter.globals := hmirrors
    exact ⟨.inl hscope, hscope ▸ h.store.globals_lt⟩
  | cons f Γ =>
    obtain ⟨hact, e, he, -⟩ := hmirrors
    obtain ⟨hthis, hsuper⟩ := hplain f.opener rfl
    exact ⟨.inr (framed_of_activation hact hthis hsuper), Store.lt_of_enclosing? he⟩

/-- A scope that a name leads to, if it is no keyword, was made for a block or a call. -/
theorem framed_of_distance (h : At (E.setting Es False hf ht) Γ t s) {x : String} {d : Nat}
    (hd : Γ.distance? x = some d) (hx : x ≠ "this" ∧ x ≠ "super")
    (he : s.store.scopeAt s.scope d = .ok e) : Framed (Es ++ [E]) e := by
  obtain ⟨f, a, hfr, ha, hact⟩ := h.mirrors.scopeAt hd
  obtain rfl := Except.ok.inj (ha.symm.trans he)
  obtain ⟨f', hf', hhas⟩ := Nesting.distance?_eq_some hd
  obtain rfl := Option.some.inj (hfr.symm.trans hf')
  obtain ⟨F, -, a', hplace, -, -⟩ := h.known
  obtain ⟨hthis, hsuper⟩ := (Program.regular_of_place? hplace).1.classes f (List.mem_of_getElem? hfr)
  refine framed_of_activation hact (fun ho => ?_) fun id ho => ?_
  · refine hx.1 ?_
    rw [Frame.has, Frame.ready?, hthis ho] at hhas
    by_contra hne
    simp [List.lookup_cons, beq_eq_false_iff_ne.2 hne] at hhas
  · refine hx.2 ?_
    rw [Frame.has, Frame.ready?, hsuper id ho] at hhas
    by_contra hne
    simp [List.lookup_cons, beq_eq_false_iff_ne.2 hne] at hhas

/-- An assignment leads to the globals, or to a scope that was made for a block or a call, and then its
name is no keyword. -/
theorem assignedScope_framed {id : NodeId} {target value : Expr} {equals : Token}
    (h : At (E.setting Es False hf ht) Γ (.expr (.assign id target equals value)) s)
    (hw : (Part.expr (.assign id target equals value)).WellNamed)
    (he : Run.assignedScope E.context id (target.assignedName equals) s = .ok e s') :
    e = E.interpreter.globals ∨ Framed (Es ++ [E]) e ∧
      (target.assignedName equals).lexeme ≠ "this" ∧ (target.assignedName equals).lexeme ≠ "super" := by
  cases hd : E.context.table[id]? with
  | none =>
    left
    have hroot : s.store.enclosing? E.context.globals = none := h.store.root
    have howner := Store.owner?_of_root (x := (target.assignedName equals).lexeme) hroot
    by_cases hb : s.store.binds E.context.globals (target.assignedName equals).lexeme = true
    · rw [if_pos hb] at howner
      rw [Run.assignedScope_of_global hd howner] at he
      cases he
      rfl
    · rw [if_neg hb] at howner
      rw [Run.assignedScope_of_undefined hd howner] at he
      cases he
  | some d =>
    right
    rw [Run.assignedScope_of_local hd] at he
    cases target with
    | var ref =>
      have hx : ref.name.isPlainName := hw ref rfl
      have hdist : Γ.distance? ref.name.lexeme = some d := h.distance?_eq rfl (.inl rfl) hd
      refine ⟨?_, hx⟩
      cases ha : s.store.scopeAt s.scope d with
      | ok a =>
        rw [ha] at he
        cases he
        exact framed_of_distance h hdist hx ha
      | error fault =>
        rw [ha] at he
        cases he
    | _ =>
      -- the table knows no assignment to anything but a variable
      have hnone : E.context.table[id]? = none := Setting.table_eq _ h.known rfl
      cases hnone.symm.trans hd

/-- A class declaration comes to know its superclass in a later state. -/
theorem inherits_later {id : NodeId} {name : Token} {superclass : Option VarRef}
    {methods : List FunctionDecl} {c : Option ClassId}
    (hv : E.Visits (m + 1) (.stmt (.classDecl id name superclass methods)) s)
    (h : At (E.setting Es False hf ht) Γ (.stmt (.classDecl id name superclass methods)) s)
    (hc : Inherits E.context m superclass s c s') : Later (E.setting Es False hf ht) s s' := by
  cases hc with
  | nothing => exact .refl h.store
  | of he => exact (superclass_at h).evaluated (hv.opensOk.call .superclass) he

section

variable (hw : ∀ p ∈ programs (Es ++ [E]), p.WellNamed)

include hw

theorem wellNamed_of_known (h : E.Known Es Γ t) : t.WellNamed := by
  obtain ⟨F, hF, a, ha, -, -⟩ := h
  exact hw _ (List.mem_map_of_mem hF) a t (Program.part?_of_place? ha)

theorem plainNames_of_declared {f : FunctionDecl} (h : E.Declared Es Γ f) : f.PlainNames := by
  obtain ⟨F, hF, a, P, ha, hP⟩ := h
  have hn := hw _ (List.mem_map_of_mem hF) a P.part (Program.part?_of_place? ha)
  rcases hP with ⟨hp, -⟩ | ⟨hp, -⟩
  · rw [hp] at hn
    exact hn.2
  · rw [hp] at hn
    exact hn

/-- A function that is started has no keyword as a parameter. -/
theorem plainNames_of_starts {id : NodeId} {callee : Expr} {paren : Token} {arguments : List Expr}
    (hv : E.Visits (m + 1) (.expr (.call id callee paren arguments)) s)
    (h : At (E.setting Es False hf ht) Γ (.expr (.call id callee paren arguments)) s) {c : Callable}
    {vs : List Value} {f : FunctionObject} {s₁ s₂ : RunState}
    (ha : Applies E.context m callee arguments s c vs s₁) (hs : Starts vs c s₁ f s₂) :
    f.declaration.PlainNames := by
  obtain ⟨-, -, -, Δ, hdecl, -⟩ := (ha.callOk (sound m) h hv.opensOk).starts hs
  exact plainNames_of_declared hw hdecl

/-- A `super` that finds its two scopes finds the one with `super` around the one with `this`, and
neither is the globals. -/
theorem selects_super {id : NodeId} {keyword method : Token} {d : Nat} {c : ClassId} {this : Value}
    {mid : FunctionId} {f : FunctionObject}
    (h : At (E.setting Es False hf ht) Γ (.expr (.super id keyword method)) s)
    (hd : E.context.table[id]? = some d) (hc : s.store.getAt s.scope d "super" = .ok (.cls c))
    (hthis : s.store.getAt s.scope ((d : Int) - 1) "this" = .ok this)
    (hm : s.store.findMethod? c method.lexeme = some mid) (hfound : s.store.function? mid = some f) :
    s.store.Selects E.interpreter.globals mid f this := by
  have hkeyword : keyword.lexeme = "super" := wellNamed_of_known hw h.known
  have hdist : Γ.distance? keyword.lexeme = some d := h.distance?_eq rfl (.inl rfl) hd
  rw [hkeyword] at hdist
  obtain ⟨fr, hfr, hhas⟩ := Nesting.distance?_eq_some hdist
  obtain ⟨F, hF, b, hb, -, -⟩ := h.known
  obtain ⟨id', hop⟩ := (Program.keywords_of_place? (hw _ (List.mem_map_of_mem hF)) hb fr
    (List.mem_of_getElem? hfr)).2 hhas
  cases d with
  | zero =>
    -- the scope with `super` is never the innermost one
    obtain ⟨-, hplain⟩ := Program.plain_of_place? hb nofun fr.opener (by
      cases Γ with
      | nil => cases hfr
      | cons g Γ =>
        cases hfr
        rfl)
    exact absurd hop (hplain id')
  | succ k =>
    have hlt : k < Γ.length := Nat.lt_of_succ_lt (List.getElem?_eq_some_iff.1 hfr).1
    obtain ⟨a', ha', hact'⟩ := h.mirrors.ancestor hfr
    obtain ⟨a, ha, hact⟩ := h.mirrors.ancestor (List.getElem?_eq_getElem hlt)
    have hk : ((k + 1 : Nat) : Int) - 1 = (k : Int) := by omega
    rw [hk] at hthis
    exact .super hact.ne_globals hact'.ne_globals (Store.ancestor?_succ ha ha')
      (Store.read?_of_getAt ha' hc) (Store.read?_of_getAt ha hthis) hm hfound

/-- A method that is bound was selected for its receiver. -/
theorem selects_of_binds (h : At (E.setting Es False hf ht) Γ t s) {mid : FunctionId}
    {f : FunctionObject} {this : Value} (hb : BindsMethod E.context m t s st mid f this) :
    st.Selects E.interpreter.globals mid f this := by
  cases hb with
  | got _ _ hi hm hfound => exact .own hi hm hfound
  | initialized _ hm hfound =>
    refine .own (o := { cls := _ }) ?_ hm hfound
    exact (Store.instance?_newInstance ..).trans (if_pos rfl)
  | super hd hc hthis hm hfound => exact selects_super hw h hd hc hthis hm hfound

end

end Episode

theorem Run.callScope_keyword {f : FunctionObject} {vs : List Value} {x : String}
    (h : f.declaration.PlainNames) (hx : x = "this" ∨ x = "super") :
    (Run.callScope f vs).values[x]? = none := by
  cases hv : (Run.callScope f vs).values[x]? with
  | none => rfl
  | some v =>
    obtain ⟨name, hname, rfl⟩ := List.mem_map.1 (Run.callScope_cases hv).1
    obtain ⟨hthis, hsuper⟩ := h name hname
    exact (hx.elim hthis hsuper).elim

section

variable {registry : NativeRegistry} {config : Config} {Es : List Episode} {E : Episode}

/-- Where the programs are well-named, whatever a node does to the store is one of the operations. -/
theorem Changes.operation (h : History registry config Es E.interpreter)
    (hd : DistinctNodes (programs (Es ++ [E]))) (hw : ∀ p ∈ programs (Es ++ [E]), p.WellNamed)
    {all : List Episode} (hsub : Es ++ [E] ⊆ all) {m : Nat} {t : Part} {s : RunState}
    {st st' : Store} (hv : E.Visits (m + 1) t s) (hc : Changes E.context m t s st st') :
    Store.Operation E.interpreter.globals (Framed all) (MethodBound all) st st' := by
  have hf : Episode.Fits False (Es ++ [E]) := ⟨hd, fun hc => hc.elim⟩
  have hs := h.storeOk E rfl hf h.isTableOf_context
  obtain ⟨Γ, hat⟩ := Episode.at_of_visits hs h.scope hv
  have hnamed : t.WellNamed := Episode.wellNamed_of_known hw hat.known
  have hbound : ∀ {st mid f this}, BindsMethod E.context m t s st mid f this →
      MethodBound all st mid f this := fun hb => ⟨E, hsub (by simp), m, t, s, hv, hb⟩
  have hselects : ∀ {st mid f this}, BindsMethod E.context m t s st mid f this →
      st.Selects E.interpreter.globals mid f this := fun hb => Episode.selects_of_binds hw hat hb
  -- a name that a statement declares is bound in the current scope
  have hdeclare : ∀ {s' : RunState} {x : String} {v : Value} (st : Store),
      Later (E.setting Es False hf h.isTableOf_context) s s' → t.declares? = some x →
      Store.Operation E.interpreter.globals (Framed all) (MethodBound all) st
        (st.define s'.scope x v) := by
    intro s' x v st hl hx
    have hm : ∀ f, t ≠ .method f := by
      rintro f rfl
      cases hx
    rw [hl.scope]
    rcases (Episode.currentScope_framed hat hm).1 with hg | hframed
    · rw [hg]
      exact .defineGlobal
    · exact .define (hframed.mono hsub) (hnamed.declares?_ne hx)
  cases hc with
  | @assigned id target equals value _ v s₁ e hval he =>
    have hi : (Expr.assign id target equals value).children[0]? = some value := by
      cases ht : target.asVariable? <;> simp [Expr.children, ht]
    have hat₁ := hat.later ((hat.subexpr (.refl hat.store) 0 hi).evaluated
      (hv.opensOk.call .assigned) hval)
    rcases Episode.assignedScope_framed hat₁ hnamed he with rfl | ⟨hframed, hx⟩
    · exact .defineGlobal
    · exact .define (hframed.mono hsub) hx
  | fieldSet => exact .setField
  | got ho hm =>
    obtain ⟨hfield, o, mid, hi, hmid, hfound⟩ := Store.method_of_member? hm
    exact .bindValue (hbound (.got ho hfield hi hmid hfound)) (hselects (.got ho hfield hi hmid hfound))
  | super hd hsuper hthis hm =>
    obtain ⟨mid, hmid, hfound⟩ := Option.bind_eq_some_iff.1 hm
    exact .bindValue (hbound (.super hd hsuper hthis hmid hfound))
      (hselects (.super hd hsuper hthis hmid hfound))
  | instantiated => exact .newInstance
  | initialized ha hc =>
    cases hc with
    | mk hi hfound hg =>
      cases hi
      cases hg
      obtain ⟨mid, hmid, hfound⟩ := Option.bind_eq_some_iff.1 hfound
      exact .bind (hbound (.initialized ha hmid hfound)) (hselects (.initialized ha hmid hfound))
  | entered ha =>
    have hplain := Episode.plainNames_of_starts hw hv hat ha (.function rfl)
    exact .newFrame (Run.callScope_keyword hplain (.inl rfl)) (Run.callScope_keyword hplain (.inr rfl))
  | enteredInitializer ha hc =>
    have hplain := Episode.plainNames_of_starts hw hv hat ha (.construct hc rfl)
    exact .newFrame (Run.callScope_keyword hplain (.inl rfl)) (Run.callScope_keyword hplain (.inr rfl))
  | block => exact .newFrame (by simp) (by simp)
  | declared => exact hdeclare _ (.refl hat.store) rfl
  | @initializedVar id name e _ v s₁ he =>
    have hinit : At (E.setting Es False hf h.isTableOf_context) _ (.expr e) s :=
      hat.child (i := 0) rfl hat.store ((hat.any fun _ => trivial).mark_false name.lexeme)
    exact hdeclare _ (hinit.evaluated (hv.opensOk.call .initializer) he) rfl
  | closed =>
    obtain ⟨hframed, hlt⟩ := Episode.currentScope_framed hat (Part.stmt_ne_method _)
    exact .newFunction (hframed.imp_right (·.mono hsub)) hlt
  | functionNamed => exact hdeclare _ (.refl hat.store) rfl
  | reserved hi => exact hdeclare _ (Episode.inherits_later hv hat hi) rfl
  | @enclosed id name superclass methods _ c s₁ hi =>
    cases c with
    | none => exact .nothing
    | some c => exact .newSuper
  | @made id name superclass methods _ c s₁ e st hi he =>
    have hl := Episode.inherits_later hv hat hi
    obtain ⟨hframed, hlt⟩ := Episode.currentScope_framed (hat.later hl) (Part.stmt_ne_method _)
    have hsize : (s₁.store.define s₁.scope name.lexeme .nil).scopes.size = s₁.store.scopes.size :=
      Store.size_define ..
    cases c with
    | none =>
      cases he
      exact .makeClass (hsize ▸ hlt) (.inl ⟨rfl, hframed.imp_right (·.mono hsub)⟩)
    | some c =>
      cases he
      refine .makeClass (by simp) (.inr ⟨fun hg => ?_, c, rfl, ?_⟩)
      · have hlt := (hat.later hl).store.globals_lt
        have hindex := congrArg ScopeId.index hg
        change (s₁.store.define s₁.scope name.lexeme .nil).scopes.size = _ at hindex
        rw [hsize] at hindex
        exact absurd hindex.symm (Nat.ne_of_lt hlt)
      · refine (Store.read?_newScope_self ..).trans ?_
        rw [getElem?_singleton, if_pos rfl]
  | @classNamed id name superclass methods _ c s₁ e st owner hi he ho =>
    have hl := Episode.inherits_later hv hat hi
    obtain ⟨-, hlt⟩ := Episode.currentScope_framed (hat.later hl) (Part.stmt_ne_method _)
    have hgrows : (s₁.store.define s₁.scope name.lexeme .nil).Extends False
        (st.makeClass name.lexeme c methods e).2 := by
      have hscope : (s₁.store.define s₁.scope name.lexeme .nil).Extends False _ :=
        .methodScope _ s₁.scope c
      rw [he] at hscope
      exact hscope.trans (.makeClass ..)
    have hreads : ((s₁.store.define s₁.scope name.lexeme .nil).read? s₁.scope name.lexeme).isSome := by
      rw [Store.read?_define, if_pos ⟨rfl, rfl, Store.scope?_isSome_of_lt hlt⟩]
      rfl
    -- the class goes where its name was reserved
    have howner := Store.owner?_of_binds (hgrows.bound _ _ hreads)
    obtain rfl := Option.some.inj (howner.symm.trans ho)
    exact hdeclare _ hl rfl

end

end Lox
