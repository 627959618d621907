import Lox.Proofs.Run.GroundedRuns
import Mathlib.Logic.Relation

/-!
# The chains of scopes and classes

Names are searched from a scope outwards, methods from a class upwards, by loops that have no bound of
their own: they end when they find what they seek or when there is no next object (`Walks`).  In a grounded
store each link goes to an older object, so the chains have no cycle and the loops end, on what the searches
find that the size of the store bounds (`Store.ChainsEnd`).  This is so in every store that is reached
(`Interpretation.chains_end`), though objects may lead to themselves in other ways (`Store.Leads`).
-/

namespace Lox

/-- A loop that goes from object to object, up to the first in which it finds what it seeks, or to the last
one; `n` counts the links it follows. -/
inductive Walks {α β : Type} (seek : α → Option β) (next : α → Option α) : Nat → α → Option β → Prop
  | found {a b} (h : seek a = some b) : Walks seek next 0 a (some b)
  | ended {a} (h : seek a = none) (hn : next a = none) : Walks seek next 0 a none
  | onward {n a a' r} (h : seek a = none) (hn : next a = some a') (hw : Walks seek next n a' r) :
      Walks seek next (n + 1) a r

section

variable {α β : Type} {seek : α → Option β} {next : α → Option α} {n m : Nat} {a : α}
  {r r' : Option β}

/-- A loop ends in one way only. -/
theorem Walks.unique (h : Walks seek next n a r) (h' : Walks seek next m a r') : n = m ∧ r = r' := by
  induction h generalizing m with
  | found hs =>
    cases h' with
    | found hs' => exact ⟨rfl, hs.symm.trans hs'⟩
    | ended hs' => cases hs.symm.trans hs'
    | onward hs' => cases hs.symm.trans hs'
  | ended hs hn =>
    cases h' with
    | found hs' => cases hs.symm.trans hs'
    | ended => exact ⟨rfl, rfl⟩
    | onward _ hn' => cases hn.symm.trans hn'
  | onward hs hn _ ih =>
    cases h' with
    | found hs' => cases hs.symm.trans hs'
    | ended _ hn' => cases hn.symm.trans hn'
    | onward _ hn' hw' =>
      cases hn.symm.trans hn'
      obtain ⟨rfl, rfl⟩ := ih hw'
      exact ⟨rfl, rfl⟩

/-- A loop that seeks nothing finds nothing. -/
theorem Walks.eq_none (h : Walks (fun _ => (none : Option β)) next n a r) : r = none := by
  induction h with
  | found hs => cases hs
  | ended => rfl
  | onward _ _ _ ih => exact ih

/-- Where each link leads to an object of lower rank, every loop ends. -/
theorem Walks.exists_of_rank (seek : α → Option β) (rank : α → Nat)
    (hrank : ∀ a a', next a = some a' → rank a' < rank a) (a : α) :
    ∃ n r, n ≤ rank a ∧ Walks seek next n a r := by
  induction hk : rank a using Nat.strongRecOn generalizing a with
  | ind k ih =>
    subst hk
    cases hs : seek a with
    | some b => exact ⟨0, some b, Nat.zero_le _, .found hs⟩
    | none =>
      cases hn : next a with
      | none => exact ⟨0, none, Nat.zero_le _, .ended hs hn⟩
      | some a' =>
        have hlt := hrank a a' hn
        obtain ⟨n, r, hle, hw⟩ := ih _ hlt a' rfl
        exact ⟨n + 1, r, Nat.lt_of_le_of_lt hle hlt, .onward hs hn hw⟩

/-- Nor does any object lead to itself. -/
theorem acyclic_of_rank (rank : α → Nat) (hrank : ∀ a a', next a = some a' → rank a' < rank a) (a : α) :
    ¬ Relation.TransGen (fun a a' => next a = some a') a a := by
  have hlt : ∀ a', Relation.TransGen (fun a a' => next a = some a') a a' → rank a' < rank a := by
    intro a' h
    induction h with
    | single hn => exact hrank _ _ hn
    | tail _ hn ih => exact Nat.lt_trans (hrank _ _ hn) ih
  exact fun h => Nat.lt_irrefl _ (hlt a h)

end

namespace Store

/-- The class that a class inherits from. -/
def superclass? (st : Store) (c : ClassId) : Option ClassId := (st.class? c).bind (·.superclass)

/-- The method that a class itself has by a name. -/
def ownMethod? (st : Store) (x : String) (c : ClassId) : Option FunctionId :=
  (st.class? c).bind (·.methods[x]?)

/-- A scope, if it binds a name itself. -/
def binder? (st : Store) (x : String) (e : ScopeId) : Option ScopeId :=
  if st.binds e x then some e else none

/-- One object leads to another: by a link, or through a value. -/
inductive Leads (st : Store) : Value → Value → Prop
  | enclosing {e outer} (h : st.enclosing? e = some outer) : Leads st (.scope e) (.scope outer)
  | variable {e x v} (h : st.read? e x = some v) : Leads st (.scope e) v
  | closure {id f} (h : st.function? id = some f) : Leads st (.function id) (.scope f.closure)
  | superclass {c d} (h : st.superclass? c = some d) : Leads st (.cls c) (.cls d)
  | method {c x id} (h : st.ownMethod? x c = some id) : Leads st (.cls c) (.function id)
  | madeFrom {i o} (h : st.instance? i = some o) : Leads st (.inst i) (.cls o.cls)
  | field {i x v} (h : st.field? i x = some v) : Leads st (.inst i) v

/-- From every scope the links lead to the globals `g`, from every class they lead to a last one, and there
is no cycle in them.  So the loops end that follow them, with what the searches find. -/
structure ChainsEnd (g : ScopeId) (st : Store) : Prop where
  root : (st.scope? g).isSome ∧ st.enclosing? g = none
  reaches : ∀ e, (st.scope? e).isSome → ∃ d, st.ancestor? d e = some g
  scopes : ∀ e, ¬ Relation.TransGen (fun a b => st.enclosing? a = some b) e e
  ends : ∀ c, ∃ n, Walks (fun _ => (none : Option Unit)) st.superclass? n c none
  classes : ∀ c, ¬ Relation.TransGen (fun a b => st.superclass? a = some b) c c
  get : ∀ e x, (st.scope? e).isSome → ∃ n, Walks (st.read? · x) st.enclosing? n e (st.get? e x)
  assign : ∀ e x v, (st.scope? e).isSome → ∃ n o, Walks (st.binder? x) st.enclosing? n e o ∧
    st.assign? e x v = o.map (st.define · x v)
  contains : ∀ e x, (st.scope? e).isSome → ∃ n o, Walks (st.binder? x) st.enclosing? n e o ∧
    st.contains e x = o.isSome
  depth : ∀ e, (st.scope? e).isSome →
    Walks (fun _ => (none : Option Unit)) st.enclosing? (st.depth e) e none
  findMethod : ∀ c x, (st.class? c).isSome →
    ∃ n, Walks (st.ownMethod? x) st.superclass? n c (st.findMethod? c x)
  arity : ∀ c, (st.class? c).isSome → ∃ n o,
    Walks (st.ownMethod? FunctionDecl.initializerName) st.superclass? n c o ∧
      st.arity (.cls c) = ((o.bind st.function?).map fun f => (f.arity : Int)).getD 0

variable {g : ScopeId} {st : Store} {n k : Nat} {e : ScopeId} {c : ClassId} {x : String}

/-! ### Searches with a bound

With more fuel than there are links to follow, a search finds what the loop finds. -/

theorem ownerWithin?_eq {o : Option ScopeId} (h : Walks (st.binder? x) st.enclosing? n e o)
    (hk : n < k) : st.ownerWithin? x k e = o := by
  induction h generalizing k with
  | found hs =>
    obtain ⟨k, rfl⟩ := Nat.exists_eq_add_of_lt hk
    unfold binder? at hs
    split at hs
    · rename_i hb
      cases hs
      simp [ownerWithin?, hb]
    · cases hs
  | ended hs hn =>
    obtain ⟨k, rfl⟩ := Nat.exists_eq_add_of_lt hk
    unfold binder? at hs
    split at hs
    · cases hs
    · rename_i hb
      simp [ownerWithin?, hb, hn]
  | @onward n _ _ _ hs hn _ ih =>
    obtain ⟨k, rfl⟩ := Nat.exists_eq_add_of_lt hk
    unfold binder? at hs
    split at hs
    · cases hs
    · rename_i hb
      rw [ownerWithin?, if_neg hb, hn]
      exact ih (by omega)

theorem depthWithin_eq {o : Option Unit} (h : Walks (fun _ => none) st.enclosing? n e o)
    (hk : n ≤ k) : st.depthWithin k e = n := by
  induction h generalizing k with
  | found hs => cases hs
  | ended _ hn =>
    cases k with
    | zero => rfl
    | succ k => rw [depthWithin, hn]
  | onward _ hn _ ih =>
    obtain ⟨k, rfl⟩ := Nat.exists_eq_add_of_le' (Nat.lt_of_lt_of_le (Nat.zero_lt_succ _) hk)
    rw [depthWithin, hn]
    exact congrArg (· + 1) (ih (Nat.le_of_succ_le_succ hk))

theorem findMethodWithin?_eq {o : Option FunctionId}
    (h : Walks (st.ownMethod? x) st.superclass? n c o) (hk : n < k) :
    st.findMethodWithin? x k c = o := by
  induction h generalizing k with
  | found hs =>
    obtain ⟨k, rfl⟩ := Nat.exists_eq_add_of_lt hk
    obtain ⟨cls, hc, hm⟩ := Option.bind_eq_some_iff.1 hs
    rw [findMethodWithin?, hc]
    simp only [hm]
  | @ended c hs hn =>
    obtain ⟨k, rfl⟩ := Nat.exists_eq_add_of_lt hk
    rw [findMethodWithin?]
    cases hc : st.class? c with
    | none => rfl
    | some cls =>
      rw [ownMethod?, hc, Option.bind_some] at hs
      rw [superclass?, hc, Option.bind_some] at hn
      simp only [hs, hn]
  | onward hs hn _ ih =>
    obtain ⟨k, rfl⟩ := Nat.exists_eq_add_of_lt hk
    obtain ⟨cls, hc, hsuper⟩ := Option.bind_eq_some_iff.1 hn
    rw [ownMethod?, hc, Option.bind_some] at hs
    rw [findMethodWithin?, hc]
    simp only [hs, hsuper]
    exact ih (by omega)

theorem binder?_eq_none : st.binder? x e = none ↔ st.read? e x = none := by
  unfold binder? binds
  cases st.read? e x <;> simp

/-- The value that a loop finds is that of the scope which binds the name. -/
theorem walks_read? {o : Option ScopeId} (h : Walks (st.binder? x) st.enclosing? n e o) :
    Walks (st.read? · x) st.enclosing? n e (o.bind (st.read? · x)) := by
  induction h with
  | @found e o hs =>
    unfold binder? at hs
    split at hs
    · rename_i hb
      cases hs
      obtain ⟨v, hv⟩ := Option.isSome_iff_exists.1 hb
      rw [Option.bind_some, hv]
      exact .found hv
    · cases hs
  | ended hs hn => exact .ended (binder?_eq_none.1 hs) hn
  | onward hs hn _ ih => exact .onward (binder?_eq_none.1 hs) hn ih

namespace Grounded

variable (h : st.Grounded g)

include h

theorem lt_of_enclosing {outer : ScopeId} (he : st.enclosing? e = some outer) :
    outer.index < e.index := by
  obtain ⟨scope, hs, hlink⟩ := Option.bind_eq_some_iff.1 he
  have hne : e ≠ g := by
    rintro rfl
    cases he.symm.trans h.globals.2
  obtain ⟨outer', ho, hlt⟩ := h.links e scope hne hs
  obtain rfl := Option.some.inj (hlink.symm.trans ho)
  exact hlt

theorem lt_of_superclass {d : ClassId} (hc : st.superclass? c = some d) : d.index < c.index := by
  obtain ⟨cls, hcls, hsuper⟩ := Option.bind_eq_some_iff.1 hc
  exact h.supers c cls d hcls hsuper

/-- The links lead to the globals. -/
theorem exists_ancestor (he : (st.scope? e).isSome) : ∃ d, st.ancestor? d e = some g := by
  induction hk : e.index using Nat.strongRecOn generalizing e with
  | ind k ih =>
    subst hk
    by_cases hg : e = g
    · exact ⟨0, congrArg some hg⟩
    · obtain ⟨scope, hs⟩ := Option.isSome_iff_exists.1 he
      obtain ⟨outer, hlink, hlt⟩ := h.links e scope hg hs
      have houter : (st.scope? outer).isSome :=
        scope?_isSome_of_lt (Nat.lt_trans hlt (lt_of_scope? hs))
      obtain ⟨d, hd⟩ := ih outer.index hlt houter rfl
      refine ⟨d + 1, ?_⟩
      rw [ancestor?, enclosing?_of_scope? hs, hlink]
      exact hd

/-- A search from a scope ends where the loop ends. -/
theorem walks_owner? (he : (st.scope? e).isSome) (x : String) :
    ∃ n, Walks (st.binder? x) st.enclosing? n e (st.owner? e x) := by
  obtain ⟨n, o, hle, hw⟩ := Walks.exists_of_rank (st.binder? x) ScopeId.index
    (fun _ _ => h.lt_of_enclosing) e
  obtain ⟨scope, hs⟩ := Option.isSome_iff_exists.1 he
  have howner : st.owner? e x = o := ownerWithin?_eq hw (Nat.lt_of_le_of_lt hle (lt_of_scope? hs))
  exact ⟨n, howner ▸ hw⟩

/-- So does a search from a class. -/
theorem walks_findMethod? (hc : (st.class? c).isSome) (x : String) :
    ∃ n, Walks (st.ownMethod? x) st.superclass? n c (st.findMethod? c x) := by
  obtain ⟨n, o, hle, hw⟩ := Walks.exists_of_rank (st.ownMethod? x) ClassId.index
    (fun _ _ => h.lt_of_superclass) c
  obtain ⟨cls, hcls⟩ := Option.isSome_iff_exists.1 hc
  have hfound : st.findMethod? c x = o :=
    findMethodWithin?_eq hw (Nat.lt_of_le_of_lt hle (lt_of_class? hcls))
  exact ⟨n, hfound ▸ hw⟩

/-- The depth of a scope is the number of links to the globals. -/
theorem walks_depth (he : (st.scope? e).isSome) :
    Walks (fun _ => (none : Option Unit)) st.enclosing? (st.depth e) e none := by
  obtain ⟨n, o, hle, hw⟩ := Walks.exists_of_rank (fun _ => (none : Option Unit)) ScopeId.index
    (fun _ _ => h.lt_of_enclosing) e
  obtain ⟨scope, hs⟩ := Option.isSome_iff_exists.1 he
  have hdepth : st.depth e = n := depthWithin_eq hw (Nat.le_of_lt (Nat.lt_of_le_of_lt hle (lt_of_scope? hs)))
  rw [hdepth]
  exact hw.eq_none ▸ hw

theorem chainsEnd : st.ChainsEnd g where
  root := h.globals
  reaches e he := h.exists_ancestor he
  scopes e := acyclic_of_rank ScopeId.index (fun _ _ => h.lt_of_enclosing) e
  ends c := by
    obtain ⟨n, o, -, hw⟩ := Walks.exists_of_rank (fun _ => (none : Option Unit)) ClassId.index
      (fun _ _ => h.lt_of_superclass) c
    exact ⟨n, hw.eq_none ▸ hw⟩
  classes c := acyclic_of_rank ClassId.index (fun _ _ => h.lt_of_superclass) c
  get e x he := by
    obtain ⟨n, hw⟩ := h.walks_owner? he x
    exact ⟨n, walks_read? hw⟩
  assign e x v he := by
    obtain ⟨n, hw⟩ := h.walks_owner? he x
    exact ⟨n, _, hw, rfl⟩
  contains e x he := by
    obtain ⟨n, hw⟩ := h.walks_owner? he x
    exact ⟨n, _, hw, rfl⟩
  depth e he := h.walks_depth he
  findMethod c x hc := h.walks_findMethod? hc x
  arity c hc := by
    obtain ⟨n, hw⟩ := h.walks_findMethod? hc FunctionDecl.initializerName
    refine ⟨n, _, hw, ?_⟩
    unfold arity initializer? Store.method?
    dsimp only
    cases (st.findMethod? c FunctionDecl.initializerName).bind st.function? <;> rfl

end Grounded

end Store

/-! ### A class that inherits from one of its own name -/

/-- A class `A`, and a class `B` that inherits from it. -/
def Program.inheritance : Program :=
  [.classDecl 0 ⟨.identifier, "A", .nil, 1⟩ none [],
   .classDecl 1 ⟨.identifier, "B", .nil, 2⟩ (some ⟨2, ⟨.identifier, "A", .nil, 2⟩⟩) []]

/-- Another class `A`, which inherits from `B`, and an instance that has itself as a field. -/
def Program.selfAncestor : Program :=
  [.classDecl 3 ⟨.identifier, "A", .nil, 1⟩ (some ⟨4, ⟨.identifier, "B", .nil, 1⟩⟩) [],
   .varDecl 5 ⟨.identifier, "a", .nil, 2⟩ (some
    (.call 6 (.var ⟨7, ⟨.identifier, "A", .nil, 2⟩⟩) ⟨.rightParen, ")", .nil, 2⟩ [])),
   .expression 8 (.set 9 (.var ⟨10, ⟨.identifier, "a", .nil, 3⟩⟩) ⟨.identifier, "me", .nil, 3⟩
    (.var ⟨11, ⟨.identifier, "a", .nil, 3⟩⟩))]

/-- The first program, given to a new interpreter. -/
def Interpretation.inheritance : Interpretation where
  interpreter := {
    config := { natives := [], maxCallDepth_pos := Config.defaultDepth_pos }
    globals := ⟨0⟩
    store := (({} : Store).newScope {}).2
    scope := ⟨0⟩ }
  program := .inheritance
  table := ∅
  fuel := 3

/-- After the second program `A` inherits from `B`, and `B` from what was `A` before. -/
def Store.Redeclared (st : Store) : Prop :=
  st.read? ⟨0⟩ "A" = some (.cls ⟨2⟩) ∧
    st.superclass? ⟨2⟩ = some ⟨1⟩ ∧ st.superclass? ⟨1⟩ = some ⟨0⟩ ∧ st.superclass? ⟨0⟩ = none ∧
    st.className ⟨2⟩ = "A" ∧ st.className ⟨1⟩ = "B" ∧ st.className ⟨0⟩ = "A" ∧
    st.field? ⟨0⟩ "me" = some (.inst ⟨0⟩)

instance (st : Store) : Decidable st.Redeclared := inferInstanceAs (Decidable (_ ∧ _))

theorem Interpretation.exists_redeclared : ∃ (I : Interpretation) (st : Store),
    Interpreter.Reachable {} { natives := [] } I.interpreter ∧ I.Reaches st ∧ st.Redeclared := by
  have hruns : (inheritance.result?.bind fun r => (result? ⟨r.2, .selfAncestor, ∅, 4⟩).map fun r' =>
      decide r'.2.store.Redeclared) = some true := by decide +kernel
  obtain ⟨⟨report, i⟩, hfirst, hruns⟩ := Option.bind_eq_some_iff.1 hruns
  obtain ⟨⟨report', i'⟩, hsecond, hred⟩ := Option.map_eq_some_iff.1 hruns
  have hnew : Interpreter.Reachable {} { natives := [] } inheritance.interpreter := .create rfl
  exact ⟨⟨i, .selfAncestor, ∅, 4⟩, i'.store, hnew.interpret hfirst, .ended hsecond,
    of_decide_eq_true hred⟩

/-- Whatever programs an interpreter was given, with whatever tables, and however they ended: in every store
that is reached while the next is run, the links between scopes lead to the globals and those between
classes to a last one, without a cycle, and the loops that follow them end.  Objects may lead to themselves
all the same, through the values of fields and variables. -/
theorem Interpretation.chains_end :
    (∀ registry config (I : Interpretation), Interpreter.Reachable registry config I.interpreter →
      ∀ st, I.Reaches st → st.ChainsEnd I.interpreter.globals) ∧
    ∃ registry config, ∃ (I : Interpretation) (st : Store) (v : Value),
      Interpreter.Reachable registry config I.interpreter ∧ I.Reaches st ∧
        Relation.TransGen st.Leads v v := by
  refine ⟨fun registry config I h st hst => (grounded_of_reachable h hst).chainsEnd, ?_⟩
  obtain ⟨I, st, h, hst, -, -, -, -, -, -, -, hself⟩ := exists_redeclared
  exact ⟨_, _, I, st, .inst ⟨0⟩, h, hst, .single (.field hself)⟩

/-- A class whose superclass inherits from a class of its own name has a last ancestor like any other. -/
theorem Interpretation.redeclared_chains_end : ∃ (I : Interpretation) (st : Store),
    Interpreter.Reachable {} { natives := [] } I.interpreter ∧ I.Reaches st ∧ st.Redeclared ∧
      st.ChainsEnd I.interpreter.globals := by
  obtain ⟨I, st, h, hst, hred⟩ := exists_redeclared
  exact ⟨I, st, h, hst, hred, chains_end.1 _ _ I h st hst⟩

end Lox
