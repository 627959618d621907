import Mathlib.Data.Finset.Card
import Lox.Proofs.Run.Ancestry

/-!
# Searching for a name, and going a known number of links

A name is searched from a scope outwards; a resolved local is read and written a known number of links out.
In any forest of scopes (`Store.Forest`) the two agree: the search comes to the nearest scope that binds the
name, which is the one the least distance leads to at which the name is bound (`Store.Nearest`).  A search
that succeeds when it assigns changes what is found from exactly those scopes from which the same binding is
found, and no set of names (`Store.SearchAgrees`).
-/

namespace Lox

namespace Store

/-- The scopes form a forest: each link leads to a scope that is there, and no links lead back. -/
structure Forest (st : Store) : Prop where
  linked : ∀ e outer, st.enclosing? e = some outer → (st.scope? outer).isSome
  acyclic : ∀ e, ¬ Relation.TransGen (fun a b => st.enclosing? a = some b) e e

/-- The nearest scope that binds a name is so many links out. -/
structure Nearest (st : Store) (e : ScopeId) (x : String) (d : Nat) (a : ScopeId) : Prop where
  reached : st.ancestor? d e = some a
  bound : st.binds a x = true
  least : ∀ k < d, ∀ b, st.ancestor? k e = some b → st.binds b x = false

/-- From two scopes the same binding of a name is found. -/
def SameBinding (st : Store) (x : String) (e f : ScopeId) : Prop :=
  ∃ a d k, st.Nearest e x d a ∧ st.Nearest f x k a

variable {st st' : Store} {e f a b outer : ScopeId} {x y : String} {v : Value} {n d k : Nat}

/-! ### Distances -/

theorem Nearest.unique (h : st.Nearest e x d a) (h' : st.Nearest e x k b) : d = k ∧ a = b := by
  have hdk : d = k := by
    rcases Nat.lt_trichotomy d k with hlt | heq | hlt
    · have hnot := h'.least d hlt a h.reached
      rw [h.bound] at hnot
      cases hnot
    · exact heq
    · have hnot := h.least k hlt b h'.reached
      rw [h'.bound] at hnot
      cases hnot
  subst hdk
  exact ⟨rfl, Option.some.inj (h.reached.symm.trans h'.reached)⟩

theorem ancestor?_of_enclosing (h : st.enclosing? e = some outer) (d : Nat) :
    st.ancestor? (d + 1) e = st.ancestor? d outer := by
  rw [ancestor?, h]

theorem ancestor?_of_root (h : st.enclosing? e = none) (d : Nat) : st.ancestor? (d + 1) e = none := by
  rw [ancestor?, h]

/-- There is a scope at a distance exactly if there are that many links. -/
theorem isSome_ancestor?_iff {r : Option Unit} (h : Walks (fun _ => none) st.enclosing? n e r) :
    (st.ancestor? d e).isSome ↔ d ≤ n := by
  induction h generalizing d with
  | found hs => cases hs
  | ended _ hn =>
    cases d with
    | zero => simp [ancestor?]
    | succ d => simp [ancestor?_of_root hn]
  | onward _ hn _ ih =>
    cases d with
    | zero => simp [ancestor?]
    | succ d =>
      rw [ancestor?_of_enclosing hn, ih]
      omega

/-! ### What a search finds -/

theorem binder?_eq_some (h : st.binder? x e = some a) : a = e ∧ st.binds e x = true := by
  unfold binder? at h
  split at h
  · rename_i hb
    cases h
    exact ⟨rfl, hb⟩
  · cases h

theorem binds_of_binder?_eq_none (h : st.binder? x e = none) : st.binds e x = false := by
  rw [binder?_eq_none] at h
  rw [binds, h]
  rfl

/-- A loop that finds a scope finds the nearest one. -/
theorem Nearest.of_walks (h : Walks (st.binder? x) st.enclosing? n e (some a)) :
    st.Nearest e x n a := by
  generalize hr : some a = r at h
  induction h with
  | found hs =>
    cases hr
    obtain ⟨rfl, hb⟩ := binder?_eq_some hs
    exact ⟨rfl, hb, fun k hk => absurd hk (Nat.not_lt_zero k)⟩
  | ended => cases hr
  | onward hs hn _ ih =>
    obtain ⟨hreached, hb, hleast⟩ := ih hr
    refine ⟨(ancestor?_of_enclosing hn _).trans hreached, hb, fun k hk b hkb => ?_⟩
    cases k with
    | zero =>
      cases hkb
      exact binds_of_binder?_eq_none hs
    | succ k =>
      rw [ancestor?_of_enclosing hn] at hkb
      exact hleast k (Nat.lt_of_succ_lt_succ hk) b hkb

/-- A loop that finds none passes all the scopes. -/
theorem not_binds_of_walks (h : Walks (st.binder? x) st.enclosing? n e none)
    (hb : st.ancestor? d e = some b) : st.binds b x = false := by
  generalize hr : (none : Option ScopeId) = r at h
  induction h generalizing d with
  | found => cases hr
  | ended hs hn =>
    cases d with
    | zero =>
      cases hb
      exact binds_of_binder?_eq_none hs
    | succ d =>
      rw [ancestor?_of_root hn] at hb
      cases hb
  | onward hs hn _ ih =>
    cases d with
    | zero =>
      cases hb
      exact binds_of_binder?_eq_none hs
    | succ d =>
      rw [ancestor?_of_enclosing hn] at hb
      exact ih hb hr

/-! ### Searches in a forest -/

open Classical in
/-- The scopes that the links of a scope lead to. -/
noncomputable def outers (st : Store) (e : ScopeId) : Finset Nat :=
  (Finset.range st.scopes.size).filter fun i =>
    Relation.TransGen (fun a b => st.enclosing? a = some b) e ⟨i⟩

namespace Forest

theorem index_lt (he : (st.scope? e).isSome) : e.index < st.scopes.size := by
  obtain ⟨scope, hs⟩ := Option.isSome_iff_exists.1 he
  exact lt_of_scope? hs

variable (h : st.Forest)

include h

/-- A link leads to a scope from which fewer scopes are reached. -/
theorem card_outers_lt (hlink : st.enclosing? e = some outer) :
    (st.outers outer).card < (st.outers e).card := by
  classical
  have hsub : st.outers outer ⊆ st.outers e := by
    intro i hi
    obtain ⟨hlt, hi⟩ := Finset.mem_filter.1 hi
    exact Finset.mem_filter.2 ⟨hlt, .head hlink hi⟩
  have hmem : outer.index ∈ st.outers e :=
    Finset.mem_filter.2 ⟨Finset.mem_range.2 (index_lt (h.linked e outer hlink)), .single hlink⟩
  have hnot : outer.index ∉ st.outers outer := by
    intro hi
    exact h.acyclic outer (Finset.mem_filter.1 hi).2
  exact Finset.card_lt_card ⟨hsub, fun hle => hnot (hle hmem)⟩

/-- A scope leads to fewer scopes than there are, as it does not lead to itself. -/
theorem card_outers_lt_size (he : (st.scope? e).isSome) : (st.outers e).card < st.scopes.size := by
  classical
  have hnot : e.index ∉ st.outers e := by
    intro hi
    exact h.acyclic e (Finset.mem_filter.1 hi).2
  have hlt : (st.outers e).card < (Finset.range st.scopes.size).card :=
    Finset.card_lt_card ⟨Finset.filter_subset _ _, fun hle =>
      hnot (hle (Finset.mem_range.2 (index_lt he)))⟩
  rwa [Finset.card_range] at hlt

/-- A loop along the links ends after fewer links than there are scopes. -/
theorem exists_walks {β : Type} (seek : ScopeId → Option β) (he : (st.scope? e).isSome) :
    ∃ n r, n < st.scopes.size ∧ Walks seek st.enclosing? n e r := by
  obtain ⟨n, r, hle, hw⟩ := Walks.exists_of_rank seek (fun e => (st.outers e).card)
    (fun _ _ hlink => h.card_outers_lt hlink) e
  exact ⟨n, r, Nat.lt_of_le_of_lt hle (h.card_outers_lt_size he), hw⟩

theorem walks_owner? (he : (st.scope? e).isSome) (x : String) :
    ∃ n, Walks (st.binder? x) st.enclosing? n e (st.owner? e x) := by
  obtain ⟨n, o, hlt, hw⟩ := h.exists_walks (st.binder? x) he
  have howner : st.owner? e x = o := ownerWithin?_eq hw hlt
  exact ⟨n, howner ▸ hw⟩

theorem walks_depth (he : (st.scope? e).isSome) :
    Walks (fun _ => (none : Option Unit)) st.enclosing? (st.depth e) e none := by
  obtain ⟨n, o, hlt, hw⟩ := h.exists_walks (fun _ => (none : Option Unit)) he
  have hdepth : st.depth e = n := depthWithin_eq hw (Nat.le_of_lt hlt)
  rw [hdepth]
  exact hw.eq_none ▸ hw

/-- A search finds the nearest scope that binds the name. -/
theorem owner?_eq_some_iff (he : (st.scope? e).isSome) :
    st.owner? e x = some a ↔ ∃ d, st.Nearest e x d a := by
  obtain ⟨n, hw⟩ := h.walks_owner? he x
  constructor
  · intro ho
    rw [ho] at hw
    exact ⟨n, .of_walks hw⟩
  · rintro ⟨d, hnear⟩
    cases ho : st.owner? e x with
    | none =>
      rw [ho] at hw
      have hnot := not_binds_of_walks hw hnear.reached
      rw [hnear.bound] at hnot
      cases hnot
    | some b =>
      rw [ho] at hw
      rw [(hnear.unique (.of_walks hw)).2]

/-- A search succeeds if the name is bound at some distance. -/
theorem isSome_owner?_iff (he : (st.scope? e).isSome) :
    (st.owner? e x).isSome ↔ ∃ d a, st.ancestor? d e = some a ∧ st.binds a x = true := by
  constructor
  · intro ho
    obtain ⟨a, ho⟩ := Option.isSome_iff_exists.1 ho
    obtain ⟨d, hnear⟩ := (h.owner?_eq_some_iff he).1 ho
    exact ⟨d, a, hnear.reached, hnear.bound⟩
  · rintro ⟨d, a, hreached, hb⟩
    obtain ⟨n, hw⟩ := h.walks_owner? he x
    cases ho : st.owner? e x with
    | some b => rfl
    | none =>
      rw [ho] at hw
      have hnot := not_binds_of_walks hw hreached
      rw [hb] at hnot
      cases hnot

/-- Two searches find the same binding if they find the same scope. -/
theorem sameBinding_iff (he : (st.scope? e).isSome) (hf : (st.scope? f).isSome)
    (ho : st.owner? e x = some a) : st.SameBinding x e f ↔ st.owner? f x = some a := by
  constructor
  · rintro ⟨b, d, k, hed, hfk⟩
    have hb := (h.owner?_eq_some_iff he).2 ⟨d, hed⟩
    rw [ho] at hb
    cases hb
    exact (h.owner?_eq_some_iff hf).2 ⟨k, hfk⟩
  · intro hfo
    obtain ⟨d, hed⟩ := (h.owner?_eq_some_iff he).1 ho
    obtain ⟨k, hfk⟩ := (h.owner?_eq_some_iff hf).1 hfo
    exact ⟨a, d, k, hed, hfk⟩

end Forest

/-! ### Assigning -/

theorem read?_of_binds (h : st.binds a x = true) : ∃ w, st.read? a x = some w :=
  Option.isSome_iff_exists.1 h

/-- Overwriting a binding leaves all names as they are. -/
theorem binds_define (h : st.binds a x = true) (f : ScopeId) (y : String) :
    (st.define a x v).binds f y = st.binds f y := by
  unfold binds
  rw [read?_define]
  split
  · rename_i hsame
    obtain ⟨rfl, rfl, -⟩ := hsame
    exact h.symm
  · rfl

/-- A search is led by the links and the names alone. -/
theorem ownerWithin?_congr (hlinks : ∀ f, st'.enclosing? f = st.enclosing? f)
    (hnames : ∀ f, st'.binds f x = st.binds f x) (n : Nat) (e : ScopeId) :
    st'.ownerWithin? x n e = st.ownerWithin? x n e := by
  induction n generalizing e with
  | zero => rfl
  | succ n ih =>
    rw [ownerWithin?, ownerWithin?, hlinks, hnames]
    simp only [ih]

theorem owner?_define (h : st.binds a x = true) (f : ScopeId) (y : String) :
    (st.define a x v).owner? f y = st.owner? f y := by
  unfold owner?
  rw [size_define]
  exact ownerWithin?_congr (fun t => enclosing?_define ..) (fun t => binds_define h t y) _ f

/-- What is found after an assignment. -/
theorem get?_define (h : st.binds a x = true) (f : ScopeId) (y : String) :
    (st.define a x v).get? f y =
      if y = x ∧ st.owner? f y = some a then some v else st.get? f y := by
  unfold get?
  rw [owner?_define h]
  cases ho : st.owner? f y with
  | none => simp
  | some b =>
    obtain ⟨w, hw⟩ := read?_of_binds h
    have hthere := scope?_isSome_of_lt (lt_of_read? hw)
    rw [Option.bind_some, Option.bind_some, read?_define]
    by_cases hb : b = a <;> by_cases hy : y = x <;> simp [hb, hy, hthere]

/-! ### Agreement -/

/-- Searching for a name from a scope, and going from there a known number of links, agree: on whether the
name is bound, on its value, and on what assigning it changes. -/
structure SearchAgrees (st : Store) (e : ScopeId) (x : String) (v : Value) : Prop where
  contains : st.contains e x = true ↔ ∃ d a, st.ancestor? d e = some a ∧ st.binds a x = true
  get : (st.get? e x).isSome = st.contains e x
  assign : (st.assign? e x v).isSome = st.contains e x
  /-- The least distance at which the name is bound gives what the search gives. -/
  nearest : ∀ d a, st.Nearest e x d a →
    (∃ w, st.get? e x = some w ∧ st.getAt e d x = .ok w) ∧
    ∃ st', st.assign? e x v = some st' ∧ st.assignAt e d x v = .ok st'
  least : st.contains e x = true → ∃ d a, st.Nearest e x d a
  /-- What is found after an assignment, from any scope and for any name. -/
  found : ∀ st', st.assign? e x v = some st' → ∀ f, (st.scope? f).isSome → ∀ y,
    (y = x ∧ st.SameBinding x e f → st'.get? f y = some v) ∧
    (¬ (y = x ∧ st.SameBinding x e f) → st'.get? f y = st.get? f y)
  names : ∀ st', st.assign? e x v = some st' → ∀ f y, st'.binds f y = st.binds f y
  /-- The depth counts the links. -/
  depth : Walks (fun _ => (none : Option Unit)) st.enclosing? (st.depth e) e none
  getAt : ∀ d : Nat, (∃ fault, st.getAt e d x = .error fault) ↔
    st.depth e < d ∨ ∃ a, st.ancestor? d e = some a ∧ st.binds a x = false
  assignAt : ∀ d : Nat, (∃ fault, st.assignAt e d x v = .error fault) ↔ st.depth e < d
  /-- A search that fails is an error at the name and changes nothing. -/
  missed : st.contains e x = false → ∀ (ctx : Context) id (name : Token) (s : RunState),
    ctx.globals = e → ctx.table[id]? = none → name.lexeme = x → s.store = st →
      Run.lookUp ctx id name s = .raised (.error ⟨.undefinedVariable, name⟩) s ∧
      Run.assign ctx id name v s = .raised (.error ⟨.undefinedVariable, name⟩) s
  /-- Neither does a distance that does not fit. -/
  misfit : ∀ (d : Nat) fault (ctx : Context) id (name : Token) (s : RunState),
    ctx.table[id]? = some d → s.scope = e → name.lexeme = x → s.store = st →
      (st.getAt e d x = .error fault → Run.lookUp ctx id name s = .raised (.scope fault) s) ∧
      (st.assignAt e d x v = .error fault → Run.assign ctx id name v s = .raised (.scope fault) s)

theorem scopeAt_eq_ok (h : st.ancestor? d e = some a) : st.scopeAt e d = .ok a := by
  rw [scopeAt, Int.toNat_natCast, h]

theorem scopeAt_eq_error (h : st.ancestor? d e = none) :
    st.scopeAt e d = .error (.walksPast d) := by
  rw [scopeAt, Int.toNat_natCast, h]

/-- There is no scope at a distance if there are not so many links. -/
theorem Forest.ancestor?_eq_none_iff (h : st.Forest) (he : (st.scope? e).isSome) :
    st.ancestor? d e = none ↔ st.depth e < d := by
  rw [← Nat.not_le, ← isSome_ancestor?_iff (h.walks_depth he), Option.not_isSome_iff_eq_none]

/-- A resolved local is read unless there is no scope at the distance, or one that does not bind it. -/
theorem exists_getAt_eq_error_iff : (∃ fault, st.getAt e d x = .error fault) ↔
    st.ancestor? d e = none ∨ ∃ a, st.ancestor? d e = some a ∧ st.binds a x = false := by
  cases ha : st.ancestor? d e with
  | none => simp [Store.getAt, scopeAt_eq_error ha]
  | some a =>
    simp only [Store.getAt, scopeAt_eq_ok ha]
    cases hr : st.read? a x <;> simp [binds, hr]

/-- A resolved local is written if there is a scope at the distance. -/
theorem assignAt_eq_error_iff {fault : ScopeFault} :
    st.assignAt e d x v = .error fault ↔ st.scopeAt e d = .error fault := by
  unfold Store.assignAt
  cases st.scopeAt e d <;> simp

theorem exists_assignAt_eq_error_iff :
    (∃ fault, st.assignAt e d x v = .error fault) ↔ st.ancestor? d e = none := by
  simp only [assignAt_eq_error_iff]
  cases ha : st.ancestor? d e with
  | none => simp [scopeAt_eq_error ha]
  | some a => simp [scopeAt_eq_ok ha]

/-- In a forest of scopes searching for a name agrees with going a known number of links. -/
theorem Forest.searchAgrees (h : st.Forest) (he : (st.scope? e).isSome) (x : String) (v : Value) :
    st.SearchAgrees e x v where
  contains := h.isSome_owner?_iff he
  get := by
    unfold get? Store.contains
    cases ho : st.owner? e x with
    | none => rfl
    | some a =>
      obtain ⟨d, hnear⟩ := (h.owner?_eq_some_iff he).1 ho
      exact hnear.bound
  assign := Option.isSome_map
  nearest d a hnear := by
    have ho : st.owner? e x = some a := (h.owner?_eq_some_iff he).2 ⟨d, hnear⟩
    obtain ⟨w, hw⟩ := read?_of_binds hnear.bound
    refine ⟨⟨w, ?_, ?_⟩, st.define a x v, ?_, ?_⟩
    · rw [get?, ho, Option.bind_some, hw]
    · simp only [Store.getAt, scopeAt_eq_ok hnear.reached, hw]
    · rw [assign?, ho]
      rfl
    · simp only [Store.assignAt, scopeAt_eq_ok hnear.reached]
  least hc := by
    obtain ⟨a, ho⟩ := Option.isSome_iff_exists.1 hc
    obtain ⟨d, hnear⟩ := (h.owner?_eq_some_iff he).1 ho
    exact ⟨d, a, hnear⟩
  found st' hst f hf y := by
    obtain ⟨a, ho, rfl⟩ := Option.map_eq_some_iff.1 hst
    obtain ⟨d, hnear⟩ := (h.owner?_eq_some_iff he).1 ho
    rw [get?_define hnear.bound, h.sameBinding_iff he hf ho]
    constructor
    · rintro ⟨rfl, hfo⟩
      rw [if_pos ⟨rfl, hfo⟩]
    · intro hnot
      refine if_neg ?_
      rintro ⟨rfl, hfo⟩
      exact hnot ⟨rfl, hfo⟩
  names st' hst f y := by
    obtain ⟨a, ho, rfl⟩ := Option.map_eq_some_iff.1 hst
    obtain ⟨d, hnear⟩ := (h.owner?_eq_some_iff he).1 ho
    exact binds_define hnear.bound f y
  depth := h.walks_depth he
  getAt d := by
    rw [exists_getAt_eq_error_iff, h.ancestor?_eq_none_iff he]
  assignAt d := by
    rw [exists_assignAt_eq_error_iff, h.ancestor?_eq_none_iff he]
  missed hc ctx id name s hg htable hname hst := by
    have ho : st.owner? e x = none := Option.not_isSome_iff_eq_none.1 (by
      rw [Bool.not_eq_true]
      exact hc)
    subst hg hname hst
    constructor
    · refine Run.lookUp_of_undefined htable ?_
      rw [get?, ho]
      rfl
    · rw [Run.assign, Action.bind_apply, Run.assignedScope_of_undefined htable ho]
  misfit d fault ctx id name s htable hscope hname hst := by
    subst hscope hname hst
    constructor
    · intro hg
      rw [Run.lookUp_of_local htable, hg]
      rfl
    · intro ha
      rw [Run.assign, Action.bind_apply, Run.assignedScope_of_local htable, assignAt_eq_error_iff.1 ha]
      rfl

/-- A global scope with a name that is nil, and two scopes in it, of which one shadows the name. -/
def shadowed : Store where
  scopes := #[
    { values := {("a", .nil)} },
    { enclosing := some ⟨0⟩, values := {("a", .bool true)} },
    { enclosing := some ⟨0⟩, values := ∅ }]

theorem shadowed_forest : shadowed.Forest := by
  have hlinks : ∀ e outer, shadowed.enclosing? e = some outer → outer = ⟨0⟩ ∧ 0 < e.index := by
    rintro ⟨i⟩ outer h
    match i with
    | 0 => cases h
    | 1 | 2 =>
      cases h
      exact ⟨rfl, Nat.zero_lt_succ _⟩
    | i + 3 => cases h
  refine ⟨fun e outer h => ?_, acyclic_of_rank ScopeId.index fun e outer h => ?_⟩
  · obtain ⟨rfl, -⟩ := hlinks e outer h
    rfl
  · obtain ⟨rfl, hlt⟩ := hlinks e outer h
    exact hlt

/-- The name is assigned from the scope that does not bind it: the global one changes, and the scope that
shadows it does not. -/
theorem shadowed_searchAgrees :
    shadowed.Forest ∧ (shadowed.scope? ⟨2⟩).isSome ∧
      ∃ st', shadowed.assign? ⟨2⟩ "a" (.bool false) = some st' ∧
        shadowed.assignAt ⟨2⟩ (1 : Nat) "a" (.bool false) = .ok st' ∧
        st'.get? ⟨0⟩ "a" = some (.bool false) ∧ st'.get? ⟨1⟩ "a" = some (.bool true) := by
  have h := shadowed_forest.searchAgrees (e := ⟨2⟩) rfl "a" (.bool false)
  have hnear : shadowed.Nearest ⟨2⟩ "a" 1 ⟨0⟩ := by
    refine ⟨rfl, rfl, fun k hk b hb => ?_⟩
    obtain rfl := Nat.lt_one_iff.1 hk
    cases hb
    rfl
  have hself : ∀ e : ScopeId, shadowed.binds e "a" = true → shadowed.Nearest e "a" 0 e :=
    fun e hb => ⟨rfl, hb, fun k hk => absurd hk (Nat.not_lt_zero k)⟩
  obtain ⟨-, st', hassign, hat⟩ := h.nearest 1 ⟨0⟩ hnear
  refine ⟨shadowed_forest, rfl, st', hassign, hat, ?_, ?_⟩
  · exact (h.found st' hassign ⟨0⟩ rfl "a").1 ⟨rfl, ⟨0⟩, 1, 0, hnear, hself ⟨0⟩ rfl⟩
  · refine (h.found st' hassign ⟨1⟩ rfl "a").2 ?_
    rintro ⟨-, a, d, k, hd, hk⟩
    obtain ⟨-, rfl⟩ := hd.unique hnear
    cases (hk.unique (hself ⟨1⟩ rfl)).2

end Store

/-- The scopes of every store that is reached form a forest. -/
theorem Interpretation.reaches_forest {registry : NativeRegistry} {config : Config} {I : Interpretation}
    {st : Store} (h : Interpreter.Reachable registry config I.interpreter) (hst : I.Reaches st) :
    st.Forest := by
  have hg := grounded_of_reachable h hst
  refine ⟨fun e outer he => ?_, hg.chainsEnd.scopes⟩
  exact Store.scope?_isSome_of_lt
    (Nat.lt_trans (hg.lt_of_enclosing he) (Store.lt_of_enclosing? he))

end Lox
