import Lox.Store.Lemmas
import Lox.Proofs.Scoping.Bare
import Lox.Proofs.Scoping.Regular
import Lox.Proofs.Run.Visits

/-!
# Scopes that mirror a nesting

A chain of scopes mirrors a nesting if, from the innermost outwards, each scope of the chain was
made for what opens the frame, and the globals come right after the last.  Where the programs break no
static rule (`Setting.clean`), a scope moreover binds the names of its frame that are ready, apart
from those that a declaration standing alone as a branch may leave out (`Setting.sure`).

What a run does to the store keeps this true (`Store.Extends`): it makes scopes and binds names, and
changes neither a link nor, where the programs are well-named too, what a scope with `super` holds.
-/

namespace Lox

/-- What a run of some programs may rely on: the nodes it may come to, with their nestings; the
functions it may call, with the nesting around their scopes; the scopes it may make; the names it may
bind in the globals; the names that a scope of some kind is sure to bind once they are declared;
whether the programs break no static rule; whether moreover they are well-named; and whether,
strictly, no declaration stands alone as a branch either. -/
structure Setting where
  context : Context
  known : Nesting → Part → Prop
  declared : Nesting → FunctionDecl → Prop
  opened : ScopeId → Opening → Prop
  global : String → Prop
  sure : Opener → String → Prop
  clean : Prop
  named : Prop
  strict : Prop
  known_child : ∀ {Γ t i c}, known Γ t → t.children[i]? = some c → known (Γ.enter t i) c
  declared_function : ∀ {Γ f}, known Γ (.stmt (.function f)) → declared (Γ.declareReady f.name.lexeme) f
  declared_method : ∀ {Γ f}, known Γ (.method f) → declared Γ f
  declared_body : ∀ {Γ f}, declared Γ f → ∀ i s, f.body[i]? = some s →
    known (Nesting.afterAll (Frame.ofCall f :: Γ) (f.body.take i)) (.stmt s)
  declared_unique : ∀ {Γ Δ f}, declared Γ f → declared Δ f → Γ = Δ
  table_eq : ∀ {Γ t id}, known Γ t → t.id? = some id → context.table[id]? = t.entry? Γ
  global_of_known : ∀ {t x}, known [] t → t.declares? = some x → global x
  fit : clean → ∀ {Γ t}, known Γ t → Place.Fit named ⟨Γ, t⟩
  unsure : clean → ∀ {Γ} {t c : Part} {i : Nat} {x o}, known Γ t → t.branches → t.children[i]? = some c →
    c.declares? = some x → (Γ.map (·.opener)).head? = some o → ¬ sure o x
  sure_this : named → ∀ o, sure o "this"
  clean_of_named : named → clean
  named_of_strict : strict → named
  sure_of_strict : strict → ∀ o x, sure o x
  wellScoped : strict → ∀ {Γ t}, known Γ t → t.WellScoped

theorem Setting.clean_of_strict (S : Setting) (hs : S.strict) : S.clean :=
  S.clean_of_named (S.named_of_strict hs)

/-- All operators and literals that a run may come to can be evaluated. -/
def Setting.Evaluable (S : Setting) : Prop := ∀ Γ t, S.known Γ t → t.Evaluable

namespace Store

variable {st st' st'' : Store}

/-- The superclass a scope holds. -/
def HoldsClass (st : Store) (e : ScopeId) : Prop := ∃ c, st.read? e "super" = some (.cls c)

/-- A store that comes later in a run. -/
structure Extends (named : Prop) (st st' : Store) : Prop where
  size : st.scopes.size ≤ st'.scopes.size
  enclosing : ∀ e, e.index < st.scopes.size → st'.enclosing? e = st.enclosing? e
  bound : ∀ e x, (st.read? e x).isSome → (st'.read? e x).isSome
  functions : ∀ id f, st.function? id = some f → st'.function? id = some f
  holds : named → ∀ e, st.HoldsClass e → st'.HoldsClass e

namespace Extends

variable {named : Prop}

theorem refl (st : Store) : st.Extends named st :=
  ⟨Nat.le_refl _, fun _ _ => rfl, fun _ _ h => h, fun _ _ h => h, fun _ _ h => h⟩

theorem trans (h : st.Extends named st') (h' : st'.Extends named st'') : st.Extends named st'' where
  size := Nat.le_trans h.size h'.size
  enclosing e he := (h'.enclosing e (Nat.lt_of_lt_of_le he h.size)).trans (h.enclosing e he)
  bound e x hx := h'.bound e x (h.bound e x hx)
  functions id f hf := h'.functions id f (h.functions id f hf)
  holds hc e he := h'.holds hc e (h.holds hc e he)

theorem enclosing_some (h : st.Extends named st') {e e' : ScopeId}
    (he : st.enclosing? e = some e') : st'.enclosing? e = some e' := by
  rw [h.enclosing e (lt_of_enclosing? he), he]

/-! ### The operations of a run -/

theorem define (st : Store) (e : ScopeId) {x : String} (v : Value) (hx : named → x ≠ "super") :
    st.Extends named (st.define e x v) where
  size := by simp
  enclosing _ _ := by simp
  bound t y h := by
    rw [read?_define]
    split
    · rfl
    · exact h
  functions _ _ h := h
  holds hc t := by
    rintro ⟨c, h⟩
    refine ⟨c, ?_⟩
    rw [read?_define, if_neg]
    · exact h
    · rintro ⟨-, h, -⟩
      exact hx hc h.symm

theorem newScope (st : Store) (scope : Scope) : st.Extends named (st.newScope scope).2 := by
  have hne : ∀ e : ScopeId, e.index < st.scopes.size → e ≠ (st.newScope scope).1 := by
    rintro e he rfl
    exact Nat.lt_irrefl _ he
  refine ⟨by simp, fun e he => ?_, fun e x hx => ?_, fun _ _ h => h, fun _ e he => ?_⟩
  · rw [enclosing?_newScope, if_neg (hne e he)]
  · obtain ⟨v, hv⟩ := Option.isSome_iff_exists.1 hx
    rw [read?_newScope, if_neg (hne e (lt_of_read? hv)), hv]
    rfl
  · obtain ⟨c, hv⟩ := he
    refine ⟨c, ?_⟩
    rw [read?_newScope, if_neg (hne e (lt_of_read? hv)), hv]

theorem newFunction (st : Store) (f : FunctionObject) :
    st.Extends named (st.newFunction f).2 where
  size := Nat.le_refl _
  enclosing _ _ := rfl
  bound _ _ h := h
  functions g f' h := by
    rw [function?_newFunction, if_neg]
    · exact h
    · rintro rfl
      exact Nat.lt_irrefl _ (lt_of_function? h)
  holds _ _ h := h

theorem newClass (st : Store) (c : ClassObject) : st.Extends named (st.newClass c).2 :=
  ⟨Nat.le_refl _, fun _ _ => rfl, fun _ _ h => h, fun _ _ h => h, fun _ _ h => h⟩

theorem newInstance (st : Store) (c : ClassId) : st.Extends named (st.newInstance c).2 :=
  ⟨Nat.le_refl _, fun _ _ => rfl, fun _ _ h => h, fun _ _ h => h, fun _ _ h => h⟩

theorem setField (st : Store) (i : InstanceId) (x : String) (v : Value) :
    st.Extends named (st.setField i x v) :=
  ⟨Nat.le_refl _, fun _ _ => rfl, fun _ _ h => h, fun _ _ h => h, fun _ _ h => h⟩

end Extends

end Store

/-! ### Mirroring -/

variable (S : Setting) (N : String → Prop) (st : Store)

/-- A scope stands for a frame: it is local, was made for what opens the frame, in a clean setting
binds the names `N` of the frame that are ready and sure to be bound, and if the programs are
well-named it binds a class where it holds `super`. -/
structure Activation (f : Frame) (e : ScopeId) : Prop where
  ne_globals : e ≠ S.context.globals
  opened : ∃ w, S.opened e w ∧ f.opener.OpenedBy w
  bound : S.clean → ∀ x, S.sure f.opener x → N x → f.ready? x = some true →
    (st.read? e x).isSome
  holds : S.named → ∀ id, f.opener = .super id → st.HoldsClass e

/-- A nesting asks for no more than another: the same scopes are open, and what is ready in it and
sure to be bound is ready in the other. -/
def Setting.Covers (S : Setting) (Γ Δ : Nesting) : Prop :=
  List.Forall₂ (fun f g => g.opener = f.opener ∧ (S.clean → ∀ x, S.sure g.opener x →
    g.ready? x = some true → f.ready? x = some true)) Γ Δ

/-- The scopes from `e` outwards stand for the frames, and the globals come after them. -/
def Mirrors : Nesting → ScopeId → Prop
  | [], e => e = S.context.globals
  | f :: Γ, e => Activation S N st f e ∧ ∃ e', st.enclosing? e = some e' ∧ Mirrors Γ e'

variable {S N st} {st' : Store} {f : Frame} {Γ : Nesting} {e : ScopeId}

theorem Activation.mono (h : Activation S N st f e) (hx : st.Extends S.named st') :
    Activation S N st' f e :=
  ⟨h.ne_globals, h.opened, fun hc x hS hN hr => hx.bound e x (h.bound hc x hS hN hr),
    fun hc id ho => hx.holds hc e (h.holds hc id ho)⟩

/-- A frame of the same scope with other marks. -/
theorem Activation.remark {g : Frame} {M : String → Prop} (h : Activation S N st f e)
    (ho : g.opener = f.opener) (hb : S.clean → ∀ x, S.sure g.opener x → M x →
      g.ready? x = some true → (N x ∧ f.ready? x = some true) ∨ (st.read? e x).isSome) :
    Activation S M st g e where
  ne_globals := h.ne_globals
  opened := ho ▸ h.opened
  bound hc x hS hM hr := by
    rcases hb hc x hS hM hr with ⟨hN, hf⟩ | hx
    · exact h.bound hc x (ho ▸ hS) hN hf
    · exact hx
  holds hc id hid := h.holds hc id (ho ▸ hid)

namespace Mirrors

/-- The scopes of a chain go on standing for the frames. -/
theorem mono (hx : st.Extends S.named st') :
    ∀ {Γ e}, Mirrors S N st Γ e → Mirrors S N st' Γ e
  | [], _, h => h
  | _ :: _, _, ⟨ha, e', he, h⟩ => ⟨ha.mono hx, e', hx.enclosing_some he, mono hx h⟩

theorem weaken {M : String → Prop} (hM : ∀ x, M x → N x) :
    ∀ {Γ e}, Mirrors S N st Γ e → Mirrors S M st Γ e
  | [], _, h => h
  | _ :: _, _, ⟨ha, e', he, h⟩ =>
    ⟨ha.remark rfl fun _ x _ hx hr => .inl ⟨hM x hx, hr⟩, e', he, weaken hM h⟩

/-- A name that waits for its initializer need not be bound. -/
theorem mark_false (h : Mirrors S N st Γ e) (x : String) : Mirrors S N st (Γ.mark x false) e := by
  cases Γ with
  | nil => exact h
  | cons f Γ =>
    obtain ⟨ha, e', he, h⟩ := h
    refine ⟨ha.remark rfl fun _ y _ hy hr => ?_, e', he, h⟩
    rw [Frame.ready?_mark] at hr
    split at hr
    · cases hr
    · exact .inl ⟨hy, hr⟩

/-- A name that is ready has to be bound. -/
theorem mark_true (h : Mirrors S N st Γ e) {x : String}
    (hx : e ≠ S.context.globals → (st.read? e x).isSome) : Mirrors S N st (Γ.mark x true) e := by
  cases Γ with
  | nil => exact h
  | cons f Γ =>
    obtain ⟨ha, e', he, h⟩ := h
    refine ⟨ha.remark rfl fun _ y _ hy hr => ?_, e', he, h⟩
    rw [Frame.ready?_mark] at hr
    split at hr
    · rename_i hyx
      exact .inr (hyx ▸ hx ha.ne_globals)
    · exact .inl ⟨hy, hr⟩

theorem declareReady (h : Mirrors S N st Γ e) {x : String}
    (hx : e ≠ S.context.globals → (st.read? e x).isSome) :
    Mirrors S N st (Γ.declareReady x) e := (h.mark_false x).mark_true hx

/-- A name that is declared but not used need not be bound. -/
theorem declareReady_unused {M : String → Prop} (h : Mirrors S N st Γ e) {x : String}
    (hM : ∀ y, M y → N y ∧ y ≠ x) : Mirrors S M st (Γ.declareReady x) e := by
  cases Γ with
  | nil => exact h
  | cons f Γ =>
    obtain ⟨ha, e', he, h⟩ := h
    refine ⟨ha.remark rfl fun _ y _ hy hr => .inl ⟨(hM y hy).1, ?_⟩, e', he,
      h.weaken fun y hy => (hM y hy).1⟩
    rw [Frame.ready?_mark, if_neg (hM y hy).2, Frame.ready?_mark,
      if_neg (hM y hy).2] at hr
    exact hr

/-- The scope that a distance leads to stands for the frame at that distance. -/
theorem ancestor {d : Nat} (h : Mirrors S N st Γ e) (hf : Γ[d]? = some f) :
    ∃ a, st.ancestor? d e = some a ∧ Activation S N st f a := by
  induction d generalizing Γ e with
  | zero =>
    cases Γ with
    | nil => cases hf
    | cons g Γ =>
      cases hf
      exact ⟨e, rfl, h.1⟩
  | succ d ih =>
    cases Γ with
    | nil => cases hf
    | cons g Γ =>
      obtain ⟨-, e', he, h⟩ := h
      obtain ⟨a, ha, hact⟩ := ih h hf
      refine ⟨a, ?_, hact⟩
      rw [Store.ancestor?, he]
      exact ha

/-- A scope mirrors nestings of one length. -/
theorem length_eq {M : String → Prop} : ∀ {Γ Δ : Nesting} {e : ScopeId}, Mirrors S N st Γ e →
    Mirrors S M st Δ e → Γ.length = Δ.length
  | [], [], _, _, _ => rfl
  | [], _ :: _, _, h, ⟨h', _⟩ => absurd h h'.ne_globals
  | _ :: _, [], _, ⟨h, _⟩, h' => absurd h' h.ne_globals
  | _ :: _, _ :: _, _, ⟨_, e, he, h⟩, ⟨_, e', he', h'⟩ => by
    rw [he] at he'
    cases he'
    rw [List.length_cons, List.length_cons, length_eq h h']

/-- The marks matter in a clean setting alone. -/
theorem of_openers (hc : ¬ S.clean) {M : String → Prop} : ∀ {Γ Δ : Nesting} {e : ScopeId},
    Γ.map (·.opener) = Δ.map (·.opener) → Mirrors S N st Γ e → Mirrors S M st Δ e
  | [], [], _, _, h => h
  | _ :: _, _ :: _, _, ho, ⟨ha, e', he, h⟩ =>
    ⟨ha.remark (List.cons.inj ho).1.symm fun hcl => absurd hcl hc, e', he,
      of_openers hc (List.cons.inj ho).2 h⟩

/-- What mirrors a nesting mirrors all that ask for no more. -/
theorem congr {Δ : Nesting} (h : Mirrors S N st Γ e) (hc : S.Covers Γ Δ) :
    Mirrors S N st Δ e := by
  induction hc generalizing e with
  | nil => exact h
  | cons hfg _ ih =>
    obtain ⟨ha, e', he, h⟩ := h
    exact ⟨ha.remark hfg.1 fun hcl x hS hN hr => .inl ⟨hN, hfg.2 hcl x hS hr⟩, e', he, ih h⟩

end Mirrors

/-! ### Nestings that ask for less -/

namespace Setting.Covers

variable {Γ Δ Θ : Nesting}

theorem refl (Γ : Nesting) : S.Covers Γ Γ :=
  List.forall₂_same.2 fun _ _ => ⟨rfl, fun _ _ _ h => h⟩

theorem trans (h : S.Covers Γ Δ) (h' : S.Covers Δ Θ) : S.Covers Γ Θ := by
  induction h generalizing Θ with
  | nil => exact h'
  | cons hfg _ ih =>
    cases h' with
    | cons hgk h' =>
      refine .cons ⟨hgk.1.trans hfg.1, fun hc x hS hr => ?_⟩ (ih h')
      exact hfg.2 hc x (hgk.1 ▸ hS) (hgk.2 hc x hS hr)

/-- A name that the innermost scope has ready may be asked for less often. -/
theorem declareReady (Γ : Nesting) (x : String) : S.Covers (Γ.declareReady x) Γ := by
  cases Γ with
  | nil => exact .nil
  | cons f Γ =>
    refine .cons ⟨rfl, fun _ y _ hr => ?_⟩ (Covers.refl Γ)
    rw [Frame.ready?_mark, Frame.ready?_mark]
    split
    · rfl
    · exact hr

/-- A name that is not sure to be bound makes no difference. -/
theorem of_unsure (Γ : Nesting) {x : String}
    (hx : S.clean → ∀ o, (Γ.map (·.opener)).head? = some o → ¬ S.sure o x) :
    S.Covers Γ (Γ.declareReady x) := by
  cases Γ with
  | nil => exact .nil
  | cons f Γ =>
    refine .cons ⟨rfl, fun hc y hS hr => ?_⟩ (Covers.refl Γ)
    have hne : y ≠ x := by
      rintro rfl
      exact hx hc f.opener rfl hS
    rwa [Frame.ready?_mark, if_neg hne, Frame.ready?_mark, if_neg hne] at hr

/-- After a statement all names are ready that were ready before. -/
theorem after : ∀ (Γ : Nesting) (s : Stmt), S.Covers (Γ.after s) Γ
  | Γ, .varDecl _ name _ => declareReady Γ name.lexeme
  | Γ, .function f => declareReady Γ f.name.lexeme
  | Γ, .classDecl _ name _ _ => declareReady Γ name.lexeme
  | Γ, .branch _ _ t none => after Γ t
  | Γ, .branch _ _ t (some e) => (after (Γ.after t) e).trans (after Γ t)
  | Γ, .loop _ _ body => after Γ body
  | Γ, .block .. => .refl Γ
  | Γ, .expression .. => .refl Γ
  | Γ, .print .. => .refl Γ
  | Γ, .ret .. => .refl Γ

/-- What a statement declares, apart from a declaration itself, is not sure to be bound. -/
theorem of_after : ∀ {Γ : Nesting} (s : Stmt), S.known Γ (.stmt s) →
    (S.clean → ∀ x o, (Part.stmt s).declares? = some x → (Γ.map (·.opener)).head? = some o →
      ¬ S.sure o x) → S.Covers Γ (Γ.after s)
  | Γ, .varDecl _ name _, _, hx => .of_unsure Γ fun hc o ho => hx hc name.lexeme o rfl ho
  | Γ, .function f, _, hx => .of_unsure Γ fun hc o ho => hx hc f.name.lexeme o rfl ho
  | Γ, .classDecl _ name _ _, _, hx => .of_unsure Γ fun hc o ho => hx hc name.lexeme o rfl ho
  | Γ, .branch _ _ t none, hk, _ =>
    of_after t (S.known_child hk (i := 1) rfl) fun hc _ _ hx ho =>
      S.unsure hc hk rfl (i := 1) rfl hx ho
  | Γ, .branch _ _ t (some e), hk, _ => by
    have ht : S.Covers Γ (Γ.after t) :=
      of_after t (S.known_child hk (i := 1) rfl) fun hc _ _ hx ho =>
        S.unsure hc hk rfl (i := 1) rfl hx ho
    refine ht.trans (of_after e (S.known_child hk (i := 2) rfl) fun hc x o hx ho => ?_)
    rw [Nesting.openers_after] at ho
    exact S.unsure hc hk rfl (i := 2) rfl hx ho
  | Γ, .loop _ _ body, hk, _ =>
    of_after body (S.known_child hk (i := 1) rfl) fun hc _ _ hx ho =>
      S.unsure hc hk rfl (i := 1) rfl hx ho
  | Γ, .block .., _, _ => .refl Γ
  | Γ, .expression .., _, _ => .refl Γ
  | Γ, .print .., _, _ => .refl Γ
  | Γ, .ret .., _, _ => .refl Γ

end Setting.Covers

end Lox
