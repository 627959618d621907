import Lox.Proofs.WellFormed
import Lox.Proofs.Scoping.Declarations

/-!
# Which names of a nesting are ready

Names wait for their initializer in the innermost scope only, and only inside of that initializer;
the scopes of a class hold `this` and `super` and are never marked again.  In a program that breaks
no static rule it follows that a variable that is read, a `this` and a `super` find a name that is
ready, and a `super` finds it just outside of a scope with `this`.
-/

namespace Lox

/-- Every name of the scope is ready. -/
def Frame.Settled (f : Frame) : Prop := ∀ x, f.ready? x ≠ some false

theorem Frame.Settled.mark {f : Frame} (h : f.Settled) (x : String) : (f.mark x true).Settled := by
  intro y
  rw [ready?_mark]
  split
  · simp
  · exact h y

/-- Marking a name ready settles what was pending of it. -/
theorem Frame.Settled.markReady {f : Frame} (h : f.Settled) (x : String) :
    (f.markReady x).Settled := by
  intro y
  rw [Frame.markReady, ready?_mark, ready?_mark]
  split
  · simp
  · exact h y

theorem Frame.settled_ofCall (f : FunctionDecl) : (Frame.ofCall f).Settled := by
  have key : ∀ (params : List Token) (frame : Frame), frame.Settled →
      (params.foldl (fun frame p => frame.markReady p.lexeme) frame).Settled := by
    intro params
    induction params with
    | nil => exact fun _ h => h
    | cons p ps ih => exact fun frame h => ih _ (h.markReady p.lexeme)
  exact key f.params _ fun x => by simp

theorem Frame.ready?_singleton (o : Opener) (y x : String) :
    Frame.ready? { opener := o, marks := [(y, true)] } x = if x = y then some true else none :=
  Frame.ready?_mark { opener := o } y x true

theorem Frame.settled_singleton (o : Opener) (y : String) :
    Frame.Settled { opener := o, marks := [(y, true)] } := by
  intro x
  rw [ready?_singleton]
  split <;> simp

namespace Nesting

/-! ### Nestings without pending names -/

def Settled (Γ : Nesting) : Prop := ∀ f ∈ Γ, f.Settled

variable {Γ : Nesting}

theorem Settled.cons {f : Frame} (hf : f.Settled) (h : Γ.Settled) : Settled (f :: Γ) :=
  List.forall_mem_cons.2 ⟨hf, h⟩

theorem Settled.tail (h : Γ.Settled) : Settled Γ.tail := fun f hf => h f (List.mem_of_mem_tail hf)

theorem Settled.declareReady (h : Γ.Settled) (x : String) : (Γ.declareReady x).Settled := by
  cases Γ with
  | nil => exact h
  | cons f Γ =>
    obtain ⟨hf, h⟩ := List.forall_mem_cons.1 h
    exact .cons (hf.markReady x) h

theorem Settled.after : ∀ {Γ : Nesting} (s : Stmt), Γ.Settled → (Γ.after s).Settled
  | _, .varDecl _ name _, h => h.declareReady name.lexeme
  | _, .branch _ _ t none, h => Settled.after t h
  | _, .branch _ _ t (some e), h => Settled.after e (Settled.after t h)
  | _, .loop _ _ body, h => Settled.after body h
  | _, .function f, h => h.declareReady f.name.lexeme
  | _, .classDecl _ name _ _, h => h.declareReady name.lexeme
  | _, .block .., h => h
  | _, .expression .., h => h
  | _, .print .., h => h
  | _, .ret .., h => h

theorem Settled.afterAll {ss : List Stmt} (h : Γ.Settled) : (Γ.afterAll ss).Settled := by
  induction ss generalizing Γ with
  | nil => exact h
  | cons s ss ih => exact ih (h.after s)

/-! ### The scopes of classes -/

/-- The scopes of classes hold their keyword and nothing else. -/
def ClassMarks (Γ : Nesting) : Prop :=
  ∀ f ∈ Γ, (f.opener.isThis → f.marks = [("this", true)]) ∧
    ∀ id, f.opener = .super id → f.marks = [("super", true)]

/-- The innermost scope is none of a class. -/
def Plain (Γ : Nesting) : Prop :=
  ∀ o ∈ (Γ.map (·.opener)).head?, ¬ o.isThis ∧ ∀ id, o ≠ .super id

theorem ClassMarks.of_tail {Δ : Nesting} (h : Γ.ClassMarks) (hp : Γ.Plain)
    (ho : Δ.map (·.opener) = Γ.map (·.opener)) (ht : Δ.tail = Γ.tail) : Δ.ClassMarks := by
  rw [Plain, ← ho] at hp
  cases Δ with
  | nil => intro f hf; cases hf
  | cons g Δ =>
    intro f hf
    rcases List.mem_cons.1 hf with rfl | hf
    · obtain ⟨hthis, hsuper⟩ := hp f.opener rfl
      exact ⟨fun h => absurd h hthis, fun id h => absurd h (hsuper id)⟩
    · rw [List.tail_cons] at ht
      exact h f (List.mem_of_mem_tail (ht ▸ hf))

theorem ClassMarks.cons {f : Frame} (h : Γ.ClassMarks)
    (hf : (f.opener.isThis → f.marks = [("this", true)]) ∧
      ∀ id, f.opener = .super id → f.marks = [("super", true)]) : ClassMarks (f :: Γ) :=
  List.forall_mem_cons.2 ⟨hf, h⟩

theorem ClassMarks.cons_plain {f : Frame} (h : Γ.ClassMarks) (hf : Plain [f]) :
    ClassMarks (f :: Γ) := by
  obtain ⟨hthis, hsuper⟩ := hf f.opener rfl
  exact h.cons ⟨fun h => absurd h hthis, fun id h => absurd h (hsuper id)⟩

theorem ClassMarks.afterAll {f : Frame} {ss : List Stmt} (h : Γ.ClassMarks) (hf : Plain [f]) :
    ClassMarks (afterAll (f :: Γ) ss) :=
  (h.cons_plain hf).of_tail hf (openers_afterAll _ ss) (tail_afterAll _ ss)

/-- What is known of the marks around a part. -/
structure Regular (Γ : Nesting) (t : Part) : Prop where
  outer : Settled Γ.tail
  inner : (∀ e, t ≠ .expr e) → Γ.Settled
  classes : Γ.ClassMarks

theorem Regular.of_settled {t : Part} (h : Γ.Settled) (hc : Γ.ClassMarks) : Γ.Regular t :=
  ⟨h.tail, fun _ => h, hc⟩

/-- One step down the tree. -/
theorem Regular.enter {t c : Part} {i : Nat} (h : Γ.Regular t) (hc : t.children[i]? = some c)
    (hp : (∀ f, t ≠ .method f) → Γ.Plain) : (Γ.enter t i).Regular c := by
  have hmarks := h.classes
  cases t with
  | program p =>
    have hs := h.inner (by simp)
    have hp := hp (by simp)
    exact .of_settled hs.afterAll (hmarks.of_tail hp (openers_afterAll _ _) (tail_afterAll _ _))
  | expr e =>
    obtain ⟨e', rfl⟩ := Part.expr_of_children _ rfl hc
    exact ⟨h.outer, fun hne => absurd rfl (hne e'), hmarks⟩
  | method f =>
    have hs := h.inner (by simp)
    exact .of_settled (hs.cons (Frame.settled_ofCall f)).afterAll
      (hmarks.afterAll (by simp [Plain, Opener.isThis]))
  | stmt s =>
    have hs := h.inner (by simp)
    have hplain := hp (by simp)
    have hready : ∀ x, (Γ.declareReady x).ClassMarks := fun x =>
      hmarks.of_tail hplain (openers_declareReady _ x) (tail_declareReady _ x)
    cases s with
    | block id body =>
      exact .of_settled (hs.cons (fun x => by simp)).afterAll
        (hmarks.afterAll (by simp [Plain, Opener.isThis]))
    | varDecl id name initializer =>
      obtain ⟨e, rfl⟩ := Part.expr_of_children _ rfl hc
      refine ⟨?_, fun hne => absurd rfl (hne e), ?_⟩
      · show Settled (Γ.mark name.lexeme false).tail
        rw [tail_mark]
        exact hs.tail
      · exact hmarks.of_tail hplain (openers_mark Γ _ _) (tail_mark Γ _ _)
    | branch id condition thenBranch elseBranch =>
      have he : Γ.enter (.stmt (.branch id condition thenBranch elseBranch)) i =
          if i ≤ 1 then Γ else Γ.after thenBranch := by cases i <;> rfl
      rw [he]
      split
      · exact .of_settled hs hmarks
      · exact .of_settled (hs.after thenBranch)
          (hmarks.of_tail hplain (openers_after Γ thenBranch) (tail_after Γ thenBranch))
    | function f =>
      exact .of_settled ((hs.declareReady _).cons (Frame.settled_ofCall f)).afterAll
        ((hready _).afterAll (by simp [Plain, Opener.isThis]))
    | classDecl id name superclass methods =>
      have hthis : ∀ (Δ : Nesting) b, Δ.Settled → Δ.ClassMarks →
          Regular (Frame.ofThis id methods b :: Δ) c := fun Δ b hs hm =>
        .of_settled (hs.cons (Frame.settled_singleton _ _)) (hm.cons ⟨fun _ => rfl, by simp [Frame.ofThis]⟩)
      cases superclass with
      | none => exact hthis _ _ (hs.declareReady _) (hready _)
      | some ref =>
        cases i with
        | zero => exact .of_settled (hs.declareReady _) (hready _)
        | succ i =>
          exact hthis _ _ ((hs.declareReady _).cons (Frame.settled_singleton _ _))
            ((hready _).cons ⟨by simp [Frame.ofSuper, Opener.isThis], fun _ _ => rfl⟩)
    | _ => exact .of_settled hs hmarks

end Nesting

/-! ### How the scopes of classes lie -/

/-- A scope with `super` lies just outside of a scope with `this` of a subclass, and each of the two
comes with the other. -/
def Opener.Paired : List Opener → Prop
  | [] => True
  | .this _ _ true :: .super _ :: os => Opener.Paired os
  | .this _ _ true :: _ => False
  | .super _ :: _ => False
  | _ :: os => Opener.Paired os

theorem Opener.Paired.opens {os : List Opener} (h : Opener.Paired os) (t : Part) (i : Nat) :
    Opener.Paired (t.opens i ++ os) := by
  unfold Part.opens
  split <;> exact h

namespace Nesting

variable {Γ : Nesting}

theorem openers_enter (Γ : Nesting) {t : Part} {i : Nat} (hi : i < t.children.length) :
    (Γ.enter t i).map (·.opener) = t.opens i ++ Γ.map (·.opener) := by
  obtain ⟨news, Δ, he, ⟨ho, -, -⟩, hf⟩ := Γ.enter_spec hi
  rw [he, List.map_append, ho, hf.openers]

/-! ### What the scopes of classes are found to hold -/

/-- The keywords name nothing but what they name. -/
def Keywords (Γ : Nesting) : Prop :=
  ∀ f ∈ Γ, (f.has "this" → f.opener.isThis) ∧ (f.has "super" → ∃ id, f.opener = .super id)

theorem distance?_eq_some {x : String} {d : Nat} (h : Γ.distance? x = some d) :
    ∃ f, Γ[d]? = some f ∧ f.has x := by
  obtain ⟨hd, hx, -⟩ := List.findIdx?_eq_some_iff_getElem.1 h
  exact ⟨Γ[d], List.getElem?_eq_getElem hd, hx⟩

theorem ClassMarks.ready?_this (h : Γ.ClassMarks) {f : Frame} (hf : f ∈ Γ) (ho : f.opener.isThis) :
    f.ready? "this" = some true := by
  rw [Frame.ready?, (h f hf).1 ho]
  rfl

theorem ClassMarks.ready?_super (h : Γ.ClassMarks) {f : Frame} (hf : f ∈ Γ) {id : NodeId}
    (ho : f.opener = .super id) : f.ready? "super" = some true := by
  rw [Frame.ready?, (h f hf).2 id ho]
  rfl

/-- Inside of a class a `this` finds the scope of the methods. -/
theorem exists_this (hk : Γ.Keywords) (hm : Γ.ClassMarks) (hc : Γ.classKind ≠ .none) :
    ∃ d f, Γ.distance? "this" = some d ∧ Γ[d]? = some f ∧ f.ready? "this" = some true := by
  have hex : ∃ f ∈ Γ, f.has "this" := by
    rw [Ne, classKind_eq_none_iff] at hc
    push Not at hc
    obtain ⟨f, hf, ho⟩ := hc
    exact ⟨f, hf, by rw [Frame.has, hm.ready?_this hf ho]; rfl⟩
  cases hd : Γ.distance? "this" with
  | none =>
    obtain ⟨f, hf, hx⟩ := hex
    exact absurd hx (by simpa using List.findIdx?_eq_none_iff.1 hd f hf)
  | some d =>
    obtain ⟨f, hf, hx⟩ := distance?_eq_some hd
    have hmem := List.mem_of_getElem? hf
    exact ⟨d, f, rfl, hf, hm.ready?_this hmem ((hk f hmem).1 hx)⟩

/-- Inside of a subclass a `super` finds the scope just outside of that of the methods. -/
theorem exists_super (hk : Γ.Keywords) (hm : Γ.ClassMarks)
    (hp : Opener.Paired (Γ.map (·.opener))) (hc : Γ.classKind = .subclass) :
    ∃ d f g id, Γ.distance? "super" = some (d + 1) ∧ Γ[d + 1]? = some f ∧ f.opener = .super id ∧
      Γ[d]? = some g ∧ g.ready? "this" = some true ∧ Γ.distance? "this" = some d := by
  induction Γ with
  | nil => cases hc
  | cons g Γ ih =>
    obtain ⟨hkg, hk⟩ := List.forall_mem_cons.1 hk
    have hmg := hm g List.mem_cons_self
    have hm' : ClassMarks Γ := fun f hf => hm f (List.mem_cons_of_mem _ hf)
    have hstep : (∀ id, g.opener ≠ .super id) → ¬ g.opener.isThis →
        Opener.Paired (Γ.map (·.opener)) → classKind Γ = .subclass →
        ∃ d f g' id, distance? (g :: Γ) "super" = some (d + 1) ∧
          (g :: Γ)[d + 1]? = some f ∧ f.opener = .super id ∧ (g :: Γ)[d]? = some g' ∧
          g'.ready? "this" = some true ∧ distance? (g :: Γ) "this" = some d := by
      intro hg hnot hp hc
      have hhas : g.has "super" = false := by
        by_contra hh
        obtain ⟨id, hid⟩ := hkg.2 (by simpa using hh)
        exact hg id hid
      have hthis : g.has "this" = false := by
        by_contra hh
        exact hnot (hkg.1 (by simpa using hh))
      obtain ⟨d, f, g', id, hd, hf, ho, hg', hr, hd'⟩ := ih hk hm' hp hc
      rw [distance?] at hd hd'
      refine ⟨d + 1, f, g', id, ?_, hf, ho, hg', hr, ?_⟩
      · rw [distance?, List.findIdx?_cons, hhas, hd]
        rfl
      · rw [distance?, List.findIdx?_cons, hthis, hd']
        rfl
    rw [classKind] at hc
    cases ho : g.opener with
    | block id =>
      rw [List.map_cons, ho] at hp
      rw [ho] at hc
      exact hstep (by simp [ho]) (by simp [ho, Opener.isThis]) hp hc
    | function id =>
      rw [List.map_cons, ho] at hp
      rw [ho] at hc
      exact hstep (by simp [ho]) (by simp [ho, Opener.isThis]) hp hc
    | super id =>
      rw [List.map_cons, ho] at hp
      exact hp.elim
    | this id methods sub =>
      cases sub with
      | false => simp [ho] at hc
      | true =>
        cases Γ with
        | nil =>
          rw [List.map_cons, ho] at hp
          exact hp.elim
        | cons f Γ =>
          rw [List.map_cons, List.map_cons, ho] at hp
          cases hof : f.opener with
          | super id' =>
            have hthis : g.ready? "this" = some true := hm.ready?_this List.mem_cons_self (by rw [ho]; rfl)
            have hsuper : f.ready? "super" = some true :=
              hm.ready?_super (List.mem_cons_of_mem _ List.mem_cons_self) hof
            refine ⟨0, f, g, id', ?_, rfl, hof, rfl, hthis, ?_⟩
            swap
            · rw [distance?, List.findIdx?_cons, Frame.has, hthis]
              rfl
            have hg : g.has "super" = false := by
              rw [Frame.has, Frame.ready?, hmg.1 (by rw [ho]; rfl)]
              decide
            have hf : f.has "super" = true := by rw [Frame.has, hsuper]; rfl
            rw [distance?, List.findIdx?_cons, hg, List.findIdx?_cons, hf]
            rfl
          | block _ => rw [hof] at hp; exact hp.elim
          | function _ => rw [hof] at hp; exact hp.elim
          | this _ _ _ => rw [hof] at hp; exact hp.elim

end Nesting

/-! ### Places of a program -/

/-- What is known of a node and its nesting in a program that breaks no static rule; the last two
if the program is well-named. -/
structure Place.Fit (named : Prop) (P : Place) : Prop where
  violations : P.violations = []
  regular : P.nesting.Regular P.part
  paired : Opener.Paired (P.nesting.map (·.opener))
  wellNamed : named → P.part.WellNamed
  keywords : named → P.nesting.Keywords

namespace Program

variable {p : Program} {a : Address} {P : Place}

/-- Induction down the tree, from the program to its places. -/
theorem place_induction {motive : Address → Place → Prop} (root : motive [] ⟨[], .program p⟩)
    (child : ∀ a Γ t i c, p.place? a = some ⟨Γ, t⟩ → t.children[i]? = some c → motive a ⟨Γ, t⟩ →
      motive (a ++ [i]) ⟨Γ.enter t i, c⟩) (h : p.place? a = some P) : motive a P := by
  induction a using List.reverseRecOn generalizing P with
  | nil =>
    cases h
    exact root
  | append_singleton a i ih =>
    obtain ⟨⟨Γ, t⟩, hQ⟩ : ∃ Q, p.place? a = some Q := by
      obtain ⟨u, hu, -⟩ := Option.bind_eq_some_iff.1
        ((Part.at?_concat _ a i).symm.trans (part?_of_place? h))
      obtain ⟨Γ, hΓ⟩ := exists_place? hu
      exact ⟨_, hΓ⟩
    rw [place?_concat hQ, Option.map_eq_some_iff] at h
    obtain ⟨c, hc, rfl⟩ := h
    exact child a Γ t i c hQ hc (ih hQ)

theorem Agrees.openers {Γ : Nesting} (h : p.Agrees a Γ) :
    Γ.map (·.opener) = (p.regions a).map (·.opener) := by
  unfold Agrees at h
  generalize p.regions a = rs at h
  induction h with
  | nil => rfl
  | cons hf _ ih => rw [List.map_cons, List.map_cons, hf.1, ih]

theorem Agrees.exists_region {Γ : Nesting} (h : p.Agrees a Γ) {f : Frame} (hf : f ∈ Γ) :
    ∃ r : Region, f.opener = r.opener ∧ ∀ x, f.has x = true ↔ p.Has r x a := by
  unfold Agrees at h
  generalize p.regions a = rs at h
  induction h with
  | nil => cases hf
  | @cons g r _ _ hg _ ih =>
    rcases List.mem_cons.1 hf with rfl | hf
    · exact ⟨r, hg⟩
    · exact ih hf

theorem plain_of_place? (h : p.place? a = some P) (hm : ∀ f, P.part ≠ .method f) :
    P.nesting.Plain := by
  intro o ho
  rw [(agrees_of_place? h).openers, List.head?_map] at ho
  obtain ⟨r, hr, rfl⟩ := Option.map_eq_some_iff.1 ho
  obtain ⟨hsuper, hthis⟩ := exists_method_of_head (part?_of_place? h) hr
  refine ⟨fun ht => ?_, hsuper⟩
  obtain ⟨f, hf⟩ := hthis ht
  exact hm f hf

theorem regular_of_place? (h : p.place? a = some P) :
    P.nesting.Regular P.part ∧ Opener.Paired (P.nesting.map (·.opener)) := by
  refine place_induction (p := p) (motive := fun _ P => P.nesting.Regular P.part ∧
    Opener.Paired (P.nesting.map (·.opener))) ?_ ?_ h
  · refine ⟨.of_settled ?_ ?_, trivial⟩
    · intro f hf; cases hf
    · intro f hf; cases hf
  · rintro a Γ t i c ht hc ⟨hr, hp⟩
    refine ⟨hr.enter hc (plain_of_place? ht), ?_⟩
    rw [Γ.openers_enter (List.getElem?_eq_some_iff.1 hc).1]
    exact hp.opens t i

theorem keywords_of_place? (hw : p.WellNamed) (h : p.place? a = some P) :
    P.nesting.Keywords := by
  have hdecl : ∀ r x, p.DeclaresBefore r x a → x ≠ "this" ∧ x ≠ "super" := by
    rintro r x ⟨b, u, hu, hd, -⟩
    exact (hw b u hu).declares?_ne hd
  have hhas : ∀ r x, p.Has r x a → x = "this" ∨ x = "super" →
      (x = "this" → r.opener.isThis) ∧ (x = "super" → ∃ id, r.opener = .super id) := by
    rintro ⟨b, o⟩ x hx hkey
    cases o with
    | this id methods sub =>
      obtain rfl : x = "this" := hx
      exact ⟨fun _ => rfl, fun h => absurd h (by decide)⟩
    | super id =>
      obtain rfl : x = "super" := hx
      exact ⟨fun h => absurd h (by decide), fun _ => ⟨id, rfl⟩⟩
    | block id =>
      obtain ⟨h1, h2⟩ := hdecl _ _ hx
      rcases hkey with rfl | rfl
      · exact absurd rfl h1
      · exact absurd rfl h2
    | function id =>
      have hne : x ≠ "this" ∧ x ≠ "super" := by
        rcases hx with ⟨t, ht, hx⟩ | hx
        · exact (hw b t ht).params_ne hx
        · exact hdecl _ _ hx
      rcases hkey with rfl | rfl
      · exact absurd rfl hne.1
      · exact absurd rfl hne.2
  intro f hf
  obtain ⟨r, hr⟩ := (agrees_of_place? h).exists_region hf
  rw [hr.1]
  exact ⟨fun h => (hhas r "this" ((hr.2 _).1 h) (.inl rfl)).1 rfl,
    fun h => (hhas r "super" ((hr.2 _).1 h) (.inr rfl)).2 rfl⟩

/-- In a program that breaks no static rule every place is fit. -/
theorem fit_of_place? {named : Prop} (hw : named → p.WellNamed) (he : p.resolve.hasErrors = false)
    (h : p.place? a = some P) (hid : P.part.id?.isSome) : P.Fit named where
  violations := violations_eq_nil he (mem_places_iff.2 ⟨hid, a, h⟩)
  regular := (regular_of_place? h).1
  paired := (regular_of_place? h).2
  wellNamed hn := hw hn a P.part (part?_of_place? h)
  keywords hn := keywords_of_place? (hw hn) h

end Program

namespace Place.Fit

variable {Γ : Nesting} {named : Prop}

/-- A name that a local scope has is ready, or the node stands in its initializer. -/
theorem ready_or_pending {t : Part} {x : String} {d : Nat} (h : Place.Fit named ⟨Γ, t⟩)
    (hd : Γ.distance? x = some d) :
    ∃ f, Γ[d]? = some f ∧ (f.ready? x = some true ∨ d = 0 ∧ Γ.isPending x) := by
  obtain ⟨f, hf, hx⟩ := Nesting.distance?_eq_some hd
  refine ⟨f, hf, ?_⟩
  cases hr : f.ready? x with
  | none => simp [Frame.has, hr] at hx
  | some ready =>
    cases ready with
    | true => exact .inl rfl
    | false =>
      cases Γ with
      | nil => cases hf
      | cons g Γ =>
        cases d with
        | zero =>
          cases hf
          exact .inr ⟨rfl, by simp [Nesting.isPending, hr]⟩
        | succ d => exact absurd hr (h.regular.outer f (List.mem_of_getElem? hf) x)

/-- A variable that is read finds a name that is ready, if a local scope has it. -/
theorem ready_var {ref : VarRef} {d : Nat} (h : Place.Fit named ⟨Γ, .expr (.var ref)⟩)
    (hd : Γ.distance? ref.name.lexeme = some d) :
    ∃ f, Γ[d]? = some f ∧ f.ready? ref.name.lexeme = some true := by
  obtain ⟨f, hf, hr | ⟨-, hpending⟩⟩ := h.ready_or_pending hd
  · exact ⟨f, hf, hr⟩
  · have hv := h.violations
    simp [Place.violations, Part.violations, hpending] at hv

theorem ready_this {id : NodeId} {keyword : Token}
    (h : Place.Fit named ⟨Γ, .expr (.this id keyword)⟩) (hn : named) :
    ∃ d f, Γ.distance? "this" = some d ∧ Γ[d]? = some f ∧ f.ready? "this" = some true := by
  refine Nesting.exists_this (h.keywords hn) h.regular.classes fun hc => ?_
  have hv := h.violations
  simp [Place.violations, Part.violations, hc] at hv

theorem ready_super {id : NodeId} {keyword method : Token}
    (h : Place.Fit named ⟨Γ, .expr (.super id keyword method)⟩) (hn : named) :
    ∃ d f g id, Γ.distance? "super" = some (d + 1) ∧ Γ[d + 1]? = some f ∧ f.opener = .super id ∧
      Γ[d]? = some g ∧ g.ready? "this" = some true ∧ Γ.distance? "this" = some d := by
  refine Nesting.exists_super (h.keywords hn) h.regular.classes h.paired ?_
  have hv := h.violations
  cases hc : Γ.classKind with
  | none => simp [Place.violations, Part.violations, hc] at hv
  | plain => simp [Place.violations, Part.violations, hc] at hv
  | subclass => rfl

end Place.Fit

end Lox
