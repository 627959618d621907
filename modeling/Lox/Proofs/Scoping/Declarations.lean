import Lox.Proofs.Scoping.Addresses

/-!
# Names of nestings and names of regions

The frames around a place are the regions around its address, and each frame has exactly the names
its region has there (`Program.agrees_of_place?`).  The induction is on the address: one step down
the tree adds to the innermost frame what the part declares and what stands directly in the same
region before the step, which is what the step adds to the declarations that come before.
-/

namespace Lox

/-! ### The order of addresses -/

theorem lt_concat_iff {a b : Address} {i : Nat} :
    b < a ++ [i] ↔ b < a ∨ b = a ∨ ∃ j < i, ∃ c, b = a ++ j :: c := by
  induction a generalizing b with
  | nil =>
    cases b with
    | nil => simp
    | cons j b => simp [List.cons_lt_cons_iff]
  | cons k a ih =>
    cases b with
    | nil => simp
    | cons j b =>
      simp only [List.cons_append, List.cons_lt_cons_iff, ih, List.cons.injEq]
      constructor
      · rintro (h | ⟨rfl, h | rfl | ⟨i', hi, c, rfl⟩⟩)
        · exact .inl (.inl h)
        · exact .inl (.inr ⟨rfl, h⟩)
        · exact .inr (.inl ⟨rfl, rfl⟩)
        · exact .inr (.inr ⟨i', hi, c, rfl, rfl⟩)
      · rintro ((h | ⟨rfl, h⟩) | ⟨rfl, rfl⟩ | ⟨i', hi, c, rfl, rfl⟩)
        · exact .inl h
        · exact .inr ⟨rfl, .inl h⟩
        · exact .inr ⟨rfl, .inr (.inl rfl)⟩
        · exact .inr ⟨rfl, .inr (.inr ⟨i', hi, c, rfl⟩)⟩

/-- What comes before an address does not stand inside of it. -/
theorem not_lt_of_above {a b : Address} (h : a <+: b) : ¬ b < a := by
  obtain ⟨c, rfl⟩ := h
  induction a with
  | nil => simp
  | cons k a ih => simpa [List.cons_lt_cons_iff] using ih

/-! ### Declarations that stand directly in the scope around a part -/

namespace Part

/-- A part has a declaration of a name with no region of its own around it. -/
def DeclaresHere (t : Part) (x : String) : Prop :=
  ∃ b u, t.at? b = some u ∧ u.declares? = some x ∧ t.regions [] b = []

/-- Whether there is a region does not depend on where the part stands. -/
theorem regions_eq_nil_iff (t : Part) (here : Address) (a : Address) :
    t.regions here a = [] ↔ t.regions [] a = [] := by
  induction a generalizing t here with
  | nil => simp
  | cons i a ih =>
    simp only [regions, List.append_eq_nil_iff, List.map_eq_nil_iff]
    cases t.children[i]? with
    | none => simp
    | some c =>
      simp only
      rw [ih c (here ++ [i]), ih c ([] ++ [i])]

/-- A declaration directly in the scope is the part itself, or one of a child around which the part
opens nothing. -/
theorem declaresHere_iff {t : Part} {x : String} :
    t.DeclaresHere x ↔ t.declares? = some x ∨
      ∃ (i : Nat) (c : Part), t.children[i]? = some c ∧ t.opens i = [] ∧ c.DeclaresHere x := by
  constructor
  · rintro ⟨b, u, hu, hd, hr⟩
    cases b with
    | nil =>
      cases hu
      exact .inl hd
    | cons i b =>
      obtain ⟨c, hc, hu⟩ := Option.bind_eq_some_iff.1 hu
      rw [regions_cons [] b hc, List.append_eq_nil_iff, List.map_eq_nil_iff, regions_eq_nil_iff]
        at hr
      exact .inr ⟨i, c, hc, hr.2, b, u, hu, hd, hr.1⟩
  · rintro (h | ⟨i, c, hc, ho, b, u, hu, hd, hr⟩)
    · exact ⟨[], t, rfl, h, rfl⟩
    · refine ⟨i :: b, u, by rw [at?_cons, hc]; exact hu, hd, ?_⟩
      rw [regions_cons [] b hc, ho, (regions_eq_nil_iff c _ b).2 hr]
      rfl

/-- Nothing is declared inside of an expression. -/
theorem not_declaresHere_expr (e : Expr) (x : String) : ¬ (expr e).DeclaresHere x := by
  have key : ∀ t : Part, (∃ e, t = .expr e) → ¬ t.DeclaresHere x := by
    intro t
    induction t using children_induction with
    | step t ih =>
      rintro ⟨e, rfl⟩ h
      rcases declaresHere_iff.1 h with h | ⟨i, c, hc, -, h⟩
      · cases h
      · have hce : ∃ e, c = .expr e := by
          obtain ⟨e', -, rfl⟩ := List.mem_map.1 (List.mem_of_getElem? hc)
          exact ⟨e', rfl⟩
        exact ih i c hc hce h
  exact key _ ⟨e, rfl⟩

/-- A part whose statements all lie in scopes of its own declares at most itself. -/
theorem declaresHere_closed {t : Part} (x : String)
    (h : ∀ (i : Nat) (c : Part), t.children[i]? = some c → t.opens i = [] → ∃ e, c = .expr e) :
    t.DeclaresHere x ↔ t.declares? = some x := by
  rw [declaresHere_iff, or_iff_left]
  rintro ⟨i, c, hc, ho, hd⟩
  obtain ⟨e, rfl⟩ := h i c hc ho
  exact not_declaresHere_expr e x hd

theorem expr_of_children {t : Part} (es : List Expr) (h : t.children = es.map expr) {i : Nat}
    {c : Part} (hc : t.children[i]? = some c) : ∃ e, c = .expr e := by
  rw [h] at hc
  obtain ⟨e, -, rfl⟩ := List.mem_map.1 (List.mem_of_getElem? hc)
  exact ⟨e, rfl⟩

theorem declaresHere_loop (id : NodeId) (condition : Expr) (body : Stmt) (x : String) :
    (stmt (.loop id condition body)).DeclaresHere x ↔ (stmt body).DeclaresHere x := by
  rw [declaresHere_iff]
  constructor
  · rintro (h | ⟨i, c, hc, -, h⟩)
    · cases h
    · match i, hc with
      | 0, rfl => exact absurd h (not_declaresHere_expr _ _)
      | 1, rfl => exact h
  · intro h
    exact .inr ⟨1, _, rfl, rfl, h⟩

theorem declaresHere_branch (id : NodeId) (condition : Expr) (thenBranch : Stmt)
    (elseBranch : Option Stmt) (x : String) :
    (stmt (.branch id condition thenBranch elseBranch)).DeclaresHere x ↔
      (stmt thenBranch).DeclaresHere x ∨ ∃ s ∈ elseBranch, (stmt s).DeclaresHere x := by
  rw [declaresHere_iff]
  constructor
  · rintro (h | ⟨i, c, hc, -, h⟩)
    · cases h
    · match i, hc with
      | 0, rfl => exact absurd h (not_declaresHere_expr _ _)
      | 1, rfl => exact .inl h
      | i + 2, hc =>
        obtain ⟨s, hs, rfl⟩ := Option.map_eq_some_iff.1 ((List.getElem?_map ..).symm.trans hc)
        exact .inr ⟨s, Option.mem_toList.1 (List.mem_of_getElem? hs), h⟩
  · rintro (h | ⟨s, hs, h⟩)
    · exact .inr ⟨1, _, rfl, rfl, h⟩
    · cases hs
      exact .inr ⟨2, _, rfl, rfl, h⟩

end Part

/-! ### What statements add to the innermost frame -/

namespace Nesting

variable {f : Frame} {Γ : Nesting}

/-- The innermost frame has gained some names, and nothing else has changed. -/
def Gains (Γ Δ : Nesting) (names : String → Prop) : Prop :=
  Δ.map (·.opener) = Γ.map (·.opener) ∧ Δ.tail = Γ.tail ∧
    ∀ x, Γ ≠ [] → (Δ.hasHere x = true ↔ Γ.hasHere x = true ∨ names x)

namespace Gains

variable {Δ Θ : Nesting} {names more : String → Prop}

theorem refl (h : ∀ x, ¬ names x) : Gains Γ Γ names :=
  ⟨rfl, rfl, fun x _ => by simp [h x]⟩

theorem ne_nil (h : Gains Γ Δ names) (hΓ : Γ ≠ []) : Δ ≠ [] := by
  rintro rfl
  exact hΓ (List.map_eq_nil_iff.1 h.1.symm)

theorem trans (h : Gains Γ Δ names) (h' : Gains Δ Θ more) :
    Gains Γ Θ fun x => names x ∨ more x :=
  ⟨h'.1.trans h.1, h'.2.1.trans h.2.1, fun x hΓ => by
    rw [h'.2.2 x (h.ne_nil hΓ), h.2.2 x hΓ, or_assoc]⟩

theorem congr (h : Gains Γ Δ names) (hn : ∀ x, names x ↔ more x) : Gains Γ Δ more :=
  ⟨h.1, h.2.1, fun x hΓ => by rw [h.2.2 x hΓ, hn x]⟩

end Gains

theorem gains_mark (Γ : Nesting) (y : String) (b : Bool) : Gains Γ (Γ.mark y b) (· = y) := by
  refine ⟨openers_mark Γ y b, tail_mark Γ y b, fun x hΓ => ?_⟩
  cases Γ with
  | nil => exact absurd rfl hΓ
  | cons f Γ =>
    show (f.mark y b).has x = true ↔ f.has x = true ∨ x = y
    rw [Frame.has_mark, Bool.or_eq_true, decide_eq_true_iff, or_comm]

theorem gains_declareReady (Γ : Nesting) (y : String) : Gains Γ (Γ.declareReady y) (· = y) :=
  ((gains_mark Γ y false).trans (gains_mark _ y true)).congr fun _ => or_self_iff

theorem gains_after : ∀ (Γ : Nesting) (s : Stmt), Gains Γ (Γ.after s) (Part.stmt s).DeclaresHere
  | Γ, .varDecl _ name initializer => by
    refine (gains_declareReady Γ name.lexeme).congr fun x => ?_
    rw [Part.declaresHere_closed x fun _ _ hc _ => Part.expr_of_children _ rfl hc]
    simp [Part.declares?, eq_comm]
  | Γ, .function f => by
    refine (gains_declareReady Γ f.name.lexeme).congr fun x => ?_
    rw [Part.declaresHere_closed x fun _ _ _ ho => by cases ho]
    simp [Part.declares?, eq_comm]
  | Γ, .classDecl _ name superclass methods => by
    refine (gains_declareReady Γ name.lexeme).congr fun x => ?_
    rw [Part.declaresHere_closed x fun i c hc ho => ?_]
    · simp [Part.declares?, eq_comm]
    · match superclass, i, ho with
      | some ref, 0, _ =>
        cases hc
        exact ⟨_, rfl⟩
  | Γ, .branch _ _ t none => by
    refine (gains_after Γ t).congr fun x => ?_
    simp [Part.declaresHere_branch]
  | Γ, .branch _ _ t (some e) => by
    refine ((gains_after Γ t).trans (gains_after _ e)).congr fun x => ?_
    simp [Part.declaresHere_branch]
  | Γ, .loop _ _ body => by
    refine (gains_after Γ body).congr fun x => ?_
    rw [Part.declaresHere_loop]
  | Γ, .block .. => by
    refine Gains.refl fun x h => ?_
    rw [Part.declaresHere_closed x fun _ _ _ ho => by cases ho] at h
    cases h
  | Γ, .expression _ e => by
    refine Gains.refl fun x h => ?_
    rw [Part.declaresHere_closed x fun _ _ hc _ => Part.expr_of_children [e] rfl hc] at h
    cases h
  | Γ, .print _ e => by
    refine Gains.refl fun x h => ?_
    rw [Part.declaresHere_closed x fun _ _ hc _ => Part.expr_of_children [e] rfl hc] at h
    cases h
  | Γ, .ret .. => by
    refine Gains.refl fun x h => ?_
    rw [Part.declaresHere_closed x fun _ _ hc _ => Part.expr_of_children _ rfl hc] at h
    cases h

theorem gains_afterAll (Γ : Nesting) (ss : List Stmt) :
    Gains Γ (Γ.afterAll ss) fun x => ∃ s ∈ ss, (Part.stmt s).DeclaresHere x := by
  induction ss generalizing Γ with
  | nil => exact Gains.refl fun x => by simp
  | cons s ss ih =>
    refine ((gains_after Γ s).trans (ih _)).congr fun x => ?_
    simp

/-- A scope with some statements behind it. -/
theorem exists_frame_afterAll (f : Frame) (Γ : Nesting) (ss : List Stmt) :
    ∃ g, afterAll (f :: Γ) ss = g :: Γ ∧ g.opener = f.opener ∧
      ∀ x, g.has x = true ↔ f.has x = true ∨ ∃ s ∈ ss, (Part.stmt s).DeclaresHere x := by
  obtain ⟨ho, ht, hn⟩ := gains_afterAll (f :: Γ) ss
  cases hΔ : afterAll (f :: Γ) ss with
  | nil => simp [hΔ] at ho
  | cons g Δ =>
    rw [hΔ] at ho ht hn
    obtain rfl : Δ = Γ := ht
    exact ⟨g, rfl, (List.cons.inj ho).1, fun x => hn x (by simp)⟩

end Nesting

/-! ### One step down the tree -/

theorem Frame.has_ofCall (f : FunctionDecl) (x : String) :
    (Frame.ofCall f).has x = true ↔ x ∈ f.params.map (·.lexeme) := by
  have key : ∀ (params : List Token) (frame : Frame),
      (params.foldl (fun frame p => frame.markReady p.lexeme) frame).has x = true ↔
        frame.has x = true ∨ x ∈ params.map (·.lexeme) := by
    intro params
    induction params with
    | nil => simp
    | cons p ps ih =>
      intro frame
      rw [List.foldl_cons, ih, has_markReady, Bool.or_eq_true, decide_eq_true_iff, List.map_cons,
        List.mem_cons, or_comm (a := x = p.lexeme), or_assoc]
  rw [ofCall, key]
  simp [has]

theorem Frame.has_singleton (o : Opener) (y x : String) :
    Frame.has { opener := o, marks := [(y, true)] } x = true ↔ x = y := by
  refine (Bool.eq_iff_iff.1 (Frame.has_mark { opener := o } y x true)).trans ?_
  simp [Frame.has]

namespace Part

/-- Declared in the scope around a part, by the part itself or before its child `i`. -/
def DeclaredAround (t : Part) (i : Nat) (x : String) : Prop :=
  t.declares? = some x ∨ ∃ j < i, ∃ c : Part, t.children[j]? = some c ∧ t.opens j = [] ∧
    c.DeclaresHere x

/-- Declared before child `i` in the scope that a part opens. -/
def DeclaredWithin (t : Part) (o : Opener) (i : Nat) (x : String) : Prop :=
  ∃ j < i, ∃ c : Part, t.children[j]? = some c ∧ (t.opens j).head? = some o ∧ c.DeclaresHere x

/-- The names of a scope that a part opens, at its child `i`. -/
def NamesWithin (t : Part) (i : Nat) (o : Opener) (x : String) : Prop :=
  match o with
  | .this .. => x = "this"
  | .super _ => x = "super"
  | .block _ => t.DeclaredWithin o i x
  | .function _ => x ∈ t.params ∨ t.DeclaredWithin o i x

/-- The frames of the scopes that a part opens around its child `i`. -/
def Frames (t : Part) (i : Nat) (news : Nesting) : Prop :=
  List.Forall₂ (fun f o => f.opener = o ∧ ∀ x, f.has x = true ↔ t.NamesWithin i o x) news
    (t.opens i)

theorem Frames.openers {t : Part} {i : Nat} {news : Nesting} (h : t.Frames i news) :
    news.map (·.opener) = t.opens i := by
  unfold Frames at h
  generalize t.opens i = os at h
  induction h with
  | nil => rfl
  | cons hf _ ih => rw [List.map_cons, hf.1, ih]

theorem declaredAround_of_opens {t : Part} (h : ∀ j, t.opens j ≠ []) (i : Nat) (x : String) :
    t.DeclaredAround i x ↔ t.declares? = some x := by
  rw [DeclaredAround, or_iff_left]
  rintro ⟨j, -, c, -, ho, -⟩
  exact h j ho

theorem declaredAround_of_exprs {t : Part} (es : List Expr) (h : t.children = es.map expr) (i : Nat)
    (x : String) : t.DeclaredAround i x ↔ t.declares? = some x := by
  rw [DeclaredAround, or_iff_left]
  rintro ⟨j, -, c, hc, -, hd⟩
  obtain ⟨e, rfl⟩ := expr_of_children es h hc
  exact not_declaresHere_expr e x hd

theorem exists_mem_take_iff (ss : List Stmt) (i : Nat) (x : String) :
    (∃ s ∈ ss.take i, (stmt s).DeclaresHere x) ↔
      ∃ j < i, ∃ c, (ss.map stmt)[j]? = some c ∧ c.DeclaresHere x := by
  constructor
  · rintro ⟨s, hs, hd⟩
    obtain ⟨j, hj⟩ := List.getElem?_of_mem hs
    rw [List.getElem?_take] at hj
    split at hj
    · rename_i hlt
      exact ⟨j, hlt, .stmt s, by rw [List.getElem?_map, hj]; rfl, hd⟩
    · cases hj
  · rintro ⟨j, hlt, c, hc, hd⟩
    rw [List.getElem?_map, Option.map_eq_some_iff] at hc
    obtain ⟨s, hs, rfl⟩ := hc
    refine ⟨s, List.mem_of_getElem? (i := j) ?_, hd⟩
    rw [List.getElem?_take, if_pos hlt, hs]

end Part

namespace Nesting

/-- A part that opens one scope for a list of statements. -/
theorem exists_frame_enter {t : Part} {ss : List Stmt} (o : Opener) (f : Frame) (Γ : Nesting)
    (hc : t.children = ss.map .stmt) (ho : ∀ i, t.opens i = [o]) (hf : f.opener = o)
    (hn : ∀ i x, t.NamesWithin i o x ↔ f.has x = true ∨ t.DeclaredWithin o i x) (i : Nat) :
    ∃ g, afterAll (f :: Γ) (ss.take i) = g :: Γ ∧ t.Frames i [g] := by
  obtain ⟨g, hg, hog, hx⟩ := exists_frame_afterAll f Γ (ss.take i)
  refine ⟨g, hg, ?_⟩
  rw [Part.Frames, ho i]
  refine .cons ⟨hog.trans hf, fun x => ?_⟩ .nil
  rw [hx, hn, Part.exists_mem_take_iff, ← hc, Part.DeclaredWithin]
  simp only [ho, List.head?_cons, true_and]

/-- One step down the tree: the frames that are new, and what the innermost older one gains. -/
theorem enter_spec (Γ : Nesting) {t : Part} {i : Nat} (hi : i < t.children.length) :
    ∃ news Δ, Γ.enter t i = news ++ Δ ∧ Gains Γ Δ (t.DeclaredAround i) ∧ t.Frames i news := by
  cases t with
  | program p =>
    refine ⟨[], _, rfl, (gains_afterAll Γ (p.take i)).congr fun x => ?_, .nil⟩
    rw [Part.exists_mem_take_iff, Part.DeclaredAround]
    simp [Part.declares?, Part.opens, Part.children]
  | expr e =>
    refine ⟨[], _, rfl, Gains.refl fun x h => ?_, .nil⟩
    rw [Part.declaredAround_of_exprs _ rfl] at h
    cases h
  | method f =>
    obtain ⟨g, hg, hf⟩ := exists_frame_enter (t := .method f) (.function f.id) (Frame.ofCall f) Γ rfl
      (fun _ => rfl) (Frame.opener_ofCall f) (fun i x => by rw [Frame.has_ofCall]; rfl) i
    refine ⟨[g], Γ, hg, Gains.refl fun x h => ?_, hf⟩
    rw [Part.declaredAround_of_opens (fun _ => by simp [Part.opens])] at h
    cases h
  | stmt s =>
    cases s with
    | block id body =>
      obtain ⟨g, hg, hf⟩ := exists_frame_enter (t := .stmt (.block id body)) (.block id)
        { opener := .block id } Γ rfl (fun _ => rfl) rfl
        (fun i x => by simp [Part.NamesWithin, Frame.has]) i
      refine ⟨[g], Γ, hg, Gains.refl fun x h => ?_, hf⟩
      rw [Part.declaredAround_of_opens (fun _ => by simp [Part.opens])] at h
      cases h
    | function f =>
      obtain ⟨g, hg, hf⟩ := exists_frame_enter (t := .stmt (.function f)) (.function f.id)
        (Frame.ofCall f) (Γ.declareReady f.name.lexeme) rfl (fun _ => rfl) (Frame.opener_ofCall f)
        (fun i x => by rw [Frame.has_ofCall]; rfl) i
      refine ⟨[g], _, hg, (gains_declareReady Γ _).congr fun x => ?_, hf⟩
      rw [Part.declaredAround_of_opens (fun _ => by simp [Part.opens])]
      simp [Part.declares?, eq_comm]
    | expression id e =>
      refine ⟨[], _, rfl, Gains.refl fun x h => ?_, .nil⟩
      rw [Part.declaredAround_of_exprs [e] rfl] at h
      cases h
    | print id e =>
      refine ⟨[], _, rfl, Gains.refl fun x h => ?_, .nil⟩
      rw [Part.declaredAround_of_exprs [e] rfl] at h
      cases h
    | ret id keyword value =>
      refine ⟨[], _, rfl, Gains.refl fun x h => ?_, .nil⟩
      rw [Part.declaredAround_of_exprs _ rfl] at h
      cases h
    | varDecl id name initializer =>
      refine ⟨[], _, rfl, (gains_mark Γ name.lexeme false).congr fun x => ?_, .nil⟩
      rw [Part.declaredAround_of_exprs _ rfl]
      simp [Part.declares?, eq_comm]
    | loop id condition body =>
      refine ⟨[], _, rfl, Gains.refl fun x h => ?_, .nil⟩
      rcases h with h | ⟨j, hj, c, hc, -, hd⟩
      · cases h
      · obtain rfl : j = 0 := by
          simp [Part.children] at hi
          omega
        cases hc
        exact Part.not_declaresHere_expr _ _ hd
    | branch id condition thenBranch elseBranch =>
      have he : Γ.enter (.stmt (.branch id condition thenBranch elseBranch)) i =
          if i ≤ 1 then Γ else Γ.after thenBranch := by cases i <;> rfl
      refine ⟨[], if i ≤ 1 then Γ else Γ.after thenBranch, he, ?_, .nil⟩
      split
      · refine Gains.refl fun x h => ?_
        rcases h with h | ⟨j, hj, c, hc, -, hd⟩
        · cases h
        · obtain rfl : j = 0 := by omega
          cases hc
          exact Part.not_declaresHere_expr _ _ hd
      · refine (gains_after Γ thenBranch).congr fun x => ⟨fun h => ?_, fun h => ?_⟩
        · exact .inr ⟨1, by omega, _, rfl, rfl, h⟩
        · rcases h with h | ⟨j, hj, c, hc, -, hd⟩
          · cases h
          · have hj : j ≤ 1 := by
              cases elseBranch <;> simp [Part.children] at hi <;> omega
            obtain rfl | rfl : j = 0 ∨ j = 1 := by omega
            · cases hc
              exact absurd hd (Part.not_declaresHere_expr _ _)
            · cases hc
              exact hd
    | classDecl id name superclass methods =>
      have hgain : Gains Γ (Γ.declareReady name.lexeme)
          (Part.DeclaredAround (.stmt (.classDecl id name superclass methods)) i) := by
        refine (gains_declareReady Γ _).congr fun x => ?_
        rw [Part.DeclaredAround, or_iff_left]
        · simp [Part.declares?, eq_comm]
        · rintro ⟨j, -, c, hc, ho, hd⟩
          cases superclass with
          | none => cases ho
          | some ref =>
            cases j with
            | zero =>
              cases hc
              exact Part.not_declaresHere_expr _ _ hd
            | succ j => cases ho
      have hthis : ∀ subclass x, (Frame.ofThis id methods subclass).has x = true ↔ x = "this" := by
        intro subclass x
        rw [Frame.ofThis, Frame.has_singleton]
      have hsuper : ∀ x, (Frame.ofSuper id).has x = true ↔ x = "super" := by
        intro x
        rw [Frame.ofSuper, Frame.has_singleton]
      cases superclass with
      | none =>
        exact ⟨[Frame.ofThis id methods false], _, rfl, hgain, .cons ⟨rfl, hthis false⟩ .nil⟩
      | some ref =>
        cases i with
        | zero => exact ⟨[], _, rfl, hgain, .nil⟩
        | succ i =>
          exact ⟨[Frame.ofThis id methods true, Frame.ofSuper id], _, rfl, hgain,
            .cons ⟨rfl, hthis true⟩ (.cons ⟨rfl, hsuper⟩ .nil)⟩

end Nesting

/-- A part opens nothing around a child, or a scope for declarations, or the scopes of a class. -/
theorem Part.opens_cases {t c : Part} {i : Nat} (h : t.children[i]? = some c) :
    t.opens i = [] ∨
      (∃ o, t.opens i = [o] ∧ (∀ id, o ≠ .super id) ∧ ¬ o.isThis) ∨
      ∃ id methods b rest, t.opens i = .this id methods b :: rest ∧ ∃ f, c = .method f := by
  cases t with
  | program p => exact .inl rfl
  | expr e => exact .inl rfl
  | method f => exact .inr (.inl ⟨_, rfl, by simp, by simp [Opener.isThis]⟩)
  | stmt s =>
    cases s with
    | block id body => exact .inr (.inl ⟨_, rfl, by simp, by simp [Opener.isThis]⟩)
    | function f => exact .inr (.inl ⟨_, rfl, by simp, by simp [Opener.isThis]⟩)
    | classDecl id name superclass methods =>
      cases superclass with
      | none =>
        obtain ⟨f, -, rfl⟩ := List.mem_map.1 (List.mem_of_getElem? h)
        exact .inr (.inr ⟨_, _, _, _, rfl, f, rfl⟩)
      | some ref =>
        cases i with
        | zero => exact .inl rfl
        | succ i =>
          have hm : (methods.map method)[i]? = some c := h
          obtain ⟨f, -, rfl⟩ := List.mem_map.1 (List.mem_of_getElem? hm)
          exact .inr (.inr ⟨_, _, _, _, rfl, f, rfl⟩)
    | _ => exact .inl rfl

theorem Part.nodup_opens (t : Part) (i : Nat) : (t.opens i).Nodup := by
  unfold opens
  split <;> simp

/-! ### The frames around a place are the regions around its address -/

namespace Program

variable {p : Program} {a : Address} {t : Part}

theorem address_prefix_of_mem_regions {r : Region} (hr : r ∈ p.regions a) : r.address <+: a := by
  have key : ∀ (b : Address) (u : Part) (here : Address), r ∈ u.regions here b →
      r.address <+: here ++ b := by
    intro b
    induction b with
    | nil => intro u here h; simp at h
    | cons i b ih =>
      intro u here h
      rw [Part.regions] at h
      rcases List.mem_append.1 h with h | h
      · cases hc : u.children[i]? with
        | none => simp [hc] at h
        | some c =>
          rw [hc] at h
          simpa using ih c (here ++ [i]) h
      · obtain ⟨o, -, rfl⟩ := List.mem_map.1 h
        exact List.prefix_append _ _
  simpa using key a (.program p) [] hr

theorem part?_below (ha : p.part? a = some t) (j : Nat) (b : Address) :
    p.part? (a ++ j :: b) = (t.children[j]?).bind (·.at? b) := by
  rw [part?, Part.at?_append, ← part?, ha, Option.bind_some, Part.at?_cons]

/-- The innermost region around an address below a child. -/
theorem head?_regions_below {c : Part} {j : Nat} {b : Address} {r : Region}
    (ha : p.part? a = some t) (hc : t.children[j]? = some c)
    (hr : (p.regions (a ++ j :: b)).head? = some r) (hlen : r.address.length ≤ a.length) :
    c.regions [] b = [] ∧ ((t.opens j).map (Region.mk a) ++ p.regions a).head? = some r := by
  rw [p.regions_append _ ha, Part.regions_cons a b hc, List.append_assoc] at hr
  cases hb : c.regions (a ++ [j]) b with
  | nil =>
    rw [hb, List.nil_append] at hr
    exact ⟨(Part.regions_eq_nil_iff c _ b).1 hb, hr⟩
  | cons r' rest =>
    -- a region opened at the child or below has a longer address
    rw [hb] at hr
    obtain rfl : r' = r := Option.some.inj hr
    have hpre := Part.here_prefix_of_mem_regions (hb ▸ List.mem_cons_self : r' ∈ _)
    have := hpre.length_le
    simp only [List.length_append, List.length_singleton] at this
    omega

/-- One step down the tree, the declarations of an older region that come before grow by those that
stand around the part. -/
theorem declaresBefore_concat_iff {r : Region} (ha : p.part? a = some t) (hr : r ∈ p.regions a)
    (i : Nat) (x : String) :
    p.DeclaresBefore r x (a ++ [i]) ↔
      p.DeclaresBefore r x a ∨ ((p.regions a).head? = some r ∧ t.DeclaredAround i x) := by
  have hlt := p.length_lt_of_mem_regions ha hr
  constructor
  · rintro ⟨b, u, hu, hd, hb, hlt'⟩
    rcases lt_concat_iff.1 hlt' with h | rfl | ⟨j, hj, b, rfl⟩
    · exact .inl ⟨b, u, hu, hd, hb, h⟩
    · rw [ha] at hu
      cases hu
      exact .inr ⟨hb, .inl hd⟩
    · rw [part?_below ha] at hu
      obtain ⟨c, hc, hu⟩ := Option.bind_eq_some_iff.1 hu
      obtain ⟨hnil, hhead⟩ := head?_regions_below ha hc hb (by omega)
      cases ho : t.opens j with
      | nil =>
        rw [ho] at hhead
        exact .inr ⟨hhead, .inr ⟨j, hj, c, hc, ho, b, u, hu, hd, hnil⟩⟩
      | cons o os =>
        rw [ho] at hhead
        cases hhead
        exact absurd hlt (Nat.lt_irrefl _)
  · rintro (⟨b, u, hu, hd, hb, h⟩ | ⟨hhead, h | ⟨j, hj, c, hc, ho, b, u, hu, hd, hnil⟩⟩)
    · exact ⟨b, u, hu, hd, hb, lt_concat_iff.2 (.inl h)⟩
    · exact ⟨a, t, ha, h, hhead, lt_concat_iff.2 (.inr (.inl rfl))⟩
    · refine ⟨a ++ j :: b, u, ?_, hd, ?_, lt_concat_iff.2 (.inr (.inr ⟨j, hj, b, rfl⟩))⟩
      · rw [part?_below ha, hc]
        exact hu
      · rw [p.regions_append _ ha, Part.regions_cons a b hc, (Part.regions_eq_nil_iff c _ b).2 hnil,
          ho]
        exact hhead

/-- In a region that a part opens, the declarations that come before a child are those before it
among the children. -/
theorem declaresBefore_opened_iff {o : Opener} (ha : p.part? a = some t) (i : Nat) (x : String) :
    p.DeclaresBefore ⟨a, o⟩ x (a ++ [i]) ↔ t.DeclaredWithin o i x := by
  have hnot : ⟨a, o⟩ ∉ p.regions a := fun h => by
    have := p.length_lt_of_mem_regions ha h
    exact Nat.lt_irrefl _ this
  constructor
  · rintro ⟨b, u, hu, hd, hb, hlt⟩
    rcases lt_concat_iff.1 hlt with h | rfl | ⟨j, hj, b, rfl⟩
    · exact absurd h (not_lt_of_above (address_prefix_of_mem_regions (List.mem_of_head? hb)))
    · exact absurd (List.mem_of_head? hb) hnot
    · rw [part?_below ha] at hu
      obtain ⟨c, hc, hu⟩ := Option.bind_eq_some_iff.1 hu
      obtain ⟨hnil, hhead⟩ := head?_regions_below ha hc hb (Nat.le_refl _)
      refine ⟨j, hj, c, hc, ?_, b, u, hu, hd, hnil⟩
      cases ho : t.opens j with
      | nil =>
        rw [ho] at hhead
        exact absurd (List.mem_of_head? hhead) hnot
      | cons o' os =>
        rw [ho] at hhead
        cases hhead
        rfl
  · rintro ⟨j, hj, c, hc, ho, b, u, hu, hd, hnil⟩
    refine ⟨a ++ j :: b, u, ?_, hd, ?_, lt_concat_iff.2 (.inr (.inr ⟨j, hj, b, rfl⟩))⟩
    · rw [part?_below ha, hc]
      exact hu
    · rw [p.regions_append _ ha, Part.regions_cons a b hc, (Part.regions_eq_nil_iff c _ b).2 hnil,
        List.nil_append]
      cases hos : t.opens j with
      | nil => simp [hos] at ho
      | cons o' os =>
        rw [hos] at ho
        cases ho
        rfl

/-- Directly in a scope with `this` stand methods alone, and directly in one with `super` nothing. -/
theorem exists_method_of_head {r : Region} (ha : p.part? a = some t)
    (hr : (p.regions a).head? = some r) :
    (∀ id, r.opener ≠ .super id) ∧ (r.opener.isThis → ∃ f, t = .method f) := by
  induction a using List.reverseRecOn generalizing t with
  | nil => cases hr
  | append_singleton a i ih =>
    obtain ⟨u, hu, hc⟩ : ∃ u, p.part? a = some u ∧ u.children[i]? = some t := by
      rw [part?, Part.at?_concat, Option.bind_eq_some_iff] at ha
      exact ha
    rw [p.regions_concat hu hc] at hr
    rcases u.opens_cases hc with ho | ⟨o, ho, hs, ht⟩ | ⟨id, methods, b, o, ho, f, rfl⟩
    · -- nothing is opened: the part around would have to be a method
      rw [ho] at hr
      obtain ⟨hsuper, hthis⟩ := ih hu hr
      refine ⟨hsuper, fun h => ?_⟩
      obtain ⟨f, rfl⟩ := hthis h
      cases ho
    · rw [ho] at hr
      cases hr
      exact ⟨hs, fun h => absurd h ht⟩
    · rw [ho] at hr
      cases hr
      exact ⟨by simp, fun _ => ⟨f, rfl⟩⟩

/-- The frames are opened by what opens the regions, and have the names the regions have. -/
def Agrees (p : Program) (a : Address) (Γ : Nesting) : Prop :=
  List.Forall₂ (fun (f : Frame) r => f.opener = r.opener ∧ ∀ x, f.has x = true ↔ p.Has r x a) Γ
    (p.regions a)

theorem agrees_nil (p : Program) : p.Agrees [] [] := .nil

theorem nodup_regions (ha : p.part? a = some t) : (p.regions a).Nodup := by
  induction a using List.reverseRecOn generalizing t with
  | nil => exact List.nodup_nil
  | append_singleton a i ih =>
    obtain ⟨u, hu, hc⟩ : ∃ u, p.part? a = some u ∧ u.children[i]? = some t := by
      rw [part?, Part.at?_concat, Option.bind_eq_some_iff] at ha
      exact ha
    rw [p.regions_concat hu hc]
    refine List.nodup_append.2 ⟨?_, ih hu, ?_⟩
    · exact List.Pairwise.map _ (fun o o' h he => h (Region.mk.inj he).2) (u.nodup_opens i)
    · rintro r hr r' hr' rfl
      obtain ⟨o, -, rfl⟩ := List.mem_map.1 hr
      exact absurd (p.length_lt_of_mem_regions hu hr') (Nat.lt_irrefl _)

theorem has_opened_iff (ha : p.part? a = some t) (i : Nat) (o : Opener) (x : String) :
    p.Has ⟨a, o⟩ x (a ++ [i]) ↔ t.NamesWithin i o x := by
  cases o with
  | this id methods b => exact Iff.rfl
  | super id => exact Iff.rfl
  | block id => exact declaresBefore_opened_iff ha i x
  | function id =>
    have hparams : (∃ u, p.part? a = some u ∧ x ∈ u.params) ↔ x ∈ t.params := by
      simp [ha]
    exact or_congr hparams (declaresBefore_opened_iff ha i x)

/-- One step down the tree, the names of an older region grow by those declared around the part, if
it is the innermost one. -/
theorem has_concat_iff {r : Region} (ha : p.part? a = some t) (hr : r ∈ p.regions a) (i : Nat)
    (x : String) :
    p.Has r x (a ++ [i]) ↔
      p.Has r x a ∨ ((p.regions a).head? = some r ∧ t.DeclaredAround i x) := by
  obtain ⟨b, o⟩ := r
  have hstep := declaresBefore_concat_iff ha hr i x
  cases o with
  | this id methods sub =>
    refine (or_iff_left ?_).symm
    rintro ⟨hhead, h⟩
    obtain ⟨f, rfl⟩ := (exists_method_of_head ha hhead).2 rfl
    rw [Part.declaredAround_of_opens (fun _ => by simp [Part.opens])] at h
    cases h
  | super id =>
    refine (or_iff_left ?_).symm
    rintro ⟨hhead, -⟩
    exact (exists_method_of_head ha hhead).1 id rfl
  | block id => exact hstep
  | function id => exact (or_congr Iff.rfl hstep).trans or_assoc.symm

theorem agrees_concat {c : Part} {Γ : Nesting} {i : Nat} (ha : p.part? a = some t)
    (hc : t.children[i]? = some c) (h : p.Agrees a Γ) : p.Agrees (a ++ [i]) (Γ.enter t i) := by
  obtain ⟨news, Δ, he, ⟨ho, htail, hnames⟩, hnews⟩ :=
    Γ.enter_spec (List.getElem?_eq_some_iff.1 hc).1
  have hnodup := nodup_regions ha
  have hhas := fun r (hr : r ∈ p.regions a) x => has_concat_iff ha hr i x
  unfold Agrees at h ⊢
  rw [he, p.regions_concat ha hc]
  refine List.rel_append ?_ ?_
  · refine List.forall₂_map_right_iff.2 (hnews.imp fun f o hf => ⟨hf.1, fun x => ?_⟩)
    rw [hf.2 x, has_opened_iff ha]
  · generalize p.regions a = rs at h hhas hnodup
    cases h with
    | nil =>
      rw [List.map_eq_nil_iff.1 ho]
      exact .nil
    | @cons f r Γ rs hf h =>
      cases Δ with
      | nil => cases ho
      | cons g Δ =>
        obtain rfl : Δ = Γ := htail
        have hr : r ∉ rs := (List.nodup_cons.1 hnodup).1
        refine .cons ⟨(List.cons.inj ho).1.trans hf.1, fun x => ?_⟩ ?_
        · rw [hhas r List.mem_cons_self]
          have hx := hnames x (by simp)
          simp only [Nesting.hasHere, hf.2 x] at hx
          simpa using hx
        · refine (List.forall₂_iff_zip.1 h).elim fun hlen hzip => ?_
          refine List.forall₂_iff_zip.2 ⟨hlen, fun {f' r'} hm => ?_⟩
          have hr' : r' ∈ rs := (List.of_mem_zip hm).2
          refine ⟨(hzip hm).1, fun x => ?_⟩
          rw [hhas r' (List.mem_cons_of_mem _ hr'), (hzip hm).2 x, or_iff_left]
          rintro ⟨hhead, -⟩
          cases hhead
          exact hr hr'

/-- The nesting of a place shows the regions around it, and the names they have. -/
theorem agrees_of_place? {P : Place} (h : p.place? a = some P) : p.Agrees a P.nesting := by
  induction a using List.reverseRecOn generalizing P with
  | nil =>
    cases h
    exact agrees_nil p
  | append_singleton a i ih =>
    obtain ⟨Q, hQ⟩ : ∃ Q, p.place? a = some Q := by
      obtain ⟨u, hu⟩ : ∃ u, p.part? a = some u := by
        have hP := part?_of_place? h
        rw [part?, Part.at?_concat, Option.bind_eq_some_iff] at hP
        exact hP.imp fun _ h => h.1
      obtain ⟨Γ, hΓ⟩ := exists_place? hu
      exact ⟨_, hΓ⟩
    rw [place?_concat hQ, Option.map_eq_some_iff] at h
    obtain ⟨c, hc, rfl⟩ := h
    exact agrees_concat (part?_of_place? hQ) hc (ih hQ)

/-- A name is found so many frames out as the first region with it lies. -/
theorem distance?_eq_some_iff {Γ : Nesting} (h : p.Agrees a Γ) (x : String) (d : Nat) :
    Γ.distance? x = some d ↔ p.FirstWith a x d := by
  unfold Nesting.distance? FirstWith
  unfold Agrees at h
  generalize p.regions a = rs at h
  induction h generalizing d with
  | nil => simp
  | @cons f r Γ rs hf h ih =>
    rw [List.findIdx?_cons]
    cases hx : f.has x with
    | true =>
      have hr : p.Has r x a := (hf.2 x).1 hx
      cases d with
      | zero => simpa using hr
      | succ d =>
        simp only [if_true, Option.some.injEq]
        refine iff_of_false (by simp) fun hd => ?_
        exact hd.2 0 (Nat.succ_pos d) r rfl hr
    | false =>
      have hr : ¬ p.Has r x a := fun hr => by simp [(hf.2 x).2 hr] at hx
      cases d with
      | zero => simpa using hr
      | succ d =>
        simp only [Bool.false_eq_true, if_false, Option.map_eq_some_iff, Nat.add_right_cancel_iff,
          exists_eq_right, ih d, List.getElem?_cons_succ]
        refine and_congr_right fun _ => ⟨fun hd j hj s hs => ?_, fun hd j hj s hs => ?_⟩
        · cases j with
          | zero =>
            cases hs
            exact hr
          | succ j => exact hd j (by omega) s hs
        · exact hd (j + 1) (by omega) s hs

end Program

end Lox
