import Lox.Proofs.Scoping.Regular

/-!
# The method around a place

The first region with `this` around a place lies just outside of the region of a method, and this is
the innermost method around the place, however many functions and blocks are in between.
-/

namespace Lox

/-- A method is the innermost one around an address. -/
def Program.InnermostMethod (p : Program) (a : Address) (g : FunctionDecl) : Prop :=
  ∃ b, b <+: a ∧ p.part? b = some (.method g) ∧
    ∀ c f, c <+: a → p.part? c = some (.method f) → c <+: b

/-- Methods stand directly in the scope with `this` of a class. -/
theorem Part.opens_of_method {t : Part} {i : Nat} {f : FunctionDecl}
    (h : t.children[i]? = some (.method f)) :
    ∃ id methods b rest, t.opens i = .this id methods b :: rest := by
  have hstmts : ∀ ss : List Stmt, (ss.map stmt)[i]? ≠ some (.method f) := fun ss hs => by
    obtain ⟨s, -, he⟩ := List.mem_map.1 (List.mem_of_getElem? hs)
    cases he
  cases t with
  | program p => exact absurd h (hstmts p)
  | method g => exact absurd h (hstmts g.body)
  | expr e =>
    obtain ⟨e', -, he⟩ := List.mem_map.1 (List.mem_of_getElem? h)
    cases he
  | stmt s =>
    cases s with
    | block id body => exact absurd h (hstmts body)
    | function g => exact absurd h (hstmts g.body)
    | classDecl id name superclass methods =>
      cases superclass with
      | none => exact ⟨_, _, _, _, rfl⟩
      | some ref =>
        cases i with
        | zero => cases h
        | succ i => exact ⟨_, _, _, _, rfl⟩
    | varDecl id name initializer =>
      cases initializer <;> simp [children, List.getElem?_cons] at h
    | ret id keyword value =>
      cases value <;> simp [children, List.getElem?_cons] at h
    | branch id condition thenBranch elseBranch =>
      cases elseBranch <;> simp [children, List.getElem?_cons] at h <;> grind
    | _ => simp [children, List.getElem?_cons] at h <;> grind

namespace Program

variable {p : Program} {a : Address} {t : Part}

/-- The part around a part. -/
theorem exists_parent {i : Nat} (h : p.part? (a ++ [i]) = some t) :
    ∃ u, p.part? a = some u ∧ u.children[i]? = some t := by
  rw [part?, Part.at?_concat, Option.bind_eq_some_iff] at h
  exact h

theorem InnermostMethod.concat {g : FunctionDecl} {i : Nat} (h : p.InnermostMethod a g)
    (ht : p.part? (a ++ [i]) = some t) (hne : ∀ f, t ≠ .method f) :
    p.InnermostMethod (a ++ [i]) g := by
  obtain ⟨b, hb, hg, hall⟩ := h
  refine ⟨b, hb.trans (List.prefix_append _ _), hg, fun c f hc hf => ?_⟩
  rcases List.prefix_concat_iff.1 hc with rfl | hc
  · cases ht.symm.trans hf
    exact absurd rfl (hne f)
  · exact hall c f hc hf

/-- The innermost region around a method is the scope with `this`. -/
theorem head_of_method {f : FunctionDecl} (h : p.part? a = some (.method f)) :
    ∃ r, (p.regions a)[0]? = some r ∧ r.opener.isThis := by
  induction a using List.reverseRecOn with
  | nil => cases h
  | append_singleton a i _ =>
    obtain ⟨u, hu, hc⟩ := exists_parent h
    obtain ⟨id, methods, b, rest, ho⟩ := Part.opens_of_method hc
    rw [p.regions_concat hu hc, ho]
    exact ⟨_, rfl, rfl⟩

/-- The first region with `this` is the innermost one around a method, and around anything else the one
just outside of the innermost method. -/
theorem exists_innermostMethod (ha : p.part? a = some t) {d : Nat} {r : Region}
    (hr : (p.regions a)[d]? = some r) (hthis : r.opener.isThis)
    (hfirst : ∀ j < d, ∀ r', (p.regions a)[j]? = some r' → ¬ r'.opener.isThis) :
    (∃ f, t = .method f) ∧ d = 0 ∨ ∃ k g r', d = k + 1 ∧ p.InnermostMethod a g ∧
      (p.regions a)[k]? = some r' ∧ r'.opener = .function g.id := by
  by_cases hm : ∃ f, t = .method f
  · left
    refine ⟨hm, ?_⟩
    obtain ⟨f, rfl⟩ := hm
    obtain ⟨r', hr', hthis'⟩ := head_of_method ha
    by_contra hne
    exact hfirst 0 (Nat.pos_of_ne_zero hne) r' hr' hthis'
  · right
    induction a using List.reverseRecOn generalizing t d with
    | nil => simp [regions] at hr
    | append_singleton a i ih =>
      obtain ⟨u, hu, hc⟩ := exists_parent ha
      have hne : ∀ f, t ≠ .method f := fun f hf => hm ⟨f, hf⟩
      rw [p.regions_concat hu hc] at hr hfirst ⊢
      rcases u.opens_cases hc with ho | ⟨o, ho, -, hno⟩ | ⟨id, methods, b, rest, ho, hf⟩
      · -- nothing is opened, so the part around is no method either
        have hu' : ¬ ∃ f, u = .method f := by
          rintro ⟨f, rfl⟩
          cases ho
        rw [ho] at hr hfirst ⊢
        obtain ⟨k, g, r', hk, hg, hr', hg'⟩ := ih hu hr hfirst hu'
        exact ⟨k, g, r', hk, hg.concat ha hne, hr', hg'⟩
      · rw [ho] at hr hfirst ⊢
        cases d with
        | zero =>
          cases hr
          exact absurd hthis hno
        | succ d =>
          have hr' : (p.regions a)[d]? = some r := hr
          have hfirst' : ∀ j < d, ∀ r', (p.regions a)[j]? = some r' → ¬ r'.opener.isThis :=
            fun j hj r' hr' => hfirst (j + 1) (Nat.succ_lt_succ hj) r' hr'
          by_cases hu' : ∃ f, u = .method f
          · -- the method is the part around, and its `this` comes first
            obtain ⟨f, rfl⟩ := hu'
            obtain ⟨r'', hr'', hthis''⟩ := head_of_method hu
            have hzero : d = 0 := by
              by_contra hne
              exact hfirst' 0 (Nat.pos_of_ne_zero hne) r'' hr'' hthis''
            subst hzero
            cases ho
            refine ⟨0, f, _, rfl, ?_, rfl, rfl⟩
            refine InnermostMethod.concat ?_ ha hne
            exact ⟨a, List.prefix_refl a, hu, fun c _ hc _ => hc⟩
          · obtain ⟨k, g, r', hk, hg, hr', hg'⟩ := ih hu hr' hfirst' hu'
            exact ⟨k + 1, g, r', congrArg (· + 1) hk, hg.concat ha hne, hr', hg'⟩
      · exact absurd hf hm

/-- Where `this` is found so many scopes out, the scope before is that of the innermost method. -/
theorem innermostMethod_of_distance (hw : p.WellNamed) {P : Place} (h : p.place? a = some P)
    (hm : ∀ f, P.part ≠ .method f) {d : Nat} (hd : P.nesting.distance? "this" = some d) :
    ∃ k g, d = k + 1 ∧ p.InnermostMethod a g ∧
      (P.nesting.map (·.opener))[k]? = some (.function g.id) := by
  obtain ⟨hlt, hthis, hbefore⟩ := List.findIdx?_eq_some_iff_getElem.1 hd
  have hopeners := (agrees_of_place? h).openers
  have hregion : ∀ (j : Nat) (r : Region), (p.regions a)[j]? = some r →
      ∃ f : Frame, P.nesting[j]? = some f ∧ f.opener = r.opener := by
    intro j r hr
    have ho : (P.nesting.map (·.opener))[j]? = some r.opener := by
      rw [hopeners, List.getElem?_map, hr]
      rfl
    rw [List.getElem?_map] at ho
    exact Option.map_eq_some_iff.1 ho
  obtain ⟨r, hr, ho⟩ : ∃ r, (p.regions a)[d]? = some r ∧ r.opener = P.nesting[d].opener := by
    have ho : ((p.regions a).map (·.opener))[d]? = some P.nesting[d].opener := by
      rw [← hopeners, List.getElem?_map, List.getElem?_eq_getElem hlt]
      rfl
    rw [List.getElem?_map] at ho
    exact Option.map_eq_some_iff.1 ho
  have hisThis : r.opener.isThis :=
    ho ▸ (keywords_of_place? hw h _ (List.getElem_mem hlt)).1 hthis
  have hfirst : ∀ j < d, ∀ r', (p.regions a)[j]? = some r' → ¬ r'.opener.isThis := by
    intro j hj r' hr' hthis'
    obtain ⟨f, hf, hof⟩ := hregion j r' hr'
    obtain ⟨hjlt, rfl⟩ := List.getElem?_eq_some_iff.1 hf
    have hready := (regular_of_place? h).1.classes.ready?_this (List.getElem_mem hjlt) (hof ▸ hthis')
    have hno := hbefore j hj
    rw [Frame.has, hready] at hno
    exact hno rfl
  rcases exists_innermostMethod (part?_of_place? h) hr hisThis hfirst with
    ⟨⟨f, hf⟩, -⟩ | ⟨k, g, r', hk, hg, hr', ho'⟩
  · exact absurd hf (hm f)
  · obtain ⟨f, hf, hof⟩ := hregion k r' hr'
    refine ⟨k, g, hk, hg, ?_⟩
    rw [List.getElem?_map, hf, Option.map_some, hof, ho']

end Program

end Lox
