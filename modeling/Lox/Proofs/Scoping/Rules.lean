import Lox.Proofs.Scoping.Regular
import Lox.Proofs.Scoping.Table
import Lox.Proofs.Scoping.Visits

/-!
# The static rules, by position

What is reported for a node, said of places alone (`Program.violations`): of the functions, classes
and variable declarations that stand around the node, and of the names that its innermost region has
before it.  No stack of scopes, no mark on a name and no kind of function or class is involved.

The errors of the resolver are those of the nodes in the order of the walk, each exactly once and
nothing else (`Program.errors_eq_violations`).
-/

namespace Lox

/-! ### What stands around a node -/

/-- The parts strictly around an address below a part that stands at `here`, innermost first. -/
def Part.around (here : Address) : Part → Address → List (Address × Part)
  | _, [] => []
  | t, i :: a =>
    (match t.children[i]? with
      | some c => c.around (here ++ [i]) a
      | none => []) ++ [(here, t)]

/-- A function or a method. -/
def Part.isFunction : Part → Bool
  | .stmt (.function _) => true
  | .method _ => true
  | _ => false

/-- The superclass of a class, if it names one; `none` for what is no class. -/
def Part.superclass? : Part → Option (Option VarRef)
  | .stmt (.classDecl _ _ superclass _) => some superclass
  | _ => none

/-- The name of a variable declaration. -/
def Part.declaresVariable? : Part → Option String
  | .stmt (.varDecl _ name _) => some name.lexeme
  | _ => none

namespace Program

variable (p : Program)

/-- The parts strictly around an address, innermost first. -/
def around (a : Address) : List (Address × Part) := (Part.program p).around [] a

/-- Whether a function or method stands around an address. -/
def insideFunction (a : Address) : Bool := (p.around a).any (·.2.isFunction)

/-- The superclass of the innermost class around an address; `none` outside of all classes. -/
def classAround? (a : Address) : Option (Option VarRef) :=
  (p.around a).findSome? (·.2.superclass?)

/-- Whether an address lies in the initializer of a local variable of a name. -/
def InInitializer (a : Address) (x : String) : Prop :=
  ∃ b t, (b, t) ∈ p.around a ∧ t.declaresVariable? = some x ∧ p.regions b ≠ []

/-- Whether the innermost region around an address has a name before it. -/
def DeclaredHere (a : Address) (x : String) : Prop :=
  ∃ r, (p.regions a).head? = some r ∧ p.Has r x a

open Classical in
/-- The error of a declaration whose name its region has already. -/
noncomputable def redeclaration (a : Address) (name : Token) : List StaticError :=
  if p.DeclaredHere a name.lexeme then [⟨.duplicateDeclaration, name⟩] else []

end Program

/-- The errors of the parameters that an earlier parameter is equal to. -/
def FunctionDecl.repeatedParams (f : FunctionDecl) : List StaticError :=
  f.params.zipIdx.flatMap fun (name, i) =>
    if name.lexeme ∈ (f.params.take i).map (·.lexeme) then [⟨.duplicateDeclaration, name⟩] else []

open Classical in
/-- The static rules that the node at an address breaks. -/
noncomputable def Program.violations (p : Program) (a : Address) : List StaticError :=
  match p.part? a with
  | some (.expr (.var ref)) =>
    if p.InInitializer a ref.name.lexeme then [⟨.selfInitializer, ref.name⟩] else []
  | some (.expr (.assign _ target equals _)) =>
    if target.asVariable?.isSome then [] else [⟨.invalidAssignmentTarget, equals⟩]
  | some (.expr (.this _ keyword)) =>
    if (p.classAround? a).isSome then [] else [⟨.thisOutsideClass, keyword⟩]
  | some (.expr (.super _ keyword _)) =>
    match p.classAround? a with
    | none => [⟨.superOutsideClass, keyword⟩]
    | some none => [⟨.superWithoutSuperclass, keyword⟩]
    | some (some _) => []
  | some (.stmt (.varDecl _ name _)) => p.redeclaration a name
  | some (.stmt (.function f)) => p.redeclaration a f.name ++ f.repeatedParams
  | some (.method f) => f.repeatedParams
  | some (.stmt (.ret _ keyword _)) =>
    if p.insideFunction a then [] else [⟨.topLevelReturn, keyword⟩]
  | some (.stmt (.classDecl _ name superclass _)) =>
    p.redeclaration a name ++ superclass.toList.flatMap fun ref =>
      if ref.name.lexeme = name.lexeme then [⟨.selfInheritance, ref.name⟩] else []
  | _ => []

/-! ### Names that wait for their initializer -/

namespace Nesting

variable {Γ : Nesting}

/-- No name waits for its initializer in a child, unless the part is a variable declaration. -/
theorem Settled.enter {t : Part} (h : Γ.Settled) (ht : t.declaresVariable? = none) (i : Nat) :
    (Γ.enter t i).Settled := by
  cases t with
  | program p => exact h.afterAll
  | expr e => exact h
  | method f => exact (h.cons (Frame.settled_ofCall f)).afterAll
  | stmt s =>
    cases s with
    | block id body => exact (h.cons fun x => by simp).afterAll
    | varDecl id name initializer => cases ht
    | branch id condition thenBranch elseBranch =>
      by_cases hi : i ≤ 1
      · simpa [Nesting.enter, hi] using h
      · simpa [Nesting.enter, hi] using h.after thenBranch
    | function f => exact ((h.declareReady _).cons (Frame.settled_ofCall f)).afterAll
    | classDecl id name superclass methods =>
      have hclass := h.declareReady name.lexeme
      cases superclass with
      | none => exact hclass.cons (Frame.settled_singleton _ _)
      | some ref =>
        cases i with
        | zero => exact hclass
        | succ i =>
          exact (hclass.cons (Frame.settled_singleton _ _)).cons (Frame.settled_singleton _ _)
    | _ => exact h

theorem Settled.isPending (h : Γ.Settled) (x : String) : Γ.isPending x = false := by
  cases Γ with
  | nil => rfl
  | cons f Γ => simpa [Nesting.isPending] using h f List.mem_cons_self x

theorem Settled.isPending_mark (h : Γ.Settled) (x y : String) :
    (Γ.mark x false).isPending y = true ↔ x = y ∧ Γ ≠ [] := by
  cases Γ with
  | nil => simp [Nesting.mark, Nesting.isPending]
  | cons f Γ =>
    have hf := h f List.mem_cons_self y
    by_cases hy : y = x
    · simp [Nesting.mark, Nesting.isPending, Frame.ready?_mark, hy]
    · simp [Nesting.mark, Nesting.isPending, Frame.ready?_mark, hy, Ne.symm hy, hf]

end Nesting

/-! ### Functions and classes around a place -/

def Opener.isFunction : Opener → Bool
  | .function _ => true
  | _ => false

/-- The kind of a class, by its superclass. -/
def classKindOf : Option (Option VarRef) → ClassKind
  | none => .none
  | some none => .plain
  | some (some _) => .subclass

namespace Nesting

theorem inFunction_enter (Γ : Nesting) {t : Part} {i : Nat} (hi : i < t.children.length) :
    (Γ.enter t i).inFunction = (t.isFunction || Γ.inFunction) := by
  have hany : ∀ Δ : Nesting, Δ.inFunction = (Δ.map (·.opener)).any (·.isFunction) := by
    intro Δ
    simp only [inFunction, List.any_map]
    rfl
  have hopens : (t.opens i).any (·.isFunction) = t.isFunction := by
    cases t with
    | stmt s =>
      cases s with
      | classDecl id name superclass methods =>
        cases superclass with
        | none => rfl
        | some ref => cases i <;> rfl
      | _ => rfl
    | _ => rfl
  rw [hany, hany, openers_enter Γ hi, List.any_append, hopens]

theorem classKind_enter (Γ : Nesting) {t : Part} (ht : t.superclass? = none) (i : Nat) :
    (Γ.enter t i).classKind = Γ.classKind := by
  cases t with
  | program p => exact classKind_congr (openers_afterAll Γ _)
  | expr e => rfl
  | method f =>
    exact (classKind_congr (openers_afterAll _ _)).trans (classKind_ofCall Γ f)
  | stmt s =>
    cases s with
    | block id body => exact classKind_congr (Δ := { opener := .block id } :: Γ) (openers_afterAll _ _)
    | varDecl id name initializer => exact classKind_congr (openers_mark Γ _ _)
    | branch id condition thenBranch elseBranch =>
      by_cases hi : i ≤ 1
      · simp [enter, hi]
      · simpa [enter, hi] using classKind_congr (openers_after Γ thenBranch)
    | function f =>
      refine (classKind_congr (openers_afterAll _ _)).trans ((classKind_ofCall _ f).trans ?_)
      exact classKind_congr (openers_declareReady Γ _)
    | classDecl id name superclass methods => cases ht
    | _ => rfl

end Nesting

/-! ### One step down the tree -/

namespace Part

theorem around_cons {t c : Part} (here : Address) {i : Nat} (a : Address)
    (h : t.children[i]? = some c) :
    t.around here (i :: a) = c.around (here ++ [i]) a ++ [(here, t)] := by
  rw [around, h]

theorem around_concat {t u c : Part} {a : Address} {i : Nat} (here : Address)
    (h : t.at? a = some u) (hc : u.children[i]? = some c) :
    t.around here (a ++ [i]) = (here ++ a, u) :: t.around here a := by
  induction a generalizing t here with
  | nil =>
    cases h
    rw [List.nil_append, around_cons here [] hc]
    simp [around]
  | cons j a ih =>
    obtain ⟨d, hd, hu⟩ := Option.bind_eq_some_iff.1 h
    rw [List.cons_append, around_cons here _ hd, around_cons here _ hd, ih _ hu, List.append_assoc]
    rfl

end Part

namespace Program

variable {p : Program} {a : Address} {t c : Part} {i : Nat}

theorem around_concat (h : p.part? a = some t) (hc : t.children[i]? = some c) :
    p.around (a ++ [i]) = (a, t) :: p.around a :=
  Part.around_concat [] h hc

theorem insideFunction_concat (h : p.part? a = some t) (hc : t.children[i]? = some c) :
    p.insideFunction (a ++ [i]) = (t.isFunction || p.insideFunction a) := by
  rw [insideFunction, around_concat h hc]
  rfl

theorem classAround?_concat (h : p.part? a = some t) (hc : t.children[i]? = some c) :
    p.classAround? (a ++ [i]) = t.superclass?.or (p.classAround? a) := by
  simp only [classAround?, around_concat h hc, List.findSome?_cons]
  cases t.superclass? <;> simp

theorem inInitializer_concat (h : p.part? a = some t) (hc : t.children[i]? = some c) (x : String) :
    p.InInitializer (a ++ [i]) x ↔
      (t.declaresVariable? = some x ∧ p.regions a ≠ []) ∨ p.InInitializer a x := by
  unfold InInitializer
  rw [around_concat h hc]
  constructor
  · rintro ⟨b, u, hu, hx, hr⟩
    rcases List.mem_cons.1 hu with hu | hu
    · cases hu
      exact .inl ⟨hx, hr⟩
    · exact .inr ⟨b, u, hu, hx, hr⟩
  · rintro (⟨hx, hr⟩ | ⟨b, u, hu, hx, hr⟩)
    · exact ⟨a, t, List.mem_cons_self, hx, hr⟩
    · exact ⟨b, u, List.mem_cons_of_mem _ hu, hx, hr⟩

/-! ### What the nesting of a node shows -/

theorem hasHere_iff {Γ : Nesting} (h : p.Agrees a Γ) (x : String) :
    Γ.hasHere x = true ↔ p.DeclaredHere a x := by
  unfold DeclaredHere
  unfold Agrees at h
  generalize p.regions a = rs at h
  cases h with
  | nil => simp [Nesting.hasHere]
  | cons hf _ => simp [Nesting.hasHere, hf.2 x]

theorem Agrees.eq_nil_iff {Γ : Nesting} (h : p.Agrees a Γ) : Γ = [] ↔ p.regions a = [] := by
  unfold Agrees at h
  generalize p.regions a = rs at h
  cases h <;> simp

/-- A name waits for its initializer inside of that, and nowhere else. -/
theorem isPending_iff {P : Place} (h : p.place? a = some P) (x : String) :
    P.nesting.isPending x = true ↔ p.InInitializer a x := by
  refine place_induction (p := p) (motive := fun a P => P.nesting.isPending x = true ↔
    p.InInitializer a x) ?_ ?_ h
  · simp [Nesting.isPending, InInitializer, around, Part.around]
  · intro a Γ t i c ht hc ih
    rw [inInitializer_concat (part?_of_place? ht) hc, ← ih]
    by_cases hexpr : ∃ e, t = .expr e
    · -- inside of an expression nothing changes
      obtain ⟨e, rfl⟩ := hexpr
      show Γ.isPending x = true ↔ _
      simp [Part.declaresVariable?]
    · have hsettled : Γ.Settled := (regular_of_place? ht).1.inner (not_exists.1 hexpr)
      cases hd : t.declaresVariable? with
      | none => simp [(hsettled.enter hd i).isPending, hsettled.isPending]
      | some y =>
        obtain ⟨id, name, initializer, rfl⟩ : ∃ id name initializer,
            t = .stmt (.varDecl id name initializer) := by
          unfold Part.declaresVariable? at hd
          split at hd
          · exact ⟨_, _, _, rfl⟩
          · cases hd
        cases hd
        show (Γ.mark name.lexeme false).isPending x = true ↔ _
        rw [hsettled.isPending_mark, Ne, (agrees_of_place? ht).eq_nil_iff]
        simp [hsettled.isPending]

/-- A place lies in the scope of a function if a function stands around it. -/
theorem inFunction_eq {P : Place} (h : p.place? a = some P) :
    P.nesting.inFunction = p.insideFunction a := by
  refine place_induction (p := p) (motive := fun a P => P.nesting.inFunction = p.insideFunction a)
    rfl ?_ h
  intro a Γ t i c ht hc ih
  rw [insideFunction_concat (part?_of_place? ht) hc, ← ih]
  exact Γ.inFunction_enter (List.getElem?_eq_some_iff.1 hc).1

/-- The kind of class that is nearest to a place tells the superclass of the innermost class around
it.  A superclass is no place inside of its class, and names neither `this` nor `super`. -/
theorem classKind_eq {P : Place} (h : p.place? a = some P) (hvar : ∀ ref, P.part ≠ .expr (.var ref)) :
    P.nesting.classKind = classKindOf (p.classAround? a) := by
  refine place_induction (p := p) (motive := fun a P => (∀ ref, P.part ≠ .expr (.var ref)) →
    P.nesting.classKind = classKindOf (p.classAround? a)) (fun _ => rfl) ?_ h hvar
  intro a Γ t i c ht hc ih hvar
  rw [classAround?_concat (part?_of_place? ht) hc]
  cases hs : t.superclass? with
  | none =>
    refine (Γ.classKind_enter hs i).trans (ih ?_)
    rintro ref rfl
    cases hc
  | some superclass =>
    obtain ⟨id, name, methods, rfl⟩ : ∃ id name methods,
        t = .stmt (.classDecl id name superclass methods) := by
      unfold Part.superclass? at hs
      split at hs
      · cases hs
        exact ⟨_, _, _, rfl⟩
      · cases hs
    match superclass, i with
    | none, i => rfl
    | some ref, 0 =>
      cases hc
      exact absurd rfl (hvar ref)
    | some ref, i + 1 => rfl

end Program

/-! ### The violations of a node -/

theorem Frame.redeclaredParams_eq (params : List Token) : ∀ (f : Frame) (before : List Token),
    (∀ x, f.has x = true ↔ x ∈ before.map (·.lexeme)) →
    f.redeclaredParams params = (params.zipIdx before.length).flatMap fun (name, i) =>
      if name.lexeme ∈ ((before ++ params).take i).map (·.lexeme) then
        [⟨.duplicateDeclaration, name⟩] else [] := by
  induction params with
  | nil => exact fun _ _ _ => rfl
  | cons name params ih =>
    intro f before hf
    have hnext : ∀ x, (f.markReady name.lexeme).has x = true ↔ x ∈ (before ++ [name]).map (·.lexeme) := by
      intro x
      rw [Frame.has_markReady, Bool.or_eq_true, hf]
      simp [or_comm]
    rw [Frame.redeclaredParams, ih _ _ hnext, List.zipIdx_cons, List.flatMap_cons]
    simp [hf]

namespace Program

variable {p : Program} {a : Address}

theorem redeclaration_eq {Γ : Nesting} (h : p.Agrees a Γ) (name : Token) :
    p.redeclaration a name = Γ.redeclared name := by
  unfold redeclaration Nesting.redeclared
  by_cases hx : p.DeclaredHere a name.lexeme
  · rw [if_pos hx, if_pos ((hasHere_iff h _).2 hx)]
  · rw [if_neg hx, if_neg (mt (hasHere_iff h _).1 hx)]

/-- The node at a place breaks the rules that it breaks at its nesting. -/
theorem violations_eq {P : Place} (h : p.place? a = some P) : p.violations a = P.violations := by
  have hname := redeclaration_eq (agrees_of_place? h)
  have hparams : ∀ f : FunctionDecl, f.redeclaredParams = f.repeatedParams := fun f =>
    Frame.redeclaredParams_eq f.params _ [] fun x => by simp [Frame.has]
  have hpending := fun x => isPending_iff h x
  have hfunction := inFunction_eq h
  have hclass := classKind_eq h
  unfold violations
  rw [part?_of_place? h]
  obtain ⟨Γ, t⟩ := P
  cases t with
  | program q => rfl
  | method f => exact (hparams f).symm
  | stmt s =>
    cases s with
    | varDecl id name initializer => exact hname name
    | function f => exact congr (congrArg _ (hname f.name)) (hparams f).symm
    | ret id keyword value =>
      show _ = if Γ.inFunction then [] else _
      rw [← hfunction]
    | classDecl id name superclass methods =>
      refine congr (congrArg _ (hname name)) ?_
      cases superclass <;> simp
    | _ => rfl
  | expr e =>
    cases e with
    | var ref =>
      show _ = if Γ.isPending ref.name.lexeme then _ else _
      by_cases hx : p.InInitializer a ref.name.lexeme
      · rw [if_pos ((hpending _).2 hx)]
        exact if_pos hx
      · rw [if_neg (mt (hpending _).1 hx)]
        exact if_neg hx
    | assign id target equals value =>
      cases ht : target.asVariable? <;> simp [Place.violations, Part.violations, ht]
    | this id keyword =>
      have hkind : Γ.classKind = _ := hclass (by simp)
      simp only [Place.violations, Part.violations, hkind]
      rcases p.classAround? a with _ | _ | _ <;> rfl
    | super id keyword method =>
      have hkind : Γ.classKind = _ := hclass (by simp)
      simp only [Place.violations, Part.violations, hkind]
      rcases p.classAround? a with _ | _ | _ <;> rfl
    | _ => rfl

/-- What the resolver reports are the violations of the nodes in the order of the walk, and what it
records are their distances.  The walk visits every node exactly once, whatever errors it has found
before; a variable that is the target of an assignment is no node of its own. -/
theorem errors_eq_violations (p : Program) :
    p.resolve.errors = p.visits.flatMap p.violations ∧
      p.resolve.diagnostics = (p.visits.flatMap p.violations).map StaticError.diagnostic ∧
      p.resolve.table = (p.visits.filterMap p.place?).foldl Place.record ∅ ∧
      p.visits.Nodup ∧ ∀ a, a ∈ p.visits ↔ ∃ t, p.part? a = some t ∧ t.id?.isSome := by
  have herrors : p.resolve.errors = p.visits.flatMap p.violations := by
    rw [resolve_errors, places_eq_visits, List.filterMap_eq_flatMap_toList, List.flatMap_assoc]
    refine List.flatMap_congr fun a ha => ?_
    obtain ⟨t, ht, -⟩ := p.mem_visits.1 ha
    obtain ⟨Γ, hP⟩ := exists_place? ht
    simp [hP, violations_eq hP]
  refine ⟨herrors, ?_, ?_, p.nodup_visits, fun a => p.mem_visits⟩
  · rw [Resolver.diagnostics, herrors]
  · rw [resolve_table, places_eq_visits]

end Program

end Lox
