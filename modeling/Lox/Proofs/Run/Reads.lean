import Lox.Proofs.Check
import Lox.Proofs.Run.History

/-!
# Which reads of locals find a binding

A program that breaks no static rule reads a local where its region has the name.  The scope that the
recorded distance leads to then binds the name, with one exception: a declaration that stands alone as
a branch or loop body gives its name to the region, and binds it only if it is come to.  So the only
reads that can miss are those of such names (`Episode.reads_find_bindings`), and they do miss
(`Program.skippedBranch`).
-/

namespace Lox

/-- The name a node reads when it is evaluated. -/
def Part.reads? : Part → Option String
  | expr (.var ref) => some ref.name.lexeme
  | expr (.this _ keyword) => some keyword.lexeme
  | expr (.super _ keyword _) => some keyword.lexeme
  | _ => none

theorem Part.looksUp?_of_reads? {t : Part} {x : String} (h : t.reads? = some x) :
    t.looksUp? = some x := by
  unfold reads? at h
  split at h
  · exact h
  · exact h
  · exact h
  · cases h

theorem Part.mayUse_of_reads? {t : Part} {x : String} (h : t.reads? = some x) : t.mayUse x := by
  unfold reads? at h
  split at h <;> cases h <;> first | rfl | trivial

/-- Variables are read by whatever name they have; the keywords of classes are found by theirs if the
programs are well-named. -/
def Part.ReadsSafely (named : Prop) : Part → Prop
  | expr (.var _) => True
  | _ => named

variable {S : Setting} {Γ : Nesting} {t : Part} {s : RunState} {x : String} {id : NodeId} {d : Nat}

/-- A node that reads a local finds the name ready in the frame at its distance, or it is a `super`
and finds the scope of one. -/
theorem Place.Fit.reads_ready {named : Prop} (hfit : Place.Fit named ⟨Γ, t⟩)
    (hn : t.ReadsSafely named) (hx : t.reads? = some x) (hd : Γ.distance? x = some d) :
    ∃ f, Γ[d]? = some f ∧
      (f.ready? x = some true ∨ named ∧ x = "super" ∧ ∃ id, f.opener = .super id) := by
  unfold Part.reads? at hx
  split at hx
  · cases hx
    obtain ⟨f, hf, hr⟩ := hfit.ready_var hd
    exact ⟨f, hf, .inl hr⟩
  · rename_i id keyword
    cases hx
    have hkeyword : keyword.lexeme = "this" := hfit.wellNamed hn
    obtain ⟨d', f, hd', hf, hr⟩ := hfit.ready_this hn
    rw [hkeyword, hd'] at hd
    cases hd
    exact ⟨f, hf, .inl (hkeyword ▸ hr)⟩
  · rename_i id keyword method
    cases hx
    have hkeyword : keyword.lexeme = "super" := hfit.wellNamed hn
    obtain ⟨d', f, g, id', hd', hf, hop, -⟩ := hfit.ready_super hn
    rw [hkeyword, hd'] at hd
    cases hd
    exact ⟨f, hf, .inr ⟨hn, hkeyword, id', hop⟩⟩
  · cases hx

/-- In a clean setting a node that reads a local, wherever it is come to, finds the name bound in the
scope at its distance, if that is sure. -/
theorem At.read (h : At S Γ t s) (hc : S.clean) (hn : t.ReadsSafely S.named)
    (hx : t.reads? = some x) (hid : t.id? = some id) (hd : S.context.table[id]? = some d) :
    ∃ f e, Γ[d]? = some f ∧ s.store.ancestor? d s.scope = some e ∧
      (S.sure f.opener x → s.store.binds e x) := by
  have hdist := h.distance?_eq hid (.inl (Part.looksUp?_of_reads? hx)) hd
  obtain ⟨f, hf, hready⟩ := (S.fit hc h.known).reads_ready hn hx hdist
  obtain ⟨e, he, hact⟩ := h.mirrors.ancestor hf
  refine ⟨f, e, hf, he, fun hsure => ?_⟩
  rcases hready with hr | ⟨hnamed, rfl, id', hop⟩
  · exact hact.bound hc x hsure (Part.mayUse_of_reads? hx) hr
  · obtain ⟨c, hv⟩ := hact.holds hnamed id' hop
    rw [Store.binds, hv]
    rfl

section

variable {registry : NativeRegistry} {config : Config} {Es : List Episode} {E : Episode}

namespace Episode

variable {clean : Prop} {discipline : Discipline} {hf : Fits clean (Es ++ [E]) discipline}
  {ht : IsTableOf E.context.table (programs (Es ++ [E]))}

/-- A node that reads a local finds a binding, or a declaration of the name stands alone. -/
theorem read_finds (hs : StoreOk (E.setting Es clean hf ht) E.interpreter.store)
    (hscope : E.interpreter.scope = E.interpreter.globals) {m : Nat} (hv : E.Visits m t s)
    (hc : clean) (hn : t.ReadsSafely (discipline.ifNamed clean)) (hx : t.reads? = some x)
    (hid : t.id? = some id) (hd : E.context.table[id]? = some d) :
    ∃ F ∈ Es ++ [E], ∃ a r e, F.program.part? a = some t ∧ (F.program.regions a)[d]? = some r ∧
      s.store.ancestor? d s.scope = some e ∧ (s.store.binds e x ∨ F.program.DeclaresBare r x) := by
  obtain ⟨Γ, hat⟩ := at_of_visits hs hscope hv
  obtain ⟨f, e, hfr, he, hbinds⟩ := hat.read hc hn hx hid hd
  obtain ⟨F, hF, a, r, ha, hr, hbare⟩ := exists_region_of_known hf ht hat.known hfr
  refine ⟨F, hF, a, r, e, ha, hr, he, ?_⟩
  by_cases hsure : (E.setting Es clean hf ht).sure f.opener x
  · exact .inl (hbinds hsure)
  · exact .inr (hbare x hsure)

end Episode

/-- The run of a program that breaks no static rule, after any others that break none, with
declarations wherever they may stand: a variable that is a local finds a binding in the scope that its
distance leads to, unless a declaration of that name in the region of that scope stands alone as a
branch or loop body.  If the programs are well-named, this goes for `this` and `super` too, and only if
there is such a declaration can the run end by a scope that does not bind a name. -/
theorem Episode.reads_find_bindings (h : History registry config Es E.interpreter)
    (hd : DistinctNodes (programs (Es ++ [E])))
    (he : ∀ p ∈ programs (Es ++ [E]), p.resolve.hasErrors = false) :
    (∀ m t s x id d, E.Visits m t s → t.reads? = some x → t.id? = some id →
      E.context.table[id]? = some d →
      t.ReadsSafely (∀ p ∈ programs (Es ++ [E]), p.WellNamed) →
      ∃ F ∈ Es ++ [E], ∃ a r e, F.program.part? a = some t ∧ (F.program.regions a)[d]? = some r ∧
        s.store.ancestor? d s.scope = some e ∧
        (s.store.binds e x ∨ F.program.DeclaresBare r x)) ∧
    ((∀ p ∈ programs (Es ++ [E]), p.WellNamed) →
      ∀ report i fault, E.result? = some (report, i) → report.ending = .crashed (.scope fault) →
      ∃ x d, fault = .unbound x d ∧ ∃ F ∈ Es ++ [E], ∃ r, F.program.DeclaresBare r x) := by
  have ht := h.isTableOf_context
  refine ⟨fun m t s x id d hv hx hid hdist hn => ?_, fun hw report i fault hr hcrash => ?_⟩
  · by_cases hw : ∀ p ∈ programs (Es ++ [E]), p.WellNamed
    · have hf : Fits True (Es ++ [E]) .named := ⟨hd, fun _ p hp => ⟨hw p hp, he p hp⟩⟩
      refine read_finds (h.storeOk E rfl hf ht) h.scope hv trivial ?_ hx hid hdist
      unfold Part.ReadsSafely
      split <;> trivial
    · have hf : Fits True (Es ++ [E]) .loose := ⟨hd, fun _ p hp => ⟨trivial, he p hp⟩⟩
      refine read_finds (h.storeOk E rfl hf ht) h.scope hv trivial ?_ hx hid hdist
      unfold Part.ReadsSafely at hn ⊢
      split at hn
      · trivial
      · exact absurd hn hw
  · have hf : Fits True (Es ++ [E]) .named := ⟨hd, fun _ p hp => ⟨hw p hp, he p hp⟩⟩
    have hs := h.storeOk E rfl hf ht
    cases ended_of_result? hr with
    | refused => cases hcrash
    | completed => cases hcrash
    | @raised fault' s hfits hrun =>
      have hsafe := run_safe hs h.scope hfits
      rw [hrun] at hsafe
      obtain rfl : fault' = .scope fault := by
        cases fault' <;> simp_all [Interpreter.endingOf]
      obtain ⟨x, k, o, hfault, hunsure⟩ := hsafe.2.found trivial fault rfl
      have hmiss : ∃ q ∈ programs (Es ++ [E]), ∃ r, q.DeclaresBare r x := by
        by_contra hno
        push Not at hno
        exact hunsure fun q hq r _ => hno q hq r
      obtain ⟨q, hq, r, hdecl⟩ := hmiss
      obtain ⟨F, hF, rfl⟩ := List.mem_map.1 hq
      exact ⟨x, k, Fault.scope.inj hfault, F, hF, r, hdecl⟩

end

/-! ### A branch that is not taken -/

/-- A block with a variable `b`, and a variable `a` that is declared in a branch which is not taken;
then both are read. -/
def Program.skippedBranch : Program :=
  [.block 0
    [.varDecl 1 ⟨.identifier, "b", .nil, 1⟩ (some (.literal 2 (.string "b"))),
     .branch 3 (.literal 4 (.bool false)) (.varDecl 5 ⟨.identifier, "a", .nil, 2⟩ none) none,
     .print 6 (.var ⟨7, ⟨.identifier, "b", .nil, 3⟩⟩),
     .print 8 (.var ⟨9, ⟨.identifier, "a", .nil, 4⟩⟩)]]

/-- The block, as the first program of an interpreter. -/
def Episode.skippedBranch : Episode where
  interpreter := {
    config := { natives := [], maxCallDepth_pos := Config.defaultDepth_pos }
    globals := ⟨0⟩
    store := (({} : Store).newScope {}).2
    scope := ⟨0⟩ }
  program := .skippedBranch
  fuel := 9

/-- The read of `b` finds its binding; that of `a` ends the run, and the branch is what it misses. -/
theorem Episode.skippedBranch_reads :
    History {} { natives := [] } [] skippedBranch.interpreter ∧
      DistinctNodes (programs [skippedBranch]) ∧
      (∀ p ∈ programs [skippedBranch], p.resolve.hasErrors = false) ∧
      (∀ p ∈ programs [skippedBranch], p.WellNamed) ∧
      (∃ s, skippedBranch.Visits 7 (.expr (.var ⟨7, ⟨.identifier, "b", .nil, 3⟩⟩)) s ∧
        ∃ e, s.store.ancestor? 0 s.scope = some e ∧ s.store.binds e "b") ∧
      ∃ report i, skippedBranch.result? = some (report, i) ∧
        report.ending = .crashed (.scope (.unbound "a" 0)) ∧
        ∃ r, Program.skippedBranch.DeclaresBare r "a" := by
  have hh : History {} { natives := [] } [] skippedBranch.interpreter := .create rfl
  have hd : DistinctNodes (programs [skippedBranch]) := .of_within 4 (by decide) (by decide)
  have he : ∀ p ∈ programs [skippedBranch], p.resolve.hasErrors = false := by
    intro p hp
    obtain rfl := List.mem_singleton.1 hp
    decide
  have hw : ∀ p ∈ programs [skippedBranch], p.WellNamed := by
    intro p hp
    obtain rfl := List.mem_singleton.1 hp
    exact .of_within 4 (by decide) (by decide)
  have hv : ∃ s, skippedBranch.Visits 7 (.expr (.var ⟨7, ⟨.identifier, "b", .nil, 3⟩⟩)) s := by
    refine ⟨?s, .mk (i := 0) (by decide) (by rfl) (by rfl) ?h⟩
    case h =>
      refine .step (.block (i := 2) (by rfl) (by rfl) rfl) ?_
      refine .step .print ?_
      exact .here
  have hr : ∃ report i, skippedBranch.result? = some (report, i) ∧
      report.ending = .crashed (.scope (.unbound "a" 0)) := by
    have hreport : skippedBranch.result?.map (·.1.ending) =
        some (.crashed (.scope (.unbound "a" 0))) := by decide +kernel
    obtain ⟨⟨report, i⟩, hr, hcrash⟩ := Option.map_eq_some_iff.1 hreport
    exact ⟨report, i, hr, hcrash⟩
  obtain ⟨hreads, hends⟩ := reads_find_bindings hh hd he
  refine ⟨hh, hd, he, hw, ?_, ?_⟩
  · obtain ⟨s, hv⟩ := hv
    obtain ⟨F, hF, a, r, e, -, -, he, hb⟩ := hreads _ _ s "b" 7 0 hv rfl rfl (by decide) trivial
    obtain rfl := List.mem_singleton.1 hF
    refine ⟨s, hv, e, he, hb.resolve_right ?_⟩
    -- no branch of the program declares `b`
    rintro ⟨b, t, i, c, ht, hbranches, hc, hx, -⟩
    have hall : ∀ at? ∈ (Part.program skippedBranch.program).within 4, at?.2.branches →
        ∀ c ∈ at?.2.children, c.declares? ≠ some "b" := by decide
    exact hall (b, t) (Part.mem_within (by decide) ht) hbranches c (List.mem_of_getElem? hc) hx
  · obtain ⟨report, i, hr, hcrash⟩ := hr
    obtain ⟨x, d, hfault, F, hF, r, hdecl⟩ := hends hw report i _ hr hcrash
    obtain rfl := List.mem_singleton.1 hF
    cases hfault
    exact ⟨report, i, hr, hcrash, r, hdecl⟩

/-- So a program that breaks no static rule can end by a scope that does not bind a name. -/
theorem Program.skippedBranch_crashes :
    ¬ ∀ registry config (E : Episode) report i fault, History registry config [] E.interpreter →
      DistinctNodes [E.program] → E.program.WellNamed → E.program.resolve.hasErrors = false →
      E.result? = some (report, i) → report.ending ≠ .crashed (.scope fault) := by
  intro h
  have hreport : Episode.skippedBranch.result?.map (·.1.ending) =
      some (.crashed (.scope (.unbound "a" 0))) := by decide +kernel
  obtain ⟨⟨report, i⟩, hr, hcrash⟩ := Option.map_eq_some_iff.1 hreport
  exact h {} { natives := [] } .skippedBranch report i (.unbound "a" 0) (.create rfl)
    (.of_within 4 (by decide) (by decide)) (.of_within 4 (by decide) (by decide)) (by decide) hr hcrash

end Lox
