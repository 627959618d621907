import Lox.Proofs.Check
import Lox.Proofs.Run.History

/-!
# The chain of scopes at run time is the stack of scopes of the resolver

Whatever programs an interpreter is given, broken ones included, wherever a node is evaluated or
executed, the scopes from the current one outwards are, one by one, activations of the regions around
the node, and the globals come right after.  So no distance the resolver records leads to the globals
or past them, and what a run adds to the globals are declarations that no region is around.
-/

namespace Lox

/-- Following the links from a scope one meets the listed scopes, and then the last one. -/
inductive Store.Path (st : Store) : ScopeId → List ScopeId → ScopeId → Prop
  | nil (g : ScopeId) : Path st g [] g
  | cons {e e' g : ScopeId} {es : List ScopeId} (he : st.enclosing? e = some e')
      (h : Path st e' es g) : Path st e (e :: es) g

/-- A scope was made in one of the episodes for what opens a region. -/
def Activates (Es : List Episode) (e : ScopeId) (r : Region) : Prop :=
  ∃ F ∈ Es, ∃ w, F.Opened e w ∧ r.opener.OpenedBy w

theorem Store.Path.ancestor? {st : Store} {e g e' : ScopeId} {es : List ScopeId}
    (h : st.Path e es g) {d : Nat} (hd : es[d]? = some e') : st.ancestor? d e = some e' := by
  induction h generalizing d with
  | nil => cases hd
  | cons he _ ih =>
    cases d with
    | zero =>
      cases hd
      rfl
    | succ d =>
      rw [Store.ancestor?, he]
      exact ih hd

variable {S : Setting} {N : String → Prop} {st : Store}

/-- The scopes that mirror a nesting, one for each frame. -/
theorem Mirrors.exists_path : ∀ {Γ : Nesting} {e : ScopeId}, Mirrors S N st Γ e →
    ∃ es, st.Path e es S.context.globals ∧
      List.Forall₂ (fun e f => Activation S N st f e) es Γ
  | [], _, rfl => ⟨[], .nil _, .nil⟩
  | _ :: _, e, ⟨ha, _, he, h⟩ => by
    obtain ⟨es, hp, hes⟩ := h.exists_path
    exact ⟨e :: es, .cons he hp, .cons ha hes⟩

/-- A distance that is recorded for a node stays within its nesting. -/
theorem Part.lt_of_entry? {t : Part} {Γ : Nesting} {d : Nat} (h : t.entry? Γ = some d) :
    d < Γ.length := by
  obtain ⟨x, hx⟩ : ∃ x, Γ.distance? x = some d := by
    unfold entry? at h
    split at h
    · split at h
      · cases h
      · exact ⟨_, h⟩
    · obtain ⟨x, -, hx⟩ := Option.bind_eq_some_iff.1 h
      exact ⟨x, hx⟩
  obtain ⟨f, hf, -⟩ := Nesting.distance?_eq_some hx
  exact (List.getElem?_eq_some_iff.1 hf).1

section

variable {registry : NativeRegistry} {config : Config} {Es : List Episode} {E : Episode}

/-- The scopes that stand for the frames are activations of the regions opened by the same. -/
theorem Episode.activates_of_openers {hf : Fits False (Es ++ [E])} {ht} {Γ : Nesting} {chain : List ScopeId}
    {regions : List Region} {st : Store}
    (h : List.Forall₂ (fun e f => Activation (E.setting Es False hf ht) N st f e) chain Γ)
    (ho : Γ.map (·.opener) = regions.map (·.opener)) :
    List.Forall₂ (fun e region => e ≠ E.interpreter.globals ∧ Activates (Es ++ [E]) e region) chain
      regions := by
  have hopeners : List.Forall₂ (fun e o => e ≠ E.interpreter.globals ∧
      ∃ F ∈ Es ++ [E], ∃ w, F.Opened e w ∧ o.OpenedBy w) chain (Γ.map (·.opener)) := by
    rw [List.forall₂_map_right_iff]
    refine h.imp fun e f ha => ⟨ha.ne_globals, ?_⟩
    obtain ⟨w, ⟨F, hF, hw⟩, hfw⟩ := ha.opened
    exact ⟨F, hF, w, hw, hfw⟩
  rw [ho, List.forall₂_map_right_iff] at hopeners
  exact hopeners

/-- The run of any program, after any others: the scopes at every node it comes to are activations of
the regions around the node, as many as the resolver had open there; a recorded distance leads to one
of them; and the globals gain no names but those of declarations that belong to no region. -/
theorem Episode.scopes_mirror_regions (h : History registry config Es E.interpreter)
    (hd : DistinctNodes (programs (Es ++ [E]))) :
    (∀ m t s, E.Visits m t s →
      (∃ F ∈ Es ++ [E], ∃ a r chain, F.program.part? a = some t ∧
        F.program.resolver? a = some r ∧ s.store.Path s.scope chain E.interpreter.globals ∧
        chain.length = r.scopes.length ∧
        List.Forall₂ (fun e region => e ≠ E.interpreter.globals ∧ Activates (Es ++ [E]) e region)
          chain (F.program.regions a) ∧
        ∀ id d, t.id? = some id → E.context.table[id]? = some d →
          ∃ e ∈ chain, s.store.ancestor? d s.scope = some e) ∧
      ∀ x, s.store.binds E.interpreter.globals x →
        E.interpreter.store.binds E.interpreter.globals x ∨ E.program.DeclaresGlobal x) ∧
    ∀ report i, E.result? = some (report, i) →
      (∀ d, report.ending ≠ .crashed (.scope (.walksPast d))) ∧
        ∀ x, i.store.binds E.interpreter.globals x →
          E.interpreter.store.binds E.interpreter.globals x ∨ E.program.DeclaresGlobal x := by
  have hf : Fits False (Es ++ [E]) := ⟨hd, fun hc => hc.elim⟩
  have hs := h.storeOk E rfl hf h.isTableOf_context
  refine ⟨fun m t s hv => ?_, fun report i hr => ?_⟩
  · obtain ⟨Γ, hat⟩ := at_of_visits hs h.scope hv
    refine ⟨?_, hat.store.global⟩
    obtain ⟨F, hF, a, ha, -, -⟩ := hat.known
    obtain ⟨r, hr, hscopes⟩ := Program.resolver?_at ha
    obtain ⟨chain, hpath, hchain⟩ := hat.mirrors.exists_path
    refine ⟨F, hF, a, r, chain, Program.part?_of_place? ha, hr, hpath, ?_, ?_, ?_⟩
    · rw [hchain.length_eq, hscopes.length_eq]
    · exact activates_of_openers hchain (Program.agrees_of_place? ha).openers
    · intro id d hid hdist
      have he : t.entry? Γ = some d := ((Setting.table_eq _ hat.known hid).symm.trans hdist)
      have hlt : d < chain.length := hchain.length_eq ▸ t.lt_of_entry? he
      exact ⟨chain[d], List.getElem_mem hlt, hpath.ancestor? (List.getElem?_eq_getElem hlt)⟩
  · cases ended_of_result? hr with
    | refused => exact ⟨fun _ => nofun, fun x hx => .inl hx⟩
    | completed hfits hrun =>
      obtain ⟨hl, -⟩ := (run_safe hs h.scope hfits).of_ok hrun
      exact ⟨fun _ => nofun, hl.store.global⟩
    | @raised fault s hfits hrun =>
      have hsafe := run_safe hs h.scope hfits
      rw [hrun] at hsafe
      refine ⟨fun d hc => hsafe.2.short d ?_, hsafe.1.store.global⟩
      cases fault with
      | error e => cases hc
      | _ => exact Ending.crashed.inj hc

end

/-- A block with a function that prints what it is given, and a call of it. -/
def Program.callInBlock : Program :=
  [.block 0
    [.function ⟨1, ⟨.identifier, "f", .nil, 1⟩, [⟨.identifier, "x", .nil, 1⟩],
      [.print 2 (.var ⟨3, ⟨.identifier, "x", .nil, 1⟩⟩)]⟩,
     .expression 4 (.call 5 (.var ⟨6, ⟨.identifier, "f", .nil, 2⟩⟩) ⟨.rightParen, ")", .nil, 2⟩
      [.literal 7 .nil])]]

/-- The block with the call, as the first program of an interpreter. -/
def Episode.callInBlock : Episode where
  interpreter := {
    config := { natives := [], maxCallDepth_pos := Config.defaultDepth_pos }
    globals := ⟨0⟩
    store := (({} : Store).newScope {}).2
    scope := ⟨0⟩ }
  program := .callInBlock
  fuel := 9

/-- The parameter is read two scopes away from the globals: in that of the call, around which is that
of the block. -/
theorem Episode.callInBlock_scopes :
    History {} { natives := [] } [] callInBlock.interpreter ∧
      DistinctNodes (programs [callInBlock]) ∧
      ∃ s, callInBlock.Visits 5 (.expr (.var ⟨3, ⟨.identifier, "x", .nil, 1⟩⟩)) s ∧
        ∃ call block, s.store.Path s.scope [call, block] callInBlock.interpreter.globals ∧
          Activates [callInBlock] call ⟨[0, 0], .function 1⟩ ∧
          Activates [callInBlock] block ⟨[0], .block 0⟩ := by
  have hh : History {} { natives := [] } [] callInBlock.interpreter := .create rfl
  have hd : DistinctNodes (programs [callInBlock]) := .of_within 6 (by decide) (by decide)
  have hv : ∃ s, callInBlock.Visits 5 (.expr (.var ⟨3, ⟨.identifier, "x", .nil, 1⟩⟩)) s := by
    refine ⟨?s, .mk (i := 0) (by decide) (by rfl) (by rfl) ?h⟩
    case h =>
      refine .step (.block (i := 1) (by rfl) (by rfl) rfl) ?_
      refine .step .expression ?_
      refine .step (.body (i := 0) (.mk (by rfl) (by rfl) (by rfl) (by rfl) (by decide))
        (.function (by rfl)) (by rfl) (by rfl)) ?_
      refine .step .print ?_
      exact .here
  obtain ⟨s, hv⟩ := hv
  refine ⟨hh, hd, s, hv, ?_⟩
  obtain ⟨F, hF, a, r, chain, ha, -, hpath, -, hact, -⟩ :=
    ((scopes_mirror_regions hh hd).1 _ _ _ hv).1
  obtain rfl := List.mem_singleton.1 hF
  -- the node stands at one address only
  obtain ⟨-, rfl, -⟩ := hd.part_unique List.mem_cons_self List.mem_cons_self
    (show Program.callInBlock.part? [0, 0, 0, 0] = some _ from rfl) ha rfl rfl
  have hregions : callInBlock.program.regions [0, 0, 0, 0] =
      [⟨[0, 0], .function 1⟩, ⟨[0], .block 0⟩] := rfl
  rw [hregions] at hact
  cases hact with
  | @cons call _ _ _ hcall hact =>
    cases hact with
    | @cons block _ _ _ hblock hact =>
      cases hact
      exact ⟨call, block, hpath, hcall.2, hblock.2⟩

end Lox
