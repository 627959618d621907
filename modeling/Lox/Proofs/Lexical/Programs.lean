import Lox.Proofs.Check
import Lox.Proofs.Lexical.Simulation
import Lox.Proofs.Run.History

/-!
# Programs, run in the scopes and in the maps

A program that breaks no static rule is run in a new interpreter with the table of the resolver, and
from new globals in the textbook semantics.  Both runs end in the same way, print the same lines and
leave the same globals and objects.  They use up the same fuel, so neither ends without the other.
-/

namespace Lox.Lexical

/-! ### New globals -/

/-- The store of a new interpreter: the globals, and the natives bound in them. -/
def newStore (natives : Array NativeFunction) (globals : Bindings) : Store where
  scopes := #[{ values := globals }]
  natives := natives

/-- The state with the same natives and globals. -/
def newState (natives : Array NativeFunction) (globals : Bindings) : State where
  objects := { natives }
  globals := globals

/-- Natives are installed alike, or the same name is not registered. -/
theorem install_eq (registry : NativeRegistry) (names : List String) :
    ∀ (natives : Array NativeFunction) (globals : Bindings),
      (∃ name st, registry.install ⟨0⟩ names (newStore natives globals) = (some name, st) ∧
        install registry names (newState natives globals) = .error name) ∨
      ∃ natives' globals',
        registry.install ⟨0⟩ names (newStore natives globals) = (none, newStore natives' globals') ∧
        install registry names (newState natives globals) = .ok (newState natives' globals') := by
  induction names with
  | nil => exact fun natives globals => .inr ⟨natives, globals, rfl, rfl⟩
  | cons name rest ih =>
    intro natives globals
    cases hn : registry.get? name with
    | none =>
      refine .inl ⟨name, newStore natives globals, ?_, ?_⟩
      · rw [NativeRegistry.install, hn]
      · rw [install, hn]
    | some n =>
      have hstore : ((newStore natives globals).newNative n).2.define ⟨0⟩ name (.native ⟨natives.size⟩) =
          newStore (natives.push n) (globals.insert name (.native ⟨natives.size⟩)) := rfl
      rw [NativeRegistry.install, hn, install, hn]
      show (∃ x st, registry.install ⟨0⟩ rest (((newStore natives globals).newNative n).2.define ⟨0⟩ name
        (.native ⟨natives.size⟩)) = (some x, st) ∧ _) ∨ _
      rw [hstore]
      exact ih (natives.push n) (globals.insert name (.native ⟨natives.size⟩))

theorem newState_simulates {S : Setting} (hg : S.context.globals = ⟨0⟩)
    (natives : Array NativeFunction) (globals : Bindings) :
    Simulates S (fun _ _ => none) { store := newStore natives globals, scope := ⟨0⟩ }
      (newState natives globals) where
  objects := ⟨fun _ => .none, rfl, rfl, rfl, rfl⟩
  vars := by
    refine ⟨by rw [hg]; rfl, nofun, nofun, nofun, fun e x he hb => ?_⟩
    obtain ⟨v, hv⟩ := Option.isSome_iff_exists.1 hb
    have hlt : e.index < 1 := Store.lt_of_read? hv
    have hzero : e = ⟨0⟩ := congrArg ScopeId.mk (by omega)
    exact absurd (hzero.trans hg.symm) he
  depth := rfl
  printed := rfl

/-- If there is a new interpreter then there is a new state, and the two correspond. -/
theorem exists_new {registry : NativeRegistry} {config : Config} {i : Interpreter}
    (hi : Interpreter.create registry config = .ok i) :
    ∃ l, install registry config.natives {} = .ok l ∧
      ∀ S : Setting, S.context.globals = i.globals → Simulates S (fun _ _ => none) i.start l := by
  obtain ⟨st, hst, rfl⟩ := Interpreter.create_eq hi
  rcases install_eq registry config.natives #[] ∅ with
    ⟨name, st', hst', -⟩ | ⟨natives, globals, hst', hl⟩
  · cases hst.symm.trans hst'
  · obtain rfl : st = newStore natives globals := congrArg Prod.snd (hst.symm.trans hst')
    exact ⟨_, hl, fun S hg => newState_simulates hg natives globals⟩

/-! ### The statements of a program -/

/-- At the top level there are no local names. -/
theorem Simulates.top {S : Setting} {μ : Links} {s : RunState} {l : State} (h : Simulates S μ s l)
    (hs : s.scope = S.context.globals) : SameScope μ s.store [] s.scope .top := by
  refine ⟨.nil, fun x hx => ?_⟩
  obtain ⟨ℓ, hl⟩ := Option.isSome_iff_exists.1 hx
  exact absurd hs (h.vars.locals _ _ _ hl).1

/-- Statements at the top level, all of them. -/
theorem throughout_matches {S : Setting} {n : Nat} (hc : S.strict) : ∀ (ss : List Stmt)
    {s : RunState} {μ : Links} {l : State}, StoreOk S s.store → s.scope = S.context.globals →
    (∀ st ∈ ss, S.known [] (.stmt st)) →
    (∀ (i : Nat) st s', ss[i]? = some st →
      Action.throughout (Lox.execute S.context n) (ss.take i) s = .ok () s' →
      OpensOk S n (.stmt st) s') →
    Simulates S μ s l →
    Matches S μ (fun _ _ _ _ _ => True) (Action.throughout (Lox.execute S.context n) ss s)
      (Action.throughout (fun st => return (← execute S.context.maxDepth n .top st).1) ss l)
  | [], _, _, _, _, _, _, _, hsim => .ok hsim trivial
  | st :: ss, s, μ, l, hs, hscope, hknown, hopens, hsim => by
    obtain ⟨hst, hknown⟩ := List.forall_mem_cons.1 hknown
    have hat : At S [] (.stmt st) s := ⟨hst, hscope, hs⟩
    have ho := hopens 0 st s rfl rfl
    have hfirst := ((follows hc n).stmt hat ho hsim (hsim.top hscope)).map_right
      (k := fun r => r.1) (R := fun _ _ _ _ _ => True) fun _ _ _ _ _ _ _ _ => trivial
    refine hfirst.bind fun μ₁ c c' s₁ l₁ hrun _ hsim₁ _ => ?_
    obtain ⟨hl₁, -⟩ := ((sound n).stmt hat ho).of_ok hrun
    refine throughout_matches hc ss hl₁.store (hl₁.scope.trans hscope) hknown
      (fun i st' s' hi hb => hopens (i + 1) st' s' hi ?_) hsim₁
    rw [List.take_succ_cons, Action.throughout, Action.bind_of_ok hrun]
    exact hb

/-! ### Whole programs -/

/-- Both runs have ended alike: they give the same report, and leave the same globals and objects.
Functions are the same if they were declared by the same node. -/
structure SameEnd (x : Report × Interpreter) (y : Report × State) : Prop where
  report : y.1 = x.1
  globals : (x.2.store.scope? x.2.globals).map (·.values) = some y.2.globals
  functions : ∀ id, (y.2.objects.function? id).map (fun f => (f.declaration, f.isInitializer)) =
    (x.2.store.function? id).map fun f => (f.declaration, f.isInitializer)
  natives : y.2.objects.natives = x.2.store.natives
  classes : y.2.objects.classes = x.2.store.classes
  instances : y.2.objects.instances = x.2.store.instances

theorem Simulates.sameEnd {S : Setting} {μ : Links} {s : RunState} {l : State}
    (h : Simulates S μ s l) {i : Interpreter} (hg : i.globals = S.context.globals) (ending : Ending) :
    SameEnd (⟨ending, s.printed.toList⟩, (i.resume s).atRest) (⟨ending, l.printed.toList⟩, l) where
  report := by rw [h.printed]
  globals := by
    show (s.store.scope? i.globals).map _ = _
    rw [hg, h.vars.globals]
  functions id := by
    show (l.objects.function? id).map _ = (s.store.function? id).map _
    rcases SameObjects.rel_cases (h.objects.functions id) with ⟨hx, hy⟩ | ⟨f, f', hx, hy, hf⟩
    · rw [hx, hy]
    · rw [hx, hy]
      simp only [Option.map_some, hf.declaration, hf.isInitializer]
  natives := h.objects.natives
  classes := h.objects.classes
  instances := h.objects.instances

end Lox.Lexical

namespace Lox

/-- Two runs that match end alike, or both use up their fuel. -/
theorem Lexical.Matches.sameEnd {S : Setting} {μ : Lexical.Links} {i : Interpreter}
    (hg : i.globals = S.context.globals) (x : Outcome RunState Unit) (y : Outcome Lexical.State Unit) :
    Lexical.Matches S μ (fun _ _ _ _ _ => True) x y → Option.Rel Lexical.SameEnd
      (match x with
      | .ok _ s => some (⟨.completed, s.printed.toList⟩, (i.resume s).atRest)
      | .raised fault s => some (⟨Interpreter.endingOf fault, s.printed.toList⟩, (i.resume s).atRest)
      | .outOfFuel => none)
      (match y with
      | .ok _ l => some (⟨.completed, l.printed.toList⟩, l)
      | .raised fault l => some (⟨Interpreter.endingOf fault, l.printed.toList⟩, l)
      | .outOfFuel => none) := by
  intro h
  cases x with
  | ok _ s =>
    cases y with
    | ok _ l =>
      obtain ⟨μ', -, hsim, -⟩ := h
      exact .some (hsim.sameEnd hg _)
    | _ => exact h.elim
  | raised fault s =>
    cases y with
    | raised fault' l =>
      obtain ⟨rfl, μ', hsim⟩ := h
      exact .some (hsim.sameEnd hg _)
    | _ => exact h.elim
  | outOfFuel =>
    cases y with
    | outOfFuel => exact .none
    | _ => exact h.elim

/-- A variable `a` among the globals, and a block with a function that prints it, which is called
before and after the block has an `a` of its own. -/
def Program.lateShadow : Program :=
  [.varDecl 0 ⟨.identifier, "a", .nil, 1⟩ (some (.literal 1 (.string "global"))),
   .block 2
    [.function ⟨3, ⟨.identifier, "show", .nil, 1⟩, [],
      [.print 4 (.var ⟨5, ⟨.identifier, "a", .nil, 1⟩⟩)]⟩,
     .expression 6 (.call 7 (.var ⟨8, ⟨.identifier, "show", .nil, 2⟩⟩) ⟨.rightParen, ")", .nil, 2⟩ []),
     .varDecl 9 ⟨.identifier, "a", .nil, 3⟩ (some (.literal 10 (.string "block"))),
     .expression 11 (.call 12 (.var ⟨13, ⟨.identifier, "show", .nil, 4⟩⟩) ⟨.rightParen, ")", .nil, 4⟩
      [])]]

end Lox
