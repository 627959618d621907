import Mathlib.Logic.Equiv.Basic
import Lox.Proofs.Renaming.Simulation
import Lox.Proofs.Run.Results

/-!
# Renaming changes nothing

Only `this`, `super`, `init` and the names of the natives are special.  A program whose other names are
changed, different ones into different ones, is resolved to the same table with the same complaints, and what
it does in a new session is the same: it succeeds, fails or crashes alike, in the same lines and for the same
reasons, and prints the same lines, except that functions, classes and instances are shown under their new
names (`RunResult.Renamed`).
-/

namespace Lox

variable {ρ : Renaming} {P : Nat → Store → Value → Prop}

/-! ### Results -/

/-- The fault of a program that crashed. -/
def RunResult.crash? : RunResult → Option Fault
  | crashed _ fault => some fault
  | _ => none

/-- The same result under other names. -/
structure RunResult.Renamed (ρ : Renaming) (P : Nat → Store → Value → Prop) (r r' : RunResult) :
    Prop where
  success : r'.success = r.success
  hasStaticErrors : r'.hasStaticErrors = r.hasStaticErrors
  hasRuntimeError : r'.hasRuntimeError = r.hasRuntimeError
  diagnostics : r'.diagnostics.map (·.place) = r.diagnostics.map (·.place)
  crash : Option.Rel (Fault.Renamed ρ) r.crash? r'.crash?
  output : ShowAlike ρ P r.output r'.output

namespace RunResult.Renamed

theorem succeeded {lines lines' : List String} (h : ShowAlike ρ P lines lines') :
    RunResult.Renamed ρ P (.succeeded lines) (.succeeded lines') :=
  ⟨rfl, rfl, rfl, rfl, .none, h⟩

theorem failed {lines lines' : List String} (h : ShowAlike ρ P lines lines') {e e' : RuntimeError}
    (hcause : e'.cause = e.cause) (hline : e'.token.line = e.token.line) :
    RunResult.Renamed ρ P (.failed lines e) (.failed lines' e') := by
  refine ⟨rfl, rfl, rfl, ?_, .none, h⟩
  show [(e'.cause.code, e'.token.line)] = [(e.cause.code, e.token.line)]
  rw [hcause, hline]

theorem crashed {lines lines' : List String} (h : ShowAlike ρ P lines lines') {fault fault' : Fault}
    (hfault : fault.Renamed ρ fault') :
    RunResult.Renamed ρ P (.crashed lines fault) (.crashed lines' fault') :=
  ⟨rfl, rfl, rfl, rfl, .some hfault, h⟩

/-- A run that ends by a fault. -/
theorem ofFault {lines lines' : List String} (h : ShowAlike ρ P lines lines') {fault fault' : Fault}
    (hfault : fault.Renamed ρ fault') :
    RunResult.Renamed ρ P (.ofReport ⟨Interpreter.endingOf fault, lines⟩)
      (.ofReport ⟨Interpreter.endingOf fault', lines'⟩) := by
  cases hfault with
  | error hcause hline => exact failed h hcause hline
  | scope fault => exact crashed h (.scope fault)
  | same =>
    cases fault with
    | error e => exact failed h rfl rfl
    | _ => exact crashed h (.same _)

end RunResult.Renamed

theorem ShowAlike.nil : ShowAlike ρ P [] [] := ⟨rfl, nofun⟩

/-- Runs that end alike are reported alike. -/
theorem Interpreter.conclude_renamed (i : Interpreter) {K : Unit → Prop} {o o' : Outcome RunState Unit}
    (h : Outcome.Renamed ρ P K o o') :
    Option.Rel (fun a b => RunResult.Renamed ρ P (.ofReport a.1) (.ofReport b.1)) (i.conclude o)
      (i.conclude o') := by
  cases h with
  | ok _ h => exact .some (.succeeded h.lines)
  | raised hfault h => exact .some (.ofFault h.lines hfault)
  | outOfFuel => exact .none

/-! ### New sessions -/

/-- In a new session only natives have names. -/
theorem Store.OnlyNatives.renamed {st : Store} (h : st.OnlyNatives)
    (hnames : ∀ e x, st.read? e (ρ x) = st.read? e x) : st.Renamed ρ st where
  scopesSize := rfl
  enclosing _ := rfl
  values := hnames
  valuesOrdinary e x v hv := by
    obtain ⟨id, rfl⟩ := h.values e x v hv
    exact nofun
  functionsSize := rfl
  functions id := by rw [h.functions id, Option.map_none]
  natives := rfl
  classesSize := rfl
  classes c := by
    rw [h.classes c]
    exact .none
  instancesSize := rfl
  classOf _ := rfl
  fields i x := by rw [h.fields, h.fields]
  fieldsOrdinary i x v hv := by
    rw [h.fields] at hv
    cases hv

section

variable {registry : NativeRegistry} {config : Config} {i : Interpreter}

/-- A renaming that leaves the natives alone changes nothing in a new interpreter. -/
theorem Interpreter.renamed_of_create (h : Interpreter.create registry config = .ok i)
    (hnatives : ∀ x ∈ config.natives, ρ x = x) : i.store.Renamed ρ i.store := by
  obtain ⟨st, hi, rfl⟩ := Interpreter.create_eq h
  refine (Store.onlyNatives_newScope.install hi).1.renamed fun e x => ?_
  by_cases hx : x ∈ config.natives
  · rw [hnatives x hx]
  · have hρ : ρ x ∉ config.natives := fun hmem => hx (ρ.injective (hnatives _ hmem) ▸ hmem)
    rw [Store.read?_install hρ hi, Store.read?_install hx hi, Store.read?_newScope_empty,
      Store.read?_newScope_empty]

/-- A program that breaks no rule and the renamed program end alike in a new interpreter. -/
theorem Interpretation.ending_renamed {I : Interpretation}
    (h : Interpreter.create registry config = .ok I.interpreter)
    (hnatives : ∀ x ∈ config.natives, ρ x = x) (hfits : I.interpreter.config.fitsStack = true)
    (hp : (Part.program I.program).All Part.Renamable) :
    Outcome.Renamed ρ I.Shows (fun _ => True) I.ending
      (Action.throughout (execute I.context I.fuel) (I.program.rename ρ) I.ready.start) := by
  have hkind : ∀ m t s, I.Visits m t s → t.Renamable := fun m t s hv =>
    ((preserved_bodies fun f hf => ⟨trivial, nofun⟩).visits hp
      (Interpreter.functions_of_create h _) hv).1.self
  have hstore : I.interpreter.store.Renamed ρ I.interpreter.store :=
    Interpreter.renamed_of_create h hnatives
  rw [Program.rename, Stmt.renameAll_eq_map]
  exact .throughout ⟨hstore, rfl, rfl, .nil⟩ fun k st t t' hk hb ht =>
    (runs_renamed hkind I.fuel).stmt st t t' (.mk hfits hb hk .here) ht

/-- So they are reported alike. -/
theorem Interpreter.interpret_renamed {p : Program} (h : Interpreter.create registry config = .ok i)
    (hnatives : ∀ x ∈ config.natives, ρ x = x) (hp : (Part.program p).All Part.Renamable)
    (table : Resolution) (fuel : Nat) :
    Option.Rel (fun a b => RunResult.Renamed ρ (Interpretation.Shows ⟨i, p, table, fuel⟩)
        (.ofReport a.1) (.ofReport b.1))
      (i.interpret fuel p table) (i.interpret fuel (p.rename ρ) table) := by
  cases hfits : i.config.fitsStack with
  | true =>
    rw [interpret_of_fits hfits, interpret_of_fits hfits]
    exact conclude_renamed _
      (Interpretation.ending_renamed (I := ⟨i, p, table, fuel⟩) h hnatives hfits hp)
  | false =>
    rw [interpret_of_not_fits hfits, interpret_of_not_fits hfits]
    exact .some (.crashed .nil (.same _))

end

namespace Session

variable {registry : NativeRegistry} {config : Config} {s : Session} {p : Program}

/-- A program that breaks a rule is rejected under any names. -/
theorem run_rename_of_errors (hp : (Part.program p).All Part.PlainKeyword) (fuel : Nat)
    (he : p.resolve.hasErrors = true) :
    Option.Rel (fun a b => RunResult.Renamed ρ P a.1 b.1) (s.run fuel p) (s.run fuel (p.rename ρ)) := by
  unfold run
  dsimp only
  rw [Program.hasErrors_rename hp, if_pos he, if_pos he]
  exact .some ⟨rfl, rfl, rfl, Program.diagnostics_rename hp, .none, .nil⟩

/-- A program that breaks no rule runs alike under any names. -/
theorem run_rename_of_resolved (hs : Session.create registry config = .ok s)
    (hnatives : ∀ x ∈ config.natives, ρ x = x) (hp : (Part.program p).All Part.PlainKeyword)
    (fuel : Nat) (he : p.resolve.hasErrors = false) :
    Option.Rel (fun a b => RunResult.Renamed ρ (s.interpretation p fuel).Shows a.1 b.1) (s.run fuel p)
      (s.run fuel (p.rename ρ)) := by
  obtain ⟨i, hi, rfl⟩ := create_eq hs
  have hrun := Interpreter.interpret_renamed hi hnatives (Program.renamable he hp) p.resolve.table fuel
  rw [run_of_resolved he, run_of_resolved (by rwa [Program.hasErrors_rename hp]),
    (Program.resolve_renamed hp).table]
  dsimp only [interpretation]
  revert hrun
  generalize i.interpret fuel p p.resolve.table = x
  generalize i.interpret fuel (p.rename ρ) p.resolve.table = y
  rintro (hr | _)
  · exact .some hr
  · exact .none

/-- Renaming changes nothing but the names that are shown: a program and the renamed program have the same
table, and diagnostics with the same codes and lines; and in a new session they do the same with any fuel, if
the renaming leaves the natives alone. -/
theorem renaming_changes_nothing (hs : Session.create registry config = .ok s)
    (hnatives : ∀ x ∈ config.natives, ρ x = x) (hp : (Part.program p).All Part.PlainKeyword) :
    (p.rename ρ).resolve.table = p.resolve.table ∧
      (p.rename ρ).resolve.diagnostics.map (·.place) = p.resolve.diagnostics.map (·.place) ∧
      ∀ fuel, Option.Rel
        (fun a b => RunResult.Renamed ρ (s.interpretation p fuel).Shows a.1 b.1) (s.run fuel p)
        (s.run fuel (p.rename ρ)) := by
  refine ⟨(Program.resolve_renamed hp).table, Program.diagnostics_rename hp, fun fuel => ?_⟩
  cases he : p.resolve.hasErrors with
  | true => exact run_rename_of_errors hp fuel he
  | false => exact run_rename_of_resolved hs hnatives hp fuel he

end Session

/-! ### Two names that change places -/

/-- Two names change places, and all others are left alone. -/
def Renaming.exchange (x y : String) (hx : x ∉ ["this", "super", "init"])
    (hy : y ∉ ["this", "super", "init"]) : Renaming where
  map := Equiv.swap x y
  injective h := (Equiv.swap x y).injective h
  this := Equiv.swap_apply_of_ne_of_ne (fun h => hx (by rw [← h]; decide)) fun h =>
    hy (by rw [← h]; decide)
  super := Equiv.swap_apply_of_ne_of_ne (fun h => hx (by rw [← h]; decide)) fun h =>
    hy (by rw [← h]; decide)
  init := Equiv.swap_apply_of_ne_of_ne (fun h => hx (by rw [← h]; decide)) fun h =>
    hy (by rw [← h]; decide)

/-- A class `Cat` and a function `feed` exchange their names. -/
def Renaming.catForFeed : Renaming := .exchange "Cat" "feed" (by decide) (by decide)

/-- An instance of the class, the function and a string are printed, and then the string is called. -/
def Program.pets : Program :=
  [.classDecl 0 ⟨.identifier, "Cat", .nil, 1⟩ none [],
   .function ⟨1, ⟨.identifier, "feed", .nil, 2⟩, [], []⟩,
   .print 2 (.call 3 (.var ⟨4, ⟨.identifier, "Cat", .nil, 3⟩⟩) ⟨.rightParen, ")", .nil, 3⟩ []),
   .print 5 (.var ⟨6, ⟨.identifier, "feed", .nil, 4⟩⟩),
   .print 7 (.literal 8 (.string "Cat")),
   .expression 9 (.call 10 (.literal 11 (.string "Cat")) ⟨.rightParen, ")", .nil, 6⟩ [])]

/-- What the program comes to. -/
def RunResult.ofPets (lines : List String) : RunResult :=
  .failed lines ⟨.notCallable, ⟨.rightParen, ")", .nil, 6⟩⟩

/-- The instance and the function are shown under the new names, and the string is what it was. -/
theorem Session.catForFeed_changes_nothing :
    ∃ s t t', Session.create (.standard 0) {} = .ok s ∧
      (∀ x ∈ ({} : Config).natives, Renaming.catForFeed x = x) ∧
      (Part.program .pets).All Part.PlainKeyword ∧
      (Program.pets.rename .catForFeed).resolve.table = Program.pets.resolve.table ∧
      s.run 10 .pets = some (.ofPets ["Cat instance", "<fn feed>", "Cat"], t) ∧
      s.run 10 (Program.pets.rename .catForFeed) =
        some (.ofPets ["feed instance", "<fn Cat>", "Cat"], t') ∧
      RunResult.Renamed .catForFeed (s.interpretation .pets 10).Shows
        (.ofPets ["Cat instance", "<fn feed>", "Cat"])
        (.ofPets ["feed instance", "<fn Cat>", "Cat"]) := by
  have hnew : ∃ s, Session.create (.standard 0) {} = .ok s ∧
      (s.run 10 .pets).map (·.1) = some (.ofPets ["Cat instance", "<fn feed>", "Cat"]) ∧
      (s.run 10 (Program.pets.rename .catForFeed)).map (·.1) =
        some (.ofPets ["feed instance", "<fn Cat>", "Cat"]) :=
    ⟨_, rfl, by decide +kernel, by decide +kernel⟩
  obtain ⟨s, hcreate, hrun, hrun'⟩ := hnew
  obtain ⟨⟨r, t⟩, hrun, rfl⟩ := Option.map_eq_some_iff.1 hrun
  obtain ⟨⟨r', t'⟩, hrun', rfl⟩ := Option.map_eq_some_iff.1 hrun'
  have hnatives : ∀ x ∈ ({} : Config).natives, Renaming.catForFeed x = x := by decide
  have hp : (Part.program .pets).All Part.PlainKeyword := .of_within 5 (by decide) (by decide)
  obtain ⟨htable, -, hresults⟩ := Session.renaming_changes_nothing hcreate hnatives hp
  have hresult := hresults 10
  rw [hrun, hrun'] at hresult
  cases hresult with
  | some h => exact ⟨s, t, t', hcreate, hnatives, hp, htable, hrun, hrun', h⟩

end Lox
