import Lox.Interpreter
import Lox.Proofs.Scoping.Stack
import Lox.Proofs.Run.Reach

/-!
# Programs one after the other

An interpreter is given programs one after the other, each with the table the resolver makes for it
(`History`).  What a run may rely on (`Episode.setting`) grows from one program to the next: nodes of
earlier programs stay known inside of their functions, and scopes stay what they were made for.  So
the store is right when a run starts, whatever the runs before it did and however they ended
(`History.storeOk`).
-/

namespace Lox

/-- The limit on nested calls of a configuration that sets none is positive. -/
theorem Config.defaultDepth_pos : 0 < 256 := ({} : Config).maxCallDepth_pos

/-- A program that is given to an interpreter, with the fuel for its run. -/
structure Episode where
  interpreter : Interpreter
  program : Program
  fuel : Nat

namespace Episode

/-- The interpreter when the run starts: it knows the table of the program. -/
def ready (E : Episode) : Interpreter := E.interpreter.learn E.program.resolve.table

def context (E : Episode) : Context := E.ready.context

/-- How the run ends, and the interpreter after it. -/
def result? (E : Episode) : Option (Report × Interpreter) :=
  E.interpreter.interpret E.fuel E.program E.program.resolve.table

/-- During the run a node is evaluated or executed in a state, with so much fuel left. -/
inductive Visits (E : Episode) (m : Nat) (t : Part) (s : RunState) : Prop
  | mk {i : Nat} {st : Stmt} {s₁ : RunState} (hfits : E.interpreter.config.fitsStack = true)
      (hb : Action.throughout (execute E.context E.fuel) (E.program.take i) E.ready.start = .ok () s₁)
      (hi : E.program[i]? = some st) (hv : Lox.Visits E.context E.fuel (.stmt st) s₁ m t s)

/-- A scope that is made during the run. -/
def Opened (E : Episode) (e : ScopeId) (w : Opening) : Prop :=
  ∃ m t s, E.Visits (m + 1) t s ∧ Opens E.context m t s e w

end Episode

/-- Episodes one after the other, from a new interpreter on, and the interpreter after them. -/
inductive History (registry : NativeRegistry) (config : Config) : List Episode → Interpreter → Prop
  | create {i : Interpreter} (h : Interpreter.create registry config = .ok i) :
      History registry config [] i
  | interpret {Es : List Episode} {E : Episode} {report : Report} {i : Interpreter}
      (h : History registry config Es E.interpreter) (hr : E.result? = some (report, i)) :
      History registry config (Es ++ [E]) i

/-- The programs of some episodes. -/
def programs (Es : List Episode) : List Program := Es.map (·.program)

/-- A declaration that belongs to no region binds a global. -/
def Program.DeclaresGlobal (p : Program) (x : String) : Prop :=
  ∃ a t, p.part? a = some t ∧ t.declares? = some x ∧ p.regions a = []

/-! ### The table of several programs -/

/-- A table that has the entries of some programs. -/
structure IsTableOf (table : Resolution) (ps : List Program) : Prop where
  sound : ∀ (id : NodeId) d, table[id]? = some d → ∃ p ∈ ps, p.resolve.table[id]? = some d
  complete : ∀ p ∈ ps, ∀ (id : NodeId) d, p.resolve.table[id]? = some d → (table[id]?).isSome

theorem IsTableOf.union {table : Resolution} {ps : List Program} (h : IsTableOf table ps)
    (p : Program) : IsTableOf (table ∪ p.resolve.table) (ps ++ [p]) where
  sound id d hd := by
    rw [Std.ExtTreeMap.getElem?_union] at hd
    cases hp : p.resolve.table[id]? with
    | some d' =>
      rw [hp, Option.some_or] at hd
      exact ⟨p, by simp, by rw [hp, hd]⟩
    | none =>
      rw [hp, Option.none_or] at hd
      obtain ⟨q, hq, hd⟩ := h.sound id d hd
      exact ⟨q, by simp [hq], hd⟩
  complete q hq id d hd := by
    rw [Std.ExtTreeMap.getElem?_union]
    rcases List.mem_append.1 hq with hq | hq
    · have := h.complete q hq id d hd
      cases hp : p.resolve.table[id]? with
      | some d' => rfl
      | none => rwa [Option.none_or]
    · rw [List.mem_singleton] at hq
      rw [← hq, hd]
      rfl

/-- The entry of a node of one of the programs. -/
theorem IsTableOf.entry_eq {table : Resolution} {ps : List Program} (h : IsTableOf table ps)
    (hd : DistinctNodes ps) {p : Program} (hp : p ∈ ps) {a : Address} {P : Place} {id : NodeId}
    (ha : p.place? a = some P) (hid : P.part.id? = some id) : table[id]? = P.entry? := by
  have hone : ∀ q ∈ ps, ∀ d, q.resolve.table[id]? = some d → P.entry? = some d := by
    intro q hq d hqd
    obtain ⟨b, Q, hb, hQ, he⟩ := Program.exists_place_of_entry hqd
    obtain ⟨rfl, rfl, -⟩ := hd.part_unique hp hq (Program.part?_of_place? ha)
      (Program.part?_of_place? hb) hid hQ
    rw [ha] at hb
    cases hb
    exact he
  cases ht : table[id]? with
  | some d =>
    obtain ⟨q, hq, hqd⟩ := h.sound id d ht
    exact (hone q hq d hqd).symm
  | none =>
    cases he : P.entry? with
    | none => rfl
    | some d =>
      have hpd := Program.entry_eq (hd.mono (by simpa using hp)) ha hid
      rw [he] at hpd
      have := h.complete p hp id d hpd
      rw [ht] at this
      cases this

/-! ### What a run may rely on -/

namespace Setting

/-- What the setting `S` allows, the setting `S'` of a later run allows too, the globals apart. -/
structure Leads (S S' : Setting) : Prop where
  globals : S'.context.globals = S.context.globals
  declared : ∀ {Γ f}, S.declared Γ f → S'.declared Γ f
  opened : ∀ {e w}, S.opened e w → S'.opened e w
  sure : ∀ {o x}, S'.sure o x → S.sure o x
  clean : S'.clean → S.clean
  named : S'.named → S.named

variable {S S' : Setting} {st : Store} {Γ : Nesting}

theorem Leads.mirrors (h : S.Leads S') {N : String → Prop} :
    ∀ {Γ e}, Mirrors S N st Γ e → Mirrors S' N st Γ e
  | [], _, he => he.trans h.globals.symm
  | f :: Γ, e, ⟨ha, e', he, hm⟩ => by
    refine ⟨⟨h.globals ▸ ha.ne_globals, ?_, fun hc x hx => ha.bound (h.clean hc) x (h.sure hx),
      fun hn => ha.holds (h.named hn)⟩, e', he, h.mirrors hm⟩
    obtain ⟨w, hw, ho⟩ := ha.opened
    exact ⟨w, h.opened hw, ho⟩

theorem Leads.functionOk (h : S.Leads S') {f : FunctionObject} (hf : FunctionOk S st f Γ) :
    FunctionOk S' st f Γ :=
  ⟨h.declared hf.declared, h.mirrors hf.closure, hf.bound⟩

theorem Leads.methodOk (h : S.Leads S') {f : FunctionObject} {g : Frame}
    (hf : MethodOk S st f g Γ) : MethodOk S' st f g Γ :=
  ⟨h.declared hf.declared, hf.opener, hf.marks, h.mirrors hf.closure⟩

theorem Leads.valueOk (h : S.Leads S') {v : Value} (hv : ValueOk S st v) : ValueOk S' st v := by
  refine ⟨fun id he => ?_, hv.scope⟩
  obtain ⟨f, Γ, hf, hok⟩ := hv.function id he
  exact ⟨f, Γ, hf, h.functionOk hok⟩

/-- A store that is right for a run is right for a later one, which may bind the globals there are. -/
theorem Leads.storeOk (h : S.Leads S') (hs : StoreOk S st)
    (hg : ∀ x, (st.read? S.context.globals x).isSome → S'.global x) : StoreOk S' st where
  values e x v hv := h.valueOk (hs.values e x v hv)
  fields i x v hv := h.valueOk (hs.fields i x v hv)
  methods c cls x id hc hm := by
    obtain ⟨f, g, Γ, hf, hok⟩ := hs.methods c cls x id hc hm
    exact ⟨f, g, Γ, hf, h.methodOk hok⟩
  globals_lt := h.globals ▸ hs.globals_lt
  root := h.globals ▸ hs.root
  global x hx := hg x (h.globals ▸ hx)

end Setting

namespace Episode

variable (E : Episode) (earlier : List Episode) (clean : Prop)

/-- What has to hold of the programs of some episodes: no two nodes share an identity, and in a
clean setting all programs obey the discipline and break no static rule. -/
structure Fits (Es : List Episode) (discipline : Discipline := .strict) : Prop where
  distinct : DistinctNodes (programs Es)
  clean : clean → ∀ p ∈ programs Es, p.Obeys discipline ∧ p.resolve.hasErrors = false

/-- The node is one of the programs, at its nesting; outside of all scopes it belongs to the program
that is run. -/
def Known (Γ : Nesting) (t : Part) : Prop :=
  ∃ F ∈ earlier ++ [E], ∃ a, F.program.place? a = some ⟨Γ, t⟩ ∧ t.id?.isSome ∧
    (Γ = [] → F.program = E.program)

variable {E earlier clean}

theorem Known.child {Γ : Nesting} {t c : Part} {i : Nat} (h : E.Known earlier Γ t)
    (hc : t.children[i]? = some c) : E.Known earlier (Γ.enter t i) c := by
  obtain ⟨F, hF, a, ha, -, hE⟩ := h
  refine ⟨F, hF, a ++ [i], ?_, Part.id?_isSome_of_child hc, fun hn => hE ?_⟩
  · rw [Program.place?_concat ha, hc]
    rfl
  · have ho := Nesting.openers_enter Γ (List.getElem?_eq_some_iff.1 hc).1
    rw [hn] at ho
    have := (List.append_eq_nil_iff.1 ho.symm).2
    exact List.map_eq_nil_iff.1 this

variable (E earlier)

/-- The function or method is one of the programs, and its calls are nested so. -/
def Declared (Γ : Nesting) (f : FunctionDecl) : Prop :=
  ∃ F ∈ earlier ++ [E], ∃ a P, F.program.place? a = some P ∧
    (P.part = .stmt (.function f) ∧ Γ = P.nesting.declareReady f.name.lexeme ∨
      P.part = .method f ∧ Γ = P.nesting)

variable {E earlier}

theorem Known.declared_function {Γ : Nesting} {f : FunctionDecl}
    (h : E.Known earlier Γ (.stmt (.function f))) :
    E.Declared earlier (Γ.declareReady f.name.lexeme) f := by
  obtain ⟨F, hF, a, ha, -, -⟩ := h
  exact ⟨F, hF, a, _, ha, .inl ⟨rfl, rfl⟩⟩

theorem Known.declared_method {Γ : Nesting} {f : FunctionDecl}
    (h : E.Known earlier Γ (.method f)) : E.Declared earlier Γ f := by
  obtain ⟨F, hF, a, ha, -, -⟩ := h
  exact ⟨F, hF, a, _, ha, .inr ⟨rfl, rfl⟩⟩

theorem Declared.body {Γ : Nesting} {f : FunctionDecl} (h : E.Declared earlier Γ f) (i : Nat)
    (s : Stmt) (hs : f.body[i]? = some s) :
    E.Known earlier (Nesting.afterAll (Frame.ofCall f :: Γ) (f.body.take i)) (.stmt s) := by
  obtain ⟨F, hF, a, ⟨Δ, t⟩, ha, hΓ⟩ := h
  refine ⟨F, hF, a ++ [i], ?_, rfl, fun hn => absurd hn (Nesting.afterAll_cons_ne_nil _ _ _)⟩
  rw [Program.place?_concat ha]
  rcases hΓ with ⟨rfl, rfl⟩ | ⟨rfl, rfl⟩
  · show ((f.body.map Part.stmt)[i]?).map _ = _
    rw [getElem?_map_some hs]
    rfl
  · show ((f.body.map Part.stmt)[i]?).map _ = _
    rw [getElem?_map_some hs]
    rfl

/-- A function stands at one place only. -/
theorem Declared.unique {Γ Δ : Nesting} {f : FunctionDecl}
    (hd : DistinctNodes (programs (earlier ++ [E]))) (h : E.Declared earlier Γ f)
    (h' : E.Declared earlier Δ f) : Γ = Δ := by
  obtain ⟨F, hF, a, P, ha, hP⟩ := h
  obtain ⟨F', hF', b, Q, hb, hQ⟩ := h'
  have hid : ∀ {P : Place} {Θ : Nesting}, (P.part = .stmt (.function f) ∧
      Θ = P.nesting.declareReady f.name.lexeme ∨ P.part = .method f ∧ Θ = P.nesting) →
      P.part.id? = some f.id := by
    rintro P Θ (⟨hp, -⟩ | ⟨hp, -⟩) <;> rw [hp] <;> rfl
  obtain ⟨hprog, rfl, -⟩ := hd.part_unique (List.mem_map_of_mem hF) (List.mem_map_of_mem hF')
    (Program.part?_of_place? ha) (Program.part?_of_place? hb) (hid hP) (hid hQ)
  rw [hprog] at ha
  obtain rfl := Option.some.inj (ha.symm.trans hb)
  rcases hP with ⟨hp, rfl⟩ | ⟨hp, rfl⟩ <;> rcases hQ with ⟨hq, rfl⟩ | ⟨hq, rfl⟩
  · rfl
  · rw [hp] at hq
    cases hq
  · rw [hp] at hq
    cases hq
  · rfl

variable (E earlier clean) {discipline : Discipline}

/-- What the run of an episode may rely on, after earlier ones. -/
def setting (hf : Fits clean (earlier ++ [E]) discipline)
    (ht : IsTableOf E.context.table (programs (earlier ++ [E]))) : Setting where
  context := E.context
  known := E.Known earlier
  declared := E.Declared earlier
  opened e w := ∃ F ∈ earlier ++ [E], F.Opened e w
  global x := (E.interpreter.store.read? E.interpreter.globals x).isSome ∨
    E.program.DeclaresGlobal x
  sure o x := ∀ p ∈ programs (earlier ++ [E]), ∀ r, r.opener = o → ¬ p.DeclaresBare r x
  clean := clean
  named := discipline.ifNamed clean
  strict := discipline.ifStrict clean
  known_child := Known.child
  declared_function := Known.declared_function
  declared_method := Known.declared_method
  declared_body := Declared.body
  declared_unique := Declared.unique hf.distinct
  table_eq := by
    rintro Γ t id ⟨F, hF, a, ha, -, -⟩ hid
    exact ht.entry_eq hf.distinct (List.mem_map_of_mem hF) ha hid
  global_of_known := by
    rintro t x ⟨F, hF, a, ha, -, hE⟩ hx
    refine .inr ⟨a, t, hE rfl ▸ Program.part?_of_place? ha, hx, ?_⟩
    have hag := Program.agrees_of_place? ha
    rw [hE rfl] at hag
    exact List.forall₂_nil_left_iff.1 hag
  fit := by
    rintro hc Γ t ⟨F, hF, a, ha, hid, -⟩
    obtain ⟨hw, he⟩ := hf.clean hc F.program (List.mem_map_of_mem hF)
    refine Program.fit_of_place? (fun hn => ?_) he ha hid
    cases discipline with
    | strict => exact hw.wellNamed
    | named => exact hw
    | loose => exact hn.elim
  unsure := by
    rintro - Γ t c i x o ⟨F, hF, a, ha, -, -⟩ hb hc hx ho hsure
    rw [(Program.agrees_of_place? ha).openers, List.head?_map] at ho
    obtain ⟨r, hr, ho⟩ := Option.map_eq_some_iff.1 ho
    exact hsure F.program (List.mem_map_of_mem hF) r ho
      ⟨a, t, i, c, Program.part?_of_place? ha, hb, hc, hx, hr⟩
  sure_this := by
    intro hn o p hp r _
    cases discipline with
    | strict => exact (hf.clean hn p hp).1.wellNamed.not_declaresBare r (.inl rfl)
    | named => exact Program.WellNamed.not_declaresBare (hf.clean hn p hp).1 r (.inl rfl)
    | loose => exact hn.elim
  clean_of_named := by
    cases discipline with
    | strict => exact id
    | named => exact id
    | loose => exact False.elim
  named_of_strict := by
    cases discipline with
    | strict => exact id
    | named => exact False.elim
    | loose => exact False.elim
  sure_of_strict := by
    intro hc o x p hp r _
    cases discipline with
    | strict => exact Program.WellScoped.not_declaresBare (hf.clean hc p hp).1 r x
    | named => exact hc.elim
    | loose => exact hc.elim
  wellScoped := by
    rintro hc Γ t ⟨F, hF, a, ha, -, -⟩
    cases discipline with
    | strict => exact (hf.clean hc F.program (List.mem_map_of_mem hF)).1 a t (Program.part?_of_place? ha)
    | named => exact hc.elim
    | loose => exact hc.elim

variable {E earlier clean} {hf : Fits clean (earlier ++ [E]) discipline}
  {ht : IsTableOf E.context.table (programs (earlier ++ [E]))}

/-- The statements of the program are known outside of all scopes. -/
theorem known_top {i : Nat} {st : Stmt} (hi : E.program[i]? = some st) :
    E.Known earlier [] (.stmt st) := by
  refine ⟨E, by simp, [i], ?_, rfl, fun _ => rfl⟩
  have hplace := Program.place?_concat (p := E.program) (a := []) rfl i
  rw [List.nil_append] at hplace
  rw [hplace]
  show ((E.program.map Part.stmt)[i]?).map _ = _
  rw [getElem?_map_some hi]
  show some (Place.mk (Nesting.afterAll [] (E.program.take i)) (.stmt st)) = _
  rw [Nesting.afterAll_of_nil]

variable (hf ht) in
/-- The frame at a distance from a node that is come to is that of the region at this distance; if a
name is not sure to be bound in it, a declaration of it stands alone in this region. -/
theorem exists_region_of_known {Γ : Nesting} {t : Part} (hk : E.Known earlier Γ t) {d : Nat} {f : Frame}
    (hfr : Γ[d]? = some f) :
    ∃ F ∈ earlier ++ [E], ∃ a r, F.program.part? a = some t ∧ (F.program.regions a)[d]? = some r ∧
      ∀ x, ¬ (E.setting earlier clean hf ht).sure f.opener x → F.program.DeclaresBare r x := by
  obtain ⟨F, hF, a, ha, -, -⟩ := hk
  have hregions := List.forall₂_iff_get.1 (Program.agrees_of_place? ha)
  obtain ⟨hlt, hget⟩ := List.getElem?_eq_some_iff.1 hfr
  have hlt' : d < (F.program.regions a).length := hregions.1 ▸ hlt
  obtain ⟨hopener, -⟩ := hregions.2 d hlt hlt'
  refine ⟨F, hF, a, (F.program.regions a)[d], Program.part?_of_place? ha,
    List.getElem?_eq_getElem hlt', fun x hx => ?_⟩
  by_contra hbare
  refine hx fun q hq r hr hdecl => ?_
  -- a declaration that stands alone in a region opened so stands in this region
  have ⟨b, u, j, c, hu, _, _, _, hhead⟩ := hdecl
  obtain ⟨rfl, rfl⟩ := hf.distinct.region_unique hq (List.mem_map_of_mem hF) hu
    (Program.part?_of_place? ha) (List.mem_of_mem_head? hhead) (List.getElem_mem hlt')
    (hr.trans (hget ▸ hopener))
  exact hbare hdecl

/-- The scopes that are made during the run are those the setting allows. -/
theorem opensOk (hfits : E.interpreter.config.fitsStack = true) {i : Nat} {st : Stmt}
    {s : RunState}
    (hb : Action.throughout (execute E.context E.fuel) (E.program.take i) E.ready.start = .ok () s)
    (hi : E.program[i]? = some st) :
    OpensOk (E.setting earlier clean hf ht) E.fuel (.stmt st) s :=
  fun m u s' _ _ hv ho => ⟨E, by simp, m, u, s', .mk hfits hb hi hv, ho⟩

theorem Visits.opensOk {m : Nat} {t : Part} {s : RunState} (hv : E.Visits m t s) :
    OpensOk (E.setting earlier clean hf ht) m t s := by
  obtain ⟨hfits, hb, hi, hv⟩ := hv
  exact fun k u s' _ _ hv' ho => ⟨E, by simp, k, u, s', .mk hfits hb hi (hv.trans hv'), ho⟩

variable (hs : StoreOk (E.setting earlier clean hf ht) E.interpreter.store)
  (hscope : E.interpreter.scope = E.interpreter.globals)

include hs hscope

/-- The run of the first statements of the program is safe. -/
theorem throughout_safe (hfits : E.interpreter.config.fitsStack = true) (k : Nat) :
    Safe (E.setting earlier clean hf ht) E.ready.start (fun _ _ => True)
      (Action.throughout (execute E.context E.fuel) (E.program.take k) E.ready.start) := by
  refine List.take_induction (M := fun l => Safe (E.setting earlier clean hf ht) E.ready.start
    (fun _ _ => True) (Action.throughout (execute E.context E.fuel) l E.ready.start))
    (.ok hs trivial) (fun i st hi hbefore => ?_) k
  rw [Action.throughout_concat]
  refine hbefore.bind fun _ s hb hl _ => ?_
  have hat : At (E.setting earlier clean hf ht) [] (.stmt st) s :=
    ⟨known_top hi, hl.scope.trans hscope, hl.store⟩
  refine ((sound E.fuel).stmt hat (opensOk hfits hb hi)).bind fun _ s' _ hl' _ => ?_
  exact .ok hl'.store trivial

theorem run_safe (hfits : E.interpreter.config.fitsStack = true) : Safe (E.setting earlier clean hf ht) E.ready.start (fun _ _ => True)
    (Action.throughout (execute E.context E.fuel) E.program E.ready.start) := by
  have := throughout_safe hs hscope hfits E.program.length
  rwa [List.take_length] at this

/-- Every node is come to where the scopes mirror its nesting. -/
theorem at_of_visits {m : Nat} {t : Part} {s : RunState} (hv : E.Visits m t s) :
    ∃ Γ, At (E.setting earlier clean hf ht) Γ t s := by
  obtain ⟨hfits, hb, hi, hv⟩ := hv
  obtain ⟨hl, -⟩ := (throughout_safe hs hscope hfits _).of_ok hb
  have hat : At (E.setting earlier clean hf ht) [] _ _ :=
    ⟨known_top hi, hl.scope.trans hscope, hl.store⟩
  exact hat.visits (opensOk hfits hb hi) hv

end Episode

end Lox
