import Mathlib.Algebra.Ring.Nat
import Mathlib.Data.List.Dedup
import Lox.Proofs.Scoping.Table
import Lox.Proofs.Run.Splitting

/-!
# The table of a session

The interpreter of a session keeps one table for all of its programs.  As long as the programs have no
nodes in common, the table is the union of what was resolved for each of them that broke no static
rule: at the nodes of such a program it says what was resolved for that program, whichever others were
run before or afterwards, how often it was run, and however the runs ended.
-/

namespace Lox

/-! ### Parts that do not overlap -/

/-- An identity that a program brings along: that of a node, or of the variable that a node assigns. -/
def Program.Owns (p : Program) (id : NodeId) : Prop := ∃ a t, p.part? a = some t ∧ id ∈ t.ids

section Owns

variable {ps : List Program} {p q : Program} {id : NodeId} {d : Nat}

theorem Program.owns_of_entry (h : p.resolve.table[id]? = some d) : p.Owns id := by
  obtain ⟨a, t, ha, hid⟩ := hasNode_of_entry h
  exact ⟨a, t, ha, Part.id?_mem_ids hid⟩

theorem DistinctNodes.eq_of_owns (h : DistinctNodes ps) (hp : p ∈ ps) (hq : q ∈ ps)
    (hpid : p.Owns id) (hqid : q.Owns id) : p = q := by
  obtain ⟨a, t, ha, ht⟩ := hpid
  obtain ⟨b, u, hb, hu⟩ := hqid
  exact (h.unique p hp q hq a b t u ha hb id ht hu).1

end Owns

section IsTableOf

variable {table : Resolution} {ps qs : List Program} {p q : Program} {id : NodeId} {d : Nat}

/-- At the nodes of one of the programs a common table says what was resolved for that program. -/
theorem IsTableOf.entry_of_owns (h : IsTableOf table qs) (hd : DistinctNodes qs) (hp : p ∈ qs)
    (hid : p.Owns id) : table[id]? = p.resolve.table[id]? := by
  cases ht : table[id]? with
  | some d =>
    obtain ⟨q, hq, hqd⟩ := h.sound id d ht
    have heq : q = p := hd.eq_of_owns hq hp (Program.owns_of_entry hqd) hid
    rw [← heq, hqd]
  | none =>
    cases hpd : p.resolve.table[id]? with
    | none => rfl
    | some d =>
      have hsome := h.complete p hp id d hpd
      simp [ht] at hsome

/-- At the nodes of any other program it says nothing. -/
theorem IsTableOf.entry_eq_none (h : IsTableOf table qs) (hd : DistinctNodes ps) (hsub : qs ⊆ ps)
    (hp : p ∈ ps) (hnot : p ∉ qs) (hid : p.Owns id) : table[id]? = none := by
  cases ht : table[id]? with
  | none => rfl
  | some d =>
    exfalso
    obtain ⟨q, hq, hqd⟩ := h.sound id d ht
    have heq : q = p := hd.eq_of_owns (hsub hq) hp (Program.owns_of_entry hqd) hid
    rw [heq] at hq
    exact hnot hq

/-- What is resolved for one of the programs is in the table already. -/
theorem IsTableOf.union_eq (h : IsTableOf table qs) (hd : DistinctNodes qs) (hp : p ∈ qs) :
    table ∪ p.resolve.table = table := by
  refine Std.ExtTreeMap.ext_getElem? fun id => ?_
  rw [Std.ExtTreeMap.getElem?_union]
  cases hpd : p.resolve.table[id]? with
  | none => exact Option.none_or
  | some d =>
    rw [h.entry_of_owns hd hp (Program.owns_of_entry hpd), hpd]
    rfl

/-- The nodes in a common table are those in the tables of the programs. -/
theorem IsTableOf.mem_iff (h : IsTableOf table qs) : id ∈ table ↔ ∃ p ∈ qs, id ∈ p.resolve.table := by
  simp only [Std.ExtTreeMap.mem_iff_isSome_getElem?]
  constructor
  · intro hid
    obtain ⟨d, hd⟩ := Option.isSome_iff_exists.1 hid
    obtain ⟨p, hp, hpd⟩ := h.sound id d hd
    exact ⟨p, hp, by simp [hpd]⟩
  · rintro ⟨p, hp, hid⟩
    obtain ⟨d, hpd⟩ := Option.isSome_iff_exists.1 hid
    exact h.complete p hp id d hpd

/-- Programs without common nodes have no common entries. -/
theorem Program.Apart.keys_disjoint (h : p.Apart q) :
    p.resolve.table.keys.Disjoint q.resolve.table.keys := by
  intro id hp hq
  rw [Std.ExtTreeMap.mem_keys, Std.ExtTreeMap.mem_iff_isSome_getElem?] at hp hq
  rcases h.disjoint id with hnone | hnone
  · simp [hnone] at hp
  · simp [hnone] at hq

/-- A common table is as large as the tables of the programs are together. -/
theorem IsTableOf.size_eq_sum (h : IsTableOf table qs) (hd : DistinctNodes qs) (hn : qs.Nodup) :
    table.size = (qs.map fun p => p.resolve.table.size).sum := by
  have hapart : qs.Pairwise fun p q => p.resolve.table.keys.Disjoint q.resolve.table.keys := by
    refine hn.imp_of_mem fun hp hq hne => ?_
    exact (Program.apart_of_distinct hd hp hq hne).keys_disjoint
  have hnodup : (qs.flatMap fun p => p.resolve.table.keys).Nodup :=
    List.nodup_flatMap.2 ⟨fun p _ => Std.ExtTreeMap.nodup_keys, hapart⟩
  have hperm : table.keys.Perm (qs.flatMap fun p => p.resolve.table.keys) := by
    refine (List.perm_ext_iff_of_nodup Std.ExtTreeMap.nodup_keys hnodup).2 fun id => ?_
    simp only [Std.ExtTreeMap.mem_keys, List.mem_flatMap]
    exact h.mem_iff
  calc table.size
      = table.keys.length := Std.ExtTreeMap.length_keys.symm
    _ = (qs.flatMap fun p => p.resolve.table.keys).length := hperm.length_eq
    _ = (qs.map fun p => p.resolve.table.size).sum := by
      simp [List.length_flatMap, Std.ExtTreeMap.length_keys]

end IsTableOf

/-! ### Sessions -/

open Classical in
/-- The programs that break no static rule, each of them once. -/
noncomputable def Program.accepted (ps : List Program) : List Program :=
  (ps.filter fun p => !p.resolve.hasErrors).dedup

theorem Program.mem_accepted {ps : List Program} {p : Program} :
    p ∈ accepted ps ↔ p ∈ ps ∧ p.resolve.hasErrors = false := by
  simp [accepted]

open Classical in
theorem Program.nodup_accepted (ps : List Program) : (accepted ps).Nodup := by
  unfold accepted
  exact List.nodup_dedup _

namespace Session

variable {registry : NativeRegistry} {config : Config} {ps : List Program} {s : Session}

/-- The table of a session has the entries of the accepted programs. -/
theorem Given.isTableOf (h : Given registry config ps s) :
    IsTableOf s.interpreter.table (Program.accepted ps) := by
  obtain ⟨Es, hE, hps⟩ := h.exists_history_filter
  have hmem : ∀ p, p ∈ programs Es ↔ p ∈ Program.accepted ps := by
    intro p
    rw [hps, Program.mem_accepted]
    simp
  have ht : IsTableOf s.interpreter.table (programs Es) := hE.isTableOf
  constructor
  · intro id d hd
    obtain ⟨p, hp, hpd⟩ := ht.sound id d hd
    exact ⟨p, (hmem p).1 hp, hpd⟩
  · intro p hp
    exact ht.complete p ((hmem p).2 hp)

/-- The table of a session, after programs without common nodes, is put together of what was resolved
for the accepted ones, each on its own by any resolver.  A name that no region around it has gets no
entry, what was rejected contributes nothing, and no program contributes twice. -/
theorem table_accumulates (h : Given registry config ps s) (hd : DistinctNodes ps) :
    (∀ p ∈ ps, p.resolve.hasErrors = false → ∀ id, p.Owns id →
      ∀ r : Resolver, s.interpreter.table[id]? = (r.resolve p).table[id]?) ∧
    (∀ p ∈ ps, p.resolve.hasErrors = false → ∀ a t id, p.part? a = some t → t.id? = some id →
      (∀ x, p.LooksUp a x → ∀ r ∈ p.regions a, ¬ p.Has r x a) → s.interpreter.table[id]? = none) ∧
    (∀ p ∈ ps, p.resolve.hasErrors = true → ∀ id, p.Owns id → s.interpreter.table[id]? = none) ∧
    (∀ id d, s.interpreter.table[id]? = some d →
      ∃ p ∈ Program.accepted ps, p.Owns id ∧ p.resolve.table[id]? = some d) ∧
    s.interpreter.table.size =
      ((Program.accepted ps).map fun p => p.resolve.table.size).sum ∧
    ∀ p ∈ ps, (p.resolve.hasErrors = false → s.interpreter.learn p.resolve.table = s.interpreter) ∧
      ∀ fuel result s', s.run fuel p = some (result, s') →
        s'.interpreter.table = s.interpreter.table := by
  have ht := h.isTableOf
  have hsub : Program.accepted ps ⊆ ps := fun p hp => (Program.mem_accepted.1 hp).1
  have hdistinct : DistinctNodes (Program.accepted ps) := hd.mono hsub
  have hown : ∀ p ∈ ps, p.resolve.hasErrors = false → ∀ id, p.Owns id →
      s.interpreter.table[id]? = p.resolve.table[id]? := by
    intro p hp he id hid
    exact ht.entry_of_owns hdistinct (Program.mem_accepted.2 ⟨hp, he⟩) hid
  have hunion : ∀ p ∈ ps, p.resolve.hasErrors = false →
      s.interpreter.table ∪ p.resolve.table = s.interpreter.table := by
    intro p hp he
    exact ht.union_eq hdistinct (Program.mem_accepted.2 ⟨hp, he⟩)
  refine ⟨fun p hp he id hid r => hown p hp he id hid, ?_, ?_, ?_, ?_, ?_⟩
  · intro p hp he a t id hat hid hglobal
    obtain ⟨Γ, hplace⟩ := Program.exists_place? hat
    rw [hown p hp he id ⟨a, t, hat, Part.id?_mem_ids hid⟩,
      Program.entry_eq (hd.mono (by simpa using hp)) hplace hid]
    cases hentry : Place.entry? ⟨Γ, t⟩ with
    | none => rfl
    | some d =>
      obtain ⟨x, hx, ⟨r, hr, hhas⟩, -⟩ := (Program.entry?_eq_some_iff hplace d).1 hentry
      exact absurd hhas (hglobal x hx r (List.mem_of_getElem? hr))
  · intro p hp he id hid
    have hnot : p ∉ Program.accepted ps := by
      intro hmem
      simp [(Program.mem_accepted.1 hmem).2] at he
    exact ht.entry_eq_none hd hsub hp hnot hid
  · intro id d hid
    obtain ⟨p, hp, hpd⟩ := ht.sound id d hid
    exact ⟨p, hp, Program.owns_of_entry hpd, hpd⟩
  · exact ht.size_eq_sum hdistinct (Program.nodup_accepted ps)
  · intro p hp
    refine ⟨fun he => ?_, fun fuel result s' hr => ?_⟩
    · rw [Interpreter.learn, hunion p hp he]
    · rcases run_cases hr with ⟨-, -, rfl⟩ | ⟨he, report, -, hres⟩
      · rfl
      · rw [(Episode.ended_of_result? hres).table]
        exact hunion p hp he

end Session

/-! ### A session with a rejected and a failing program -/

/-- A block that declares its variable twice. -/
def Program.twice : Program :=
  [.block 20 [.varDecl 21 ⟨.identifier, "y", .nil, 1⟩ none,
    .varDecl 22 ⟨.identifier, "y", .nil, 2⟩ none,
    .print 23 (.var ⟨24, ⟨.identifier, "y", .nil, 3⟩⟩)]]

/-- A block that prints its variable, and then a global that nothing declares. -/
def Program.stray : Program :=
  [.block 30 [.varDecl 31 ⟨.identifier, "x", .nil, 1⟩ none,
    .print 32 (.var ⟨33, ⟨.identifier, "x", .nil, 2⟩⟩),
    .print 34 (.var ⟨35, ⟨.identifier, "z", .nil, 3⟩⟩)]]

/-- After four programs, of which one was rejected, one failed and one was run twice, the table has
the two entries of those that were accepted. -/
theorem Session.stray_accumulates :
    ∃ s, Session.Given {} { natives := [] } [.farewell, .twice, .stray, .farewell] s ∧
      DistinctNodes [.farewell, .twice, .stray, .farewell] ∧
      Program.twice.resolve.table[24]? = some 0 ∧
      s.interpreter.table[18]? = some 0 ∧ s.interpreter.table[24]? = none ∧
      s.interpreter.table[33]? = some 0 ∧ s.interpreter.table[35]? = none ∧
      s.interpreter.table.size = 2 := by
  have hnew : ∃ s, Session.create {} { natives := [] } = .ok s ∧
      ((s.run 9 .farewell).bind fun r₁ => (r₁.2.run 9 .twice).bind fun r₂ =>
        (r₂.2.run 9 .stray).bind fun r₃ => (r₃.2.run 9 .farewell).map fun r₄ =>
          [r₁.1, r₂.1, r₃.1, r₄.1].map fun r => (r.success, r.hasStaticErrors)) =
        some [(true, false), (false, true), (false, false), (true, false)] :=
    ⟨_, rfl, by decide +kernel⟩
  obtain ⟨s₀, hcreate, hruns⟩ := hnew
  obtain ⟨⟨r₁, s₁⟩, hfirst, hruns⟩ := Option.bind_eq_some_iff.1 hruns
  obtain ⟨⟨r₂, s₂⟩, hsecond, hruns⟩ := Option.bind_eq_some_iff.1 hruns
  obtain ⟨⟨r₃, s₃⟩, hthird, hruns⟩ := Option.bind_eq_some_iff.1 hruns
  obtain ⟨⟨r₄, s⟩, hfourth, -⟩ := Option.map_eq_some_iff.1 hruns
  have hgiven : Session.Given {} { natives := [] } [.farewell, .twice, .stray, .farewell] s :=
    .run (.run (.run (.run (.create hcreate) hfirst) hsecond) hthird) hfourth
  have hfarewell : DistinctNodes [.farewell] := .of_within 3 (by decide) (by decide)
  have htwice : DistinctNodes [.twice] := .of_within 3 (by decide) (by decide)
  have hstray : DistinctNodes [.stray] := .of_within 3 (by decide) (by decide)
  have hothers : DistinctNodes [.twice, .stray] :=
    .pair htwice hstray 3 (by decide) (by decide) (by decide)
  have hthree : DistinctNodes [.farewell, .twice, .stray] := by
    refine .cons hfarewell hothers fun q hq => ?_
    rcases List.mem_pair.1 hq with rfl | rfl
    · exact .pair hfarewell htwice 3 (by decide) (by decide) (by decide)
    · exact .pair hfarewell hstray 3 (by decide) (by decide) (by decide)
  have hd : DistinctNodes [.farewell, .twice, .stray, .farewell] := hthree.mono (by simp)
  obtain ⟨hown, -, hrejected, -, hsize, -⟩ := Session.table_accumulates hgiven hd
  have haccepted : Program.accepted [.farewell, .twice, .stray, .farewell] = [.stray, .farewell] := by
    have hne : Program.farewell ≠ .stray := fun h => by cases h
    classical
    unfold Program.accepted
    rw [show List.filter (fun p : Program => !p.resolve.hasErrors)
      [.farewell, .twice, .stray, .farewell] = [.farewell, .stray, .farewell] from rfl]
    rw [List.dedup_cons_of_mem (by simp), List.dedup_cons_of_notMem (by simpa using hne.symm),
      List.dedup_cons_of_notMem (by simp), List.dedup_nil]
  refine ⟨s, hgiven, hd, by decide, ?_, ?_, ?_, ?_, ?_⟩
  · rw [hown .farewell (by simp) (by decide) 18 (Program.owns_of_entry (d := 0) (by decide)) {}]
    decide
  · exact hrejected .twice (by simp) (by decide) 24 (Program.owns_of_entry (d := 0) (by decide))
  · rw [hown .stray (by simp) (by decide) 33 (Program.owns_of_entry (d := 0) (by decide)) {}]
    decide
  · rw [hown .stray (by simp) (by decide) 35 ⟨[0, 2, 0], _, rfl, by decide⟩ {}]
    decide
  · rw [hsize, haccepted]
    decide

end Lox
