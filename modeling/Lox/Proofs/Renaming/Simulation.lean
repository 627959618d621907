import Lox.Proofs.Renaming.Runs
import Lox.Proofs.Run.GroundedRuns

/-!
# A renamed program runs alike

Nodes of a program and their counterparts in the renamed program are run with the same table and the same
fuel, and end alike if they start alike (`RunsRenamed`): the one runs go the same way, node by node, as the
others.  The first run is that of a whole program, so that each line can be traced to the node that printed
it and to the value it shows (`Interpretation.Shows`), and its nodes are those of the program and of the
functions it makes, where every `this` is written so and only variables are assigned.
-/

namespace Lox

/-- Line number `k` is printed during the run of a program, and shows a value in a store. -/
inductive Interpretation.Shows (I : Interpretation) : Nat → Store → Value → Prop
  | mk {m : Nat} {id : NodeId} {e : Expr} {s s' : RunState} {v : Value}
      (hv : I.Visits (m + 1) (.stmt (.print id e)) s) (he : evaluate I.context m e s = .ok v s') :
      I.Shows s'.printed.size s'.store v

variable {ρ : Renaming} {I : Interpretation} {n : Nat} {s s' : RunState}

/-- The name that is assigned, if it is that of a variable. -/
theorem Expr.assignedName_rename {target : Expr} (h : target.asVariable?.isSome) (equals : Token) :
    (target.rename ρ).assignedName equals = (target.assignedName equals).rename ρ := by
  obtain ⟨ref, href⟩ := Option.isSome_iff_exists.1 h
  obtain rfl := Expr.eq_var_of_asVariable? href
  rfl

/-- With so much fuel, the nodes that the run of a program visits end as their counterparts do. -/
structure RunsRenamed (ρ : Renaming) (I : Interpretation) (n : Nat) : Prop where
  expr : ∀ e s s', I.Visits n (.expr e) s → s.Renamed ρ I.Shows s' →
    Outcome.Renamed ρ I.Shows Value.Ordinary (evaluate I.context n e s)
      (evaluate I.context n (e.rename ρ) s')
  stmt : ∀ st s s', I.Visits n (.stmt st) s → s.Renamed ρ I.Shows s' →
    Outcome.Renamed ρ I.Shows Completion.Ordinary (execute I.context n st s)
      (execute I.context n (st.rename ρ) s')

/-- A call of a value with some arguments: what is called is the same function, renamed. -/
theorem renamed_call_expr (ih : RunsRenamed ρ I n) {id : NodeId} {callee : Expr} {paren : Token}
    {arguments : List Expr} (hv : I.Visits (n + 1) (.expr (.call id callee paren arguments)) s)
    (h : s.Renamed ρ I.Shows s') :
    Outcome.Renamed ρ I.Shows Value.Ordinary
      (evaluate I.context (n + 1) (.call id callee paren arguments) s)
      (evaluate I.context (n + 1) (Expr.rename ρ (.call id callee paren arguments)) s') := by
  rw [Expr.rename, Expr.renameAll_eq_map]
  refine (ih.expr callee s s' (hv.call .callee) h).bind fun f t t' hf _ ht => ?_
  have hargs := Outcome.Renamed.collect ht fun i e vs u u' hi hvs hu =>
    ih.expr e u u' (hv.call (.argument hf hvs hi)) hu
  refine hargs.bind fun vs u u' hvs hord hu => ?_
  refine renamed_call hu I.context paren f hord fun c hc harity hdepth g w w' hs hw => ?_
  have ha : Applies I.context n callee arguments s c vs { u with depth := u.depth + 1 } :=
    .mk hf hvs hc harity hdepth
  have hbody : (g.rename ρ).declaration.body = g.declaration.body.map (Stmt.rename ρ) :=
    g.declaration.body_rename.trans (Stmt.renameAll_eq_map _)
  rw [hbody]
  exact .untilReturn hw fun i st x x' hi hb hx => ih.stmt st x x' (hv.call (.body ha hs hb hi)) hx

/-- One step of the induction, for expressions. -/
theorem renamed_evaluate (hkind : ∀ m t s, I.Visits m t s → t.Renamable) (ih : RunsRenamed ρ I n)
    (e : Expr) (hv : I.Visits (n + 1) (.expr e) s) (h : s.Renamed ρ I.Shows s') :
    Outcome.Renamed ρ I.Shows Value.Ordinary (evaluate I.context (n + 1) e s)
      (evaluate I.context (n + 1) (e.rename ρ) s') := by
  cases e with
  | literal id value =>
    exact .ofExcept h fun v hv => Value.ordinary_of_isPlain (Literal.isPlain_of_evaluate hv)
  | var ref => exact renamed_lookUp h I.context ref.id ref.name
  | assign id target equals value =>
    have htarget := (hkind _ _ _ hv).target id target equals value rfl
    refine (ih.expr value s s' (hv.call .assigned) h).bind fun v t t' _ hord ht => ?_
    rw [Expr.assignedName_rename htarget]
    exact (renamed_assign ht I.context id (target.assignedName equals) hord).bind
      fun _ u u' _ _ hu => .ok hord hu
  | binary id left operator right =>
    refine (ih.expr left s s' (hv.call .binaryLeft) h).bind fun l t t' hl _ ht => ?_
    refine (ih.expr right t t' (hv.call (.binaryRight hl)) ht).bind fun r u u' _ _ hu => ?_
    exact .ofExcept hu fun v hv => Value.ordinary_of_isPlain (Token.isPlain_of_applyBinary hv)
  | logical id left operator right =>
    refine (ih.expr left s s' (hv.call .logicalLeft) h).bind fun l t t' hl hord ht => ?_
    cases hd : operator.decidesLogical l with
    | true => exact .ok hord ht
    | false => exact ih.expr right t t' (hv.call (.logicalRight hl hd)) ht
  | unary id operator operand =>
    refine (ih.expr operand s s' (hv.call .operand) h).bind fun v t t' _ _ ht => ?_
    exact .ofExcept ht fun v hv => Value.ordinary_of_isPlain (Token.isPlain_of_applyUnary hv)
  | grouping id inner => exact ih.expr inner s s' (hv.call .inner) h
  | call id callee paren arguments => exact renamed_call_expr ih hv h
  | get id object name =>
    refine (ih.expr object s s' (hv.call .getObject) h).bind fun o t t' _ _ ht => ?_
    cases o with
    | inst i => exact renamed_getProperty ht i name
    | _ => exact .fail ht .propertyOnNonInstance name.line_rename
  | set id object name value =>
    refine (ih.expr object s s' (hv.call .setObject) h).bind fun o t t' ho _ ht => ?_
    cases o with
    | inst i =>
      refine (ih.expr value t t' (hv.call (.setValue ho)) ht).bind fun v u u' _ hord hu => ?_
      exact .ok hord (hu.withStore (hu.store.setField i name.lexeme hord))
    | _ => exact .fail ht .fieldOnNonInstance name.line_rename
  | this id keyword =>
    -- a `this` is looked up under its own name, which no renaming changes
    have hk : keyword.lexeme = "this" := (hkind _ _ _ hv).keyword
    have hname := renamed_lookUp h I.context id keyword
    rwa [Token.rename_eq_self (by rw [hk, ρ.this])] at hname
  | super id keyword method => exact renamed_superMethod h I.context id method

/-- One step of the induction, for statements. -/
theorem renamed_execute (ih : RunsRenamed ρ I n) (st : Stmt) (hv : I.Visits (n + 1) (.stmt st) s)
    (h : s.Renamed ρ I.Shows s') :
    Outcome.Renamed ρ I.Shows Completion.Ordinary (execute I.context (n + 1) st s)
      (execute I.context (n + 1) (st.rename ρ) s') := by
  have normal : ∀ {t t' : RunState}, t.Renamed ρ I.Shows t' →
      Outcome.Renamed ρ I.Shows Completion.Ordinary (.ok .normal t) (.ok .normal t') :=
    .ok Completion.ordinary_normal
  cases st with
  | block id body =>
    rw [Stmt.rename, Stmt.renameAll_eq_map]
    refine (Outcome.Renamed.currentScope h).bind fun e t t' he _ ht => ?_
    cases he
    refine (Outcome.Renamed.alloc (K := fun _ => True) ht (ht.store.newScope _ .empty) trivial).bind
      fun scope u u' hscope _ hu => ?_
    exact .inScope hu (.untilReturn (hu.inScope rfl) fun i st w w' hi hb hw =>
      ih.stmt st w w' (hv.call (.block hscope hb hi)) hw)
  | expression id e =>
    exact (ih.expr e s s' (hv.call .expression) h).bind fun v t t' _ _ ht => normal ht
  | print id e =>
    refine (ih.expr e s s' (hv.call .print) h).bind fun v t t' he hord ht => ?_
    exact normal (ht.print hord (.mk hv he))
  | varDecl id name initializer =>
    cases initializer with
    | none => exact (renamed_define h name.lexeme (v := .nil) nofun).bind fun _ t t' _ _ ht => normal ht
    | some e =>
      refine (ih.expr e s s' (hv.call .initializer) h).bind fun v t t' _ hord ht => ?_
      exact (renamed_define ht name.lexeme hord).bind fun _ u u' _ _ hu => normal hu
  | branch id condition thenBranch elseBranch =>
    cases elseBranch with
    | none =>
      refine (ih.expr condition s s' (hv.call .branchCondition) h).bind fun v t t' he _ ht => ?_
      cases hb : v.truthy with
      | true => exact ih.stmt thenBranch t t' (hv.call (.thenBranch he hb)) ht
      | false => exact normal ht
    | some elseBranch =>
      refine (ih.expr condition s s' (hv.call .branchCondition) h).bind fun v t t' he _ ht => ?_
      cases hb : v.truthy with
      | true => exact ih.stmt thenBranch t t' (hv.call (.thenBranch he hb)) ht
      | false => exact ih.stmt elseBranch t t' (hv.call (.elseBranch he hb)) ht
  | loop id condition body =>
    refine (ih.expr condition s s' (hv.call .loopCondition) h).bind fun v t t' he _ ht => ?_
    cases ht' : v.truthy with
    | true =>
      refine (ih.stmt body t t' (hv.call (.loopBody he ht')) ht).bind fun c u u' hb hc hu => ?_
      cases c with
      | normal => exact ih.stmt (.loop id condition body) u u' (hv.call (.loopAgain he ht' hb)) hu
      | returned w => exact .ok hc hu
    | false => exact normal ht
  | function f =>
    refine (Outcome.Renamed.currentScope h).bind fun e t t' _ _ ht => ?_
    refine (Outcome.Renamed.alloc (K := fun _ => True) ht (ht.store.newFunction _) trivial).bind
      fun id u u' _ _ hu => ?_
    show Outcome.Renamed ρ I.Shows _ ((Run.define f.name.lexeme _ >>= _) u)
      ((Run.define (f.rename ρ).name.lexeme _ >>= _) u')
    rw [f.name_rename]
    exact (renamed_define hu f.name.lexeme (v := .function id) nofun).bind
      fun _ w w' _ _ hw => normal hw
  | ret id keyword value =>
    cases value with
    | none => exact .ok (Completion.ordinary_returned nofun) h
    | some e =>
      exact (ih.expr e s s' (hv.call .returned) h).bind fun v t t' _ hord ht =>
        .ok (Completion.ordinary_returned hord) ht
  | classDecl id name superclass methods =>
    cases superclass with
    | none =>
      exact (renamed_declareClass h name none methods).bind fun _ t t' _ _ ht => normal ht
    | some ref =>
      refine (ih.expr (.var ref) s s' (hv.call .superclass) h).bind fun v t t' _ _ ht => ?_
      cases v with
      | cls c =>
        exact (renamed_declareClass ht name (some c) methods).bind fun _ u u' _ _ hu => normal hu
      | _ => exact .fail ht .superclassNotClass ref.name.line_rename

theorem runs_renamed (hkind : ∀ m t s, I.Visits m t s → t.Renamable) (n : Nat) : RunsRenamed ρ I n := by
  induction n with
  | zero => exact ⟨fun _ _ _ _ _ => .outOfFuel, fun _ _ _ _ _ => .outOfFuel⟩
  | succ n ih =>
    exact ⟨fun e _ _ => renamed_evaluate hkind ih e, fun st _ _ => renamed_execute ih st⟩

end Lox
