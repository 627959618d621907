import Lox.Proofs.Run.Account

/-!
# The faults of a run

A run ends with a fault exactly if one arises during it, and then with that fault in the store in which
it arose (`Part.outcome_raised_iff`): nothing in the language catches one.  Of the places where a fault
arises, only a call that would be nested too deeply raises a stack overflow (`Raises.stackOverflow`).
-/

namespace Lox

/-! ### Every fault ends the run -/

/-- A fault that arises is the end of the run. -/
def RaisesLast (M : Event → Prop) (_ : Store) (o : Outcome Store Unit) : Prop :=
  ∀ fault st, M (.raise fault st) → o = .raised fault st

/-- A fault that is the end of a run satisfies `B`. -/
def EndsIn (B : Event → Prop) (_ : Event → Prop) (_ : Store) (o : Outcome Store Unit) : Prop :=
  ∀ fault st, o = .raised fault st → B (.raise fault st)

variable {ctx : Context} {n : Nat} {t u : Part} {s s' : RunState} {fault : Fault} {st : Store}

theorem RaisesLast.account : Account RaisesLast where
  less hNM h fault st hev := h fault st (hNM _ hev)
  done _ _ _ hev := hev.elim
  next := by
    rintro M N st st' o hM hN fault st'' (hev | hev)
    · cases hM fault st'' hev
    · exact hN fault st'' hev

theorem RaisesLast.accounts (ctx : Context) : Accounts RaisesLast ctx fun _ _ _ => True where
  account := RaisesLast.account
  stop _ _ _ hev := nomatch hev
  visit _ _ _ hev := nomatch hev
  change _ _ _ _ hev := nomatch hev
  raise _ _ _ _ hev := by
    cases hev
    rfl
  call _ _ _ _ := trivial

variable {B : Event → Prop}

theorem EndsIn.account : Account (EndsIn B) where
  less _ h := h
  done _ _ _ he := nomatch he
  next _ h := h

theorem EndsIn.accounts (ctx : Context) (B : Event → Prop) :
    Accounts (EndsIn B) ctx fun n t s => ∀ ev, Happens ctx n t s ev → B ev where
  account := EndsIn.account
  stop _ _ _ he := nomatch he
  visit _ _ _ he := nomatch he
  change _ _ _ _ he := nomatch he
  raise hB hr _ _ he := by
    cases he
    exact hB _ (.raise .here hr)
  call hB hc _ _ ev hev := hB ev (.of_call hc hev)

/-- The run of a part ends with a fault exactly if that fault arises. -/
theorem Part.outcome_raised_iff :
    t.outcome ctx n s = .raised fault st ↔ Happens ctx n t s (.raise fault st) :=
  ⟨(EndsIn.accounts ctx (Happens ctx n t s)).run n t s (fun _ hev => hev) fault st,
    (RaisesLast.accounts ctx).run n t s trivial fault st⟩

/-- The same for the statements of a program. -/
theorem Program.outcome_raised_iff {p : Program} :
    (Action.throughout (execute ctx n) p s).store = .raised fault st ↔
      ProgramHappens ctx n p s (.raise fault st) := by
  constructor
  · refine (EndsIn.accounts ctx (ProgramHappens ctx n p s)).program ?_ fault st
    intro k st s' hi hs _ ev hev
    exact ⟨k, st, hi, s', hs, hev⟩
  · exact (RaisesLast.accounts ctx).program (fun _ _ _ _ _ _ => trivial) fault st

/-! ### Where faults arise -/

theorem Literal.evaluate_error {value : Literal} (h : value.evaluate = .error fault) :
    fault = .integerTooLarge := by
  cases value with
  | integer i =>
    unfold Literal.evaluate at h
    dsimp only at h
    split at h
    · cases h
    · cases h
      rfl
  | _ => cases h

/-- A variable that cannot be read is not bound where the table says, or not bound at all. -/
theorem Run.lookUp_raised {id : NodeId} {name : Token} (h : Run.lookUp ctx id name s = .raised fault s') :
    (∃ f, fault = .scope f) ∨ fault = .error ⟨.undefinedVariable, name⟩ := by
  cases hd : ctx.table[id]? with
  | some d =>
    rw [Run.lookUp_of_local hd] at h
    cases hg : s.store.getAt s.scope d name.lexeme with
    | ok v =>
      rw [hg] at h
      cases h
    | error f =>
      rw [hg] at h
      cases h
      exact .inl ⟨f, rfl⟩
  | none =>
    cases hg : s.store.get? ctx.globals name.lexeme with
    | some v =>
      rw [Run.lookUp_of_global hd hg] at h
      cases h
    | none =>
      rw [Run.lookUp_of_undefined hd hg] at h
      cases h
      exact .inr rfl

theorem Run.assignedScope_raised {id : NodeId} {name : Token}
    (h : Run.assignedScope ctx id name s = .raised fault s') :
    (∃ f, fault = .scope f) ∨ fault = .error ⟨.undefinedVariable, name⟩ := by
  cases hd : ctx.table[id]? with
  | some d =>
    rw [Run.assignedScope_of_local hd] at h
    cases hg : s.store.scopeAt s.scope d with
    | ok v =>
      rw [hg] at h
      cases h
    | error f =>
      rw [hg] at h
      cases h
      exact .inl ⟨f, rfl⟩
  | none =>
    cases hg : s.store.owner? ctx.globals name.lexeme with
    | some v =>
      rw [Run.assignedScope_of_global hd hg] at h
      cases h
    | none =>
      rw [Run.assignedScope_of_undefined hd hg] at h
      cases h
      exact .inr rfl

theorem Token.applyUnary_error {operator : Token} {v : Value}
    (h : operator.applyUnary v = .error fault) :
    fault = .error ⟨.numberOperand, operator⟩ ∨ fault = .unknownUnary operator.lexeme := by
  unfold applyUnary at h
  split at h <;> cases h
  · exact .inl rfl
  · exact .inr rfl

theorem Token.applyBinary_error {operator : Token} {l r : Value}
    (h : operator.applyBinary l r = .error fault) :
    fault = .error ⟨.plusOperands, operator⟩ ∨ fault = .error ⟨.numberOperands, operator⟩ ∨
      fault = .unknownBinary operator.lexeme := by
  unfold applyBinary at h
  split at h
  case h_6 =>
    unfold applyArithmetic at h
    split at h <;> cases h
    exact .inr (.inr rfl)
  all_goals cases h
  · exact .inl rfl
  · exact .inr (.inl rfl)

/-- A method of the superclass is not found, or it cannot be known where to look for it. -/
theorem Run.superMethod_raised {id : NodeId} {method : Token}
    (h : Run.superMethod ctx id method s = .raised fault s') :
    fault = .unresolvedSuper ∨ fault = .superNotClass ∨ (∃ f, fault = .scope f) ∨
      fault = .error ⟨.undefinedProperty, method⟩ := by
  unfold Run.superMethod at h
  cases hd : ctx.table[id]? with
  | none =>
    rw [hd] at h
    cases h
    exact .inl rfl
  | some d =>
    rw [hd] at h
    change (Run.currentScope >>= _) s = _ at h
    rw [Run.currentScope_bind, Run.ask_bind] at h
    cases hc : s.store.getAt s.scope d "super" with
    | error f =>
      rw [hc] at h
      cases h
      exact .inr (.inr (.inl ⟨f, rfl⟩))
    | ok superclass =>
      rw [hc, Run.ofScope_ok_bind, Run.ask_bind] at h
      cases ht : s.store.getAt s.scope ((d : Int) - 1) "this" with
      | error f =>
        rw [ht] at h
        cases h
        exact .inr (.inr (.inl ⟨f, rfl⟩))
      | ok this =>
        rw [ht, Run.ofScope_ok_bind] at h
        cases superclass with
        | cls c =>
          change (Run.ask _ >>= _) s = _ at h
          rw [Run.ask_bind] at h
          cases hf : s.store.method? c method.lexeme with
          | some f =>
            rw [hf] at h
            cases h
          | none =>
            rw [hf] at h
            cases h
            exact .inr (.inr (.inr rfl))
        | _ =>
          cases h
          exact .inr (.inl rfl)

/-! ### Stack overflows -/

variable (ctx n) in
/-- A callable callee is called with as many arguments as it takes: the state when these have been
evaluated. -/
inductive Arrives (callee : Expr) (arguments : List Expr) (s : RunState) : RunState → Prop
  | mk {f vs c s₁ s₂} (hf : evaluate ctx n callee s = .ok f s₁)
      (hvs : Action.collect (evaluate ctx n) arguments s₁ = .ok vs s₂)
      (hc : s₂.store.callable? f = some c) (harity : (vs.length : Int) = s₂.store.arity c) :
      Arrives callee arguments s s₂

/-- Only a call raises a stack overflow, and only when the calls are nested as deeply as they may. -/
theorem Raises.stackOverflow {limit : Int} {token : Token}
    (h : Raises ctx n t s (.error ⟨.stackOverflow limit, token⟩) st) :
    limit = ctx.maxDepth ∧ ∃ id callee arguments s', t = .expr (.call id callee token arguments) ∧
      Arrives ctx n callee arguments s s' ∧ ctx.maxDepth ≤ s'.depth := by
  cases h with
  | literal h => cases Literal.evaluate_error h
  | var h => rcases Run.lookUp_raised h with ⟨f, h⟩ | h <;> cases h
  | this h => rcases Run.lookUp_raised h with ⟨f, h⟩ | h <;> cases h
  | assigned hv h => rcases Run.assignedScope_raised h with ⟨f, h⟩ | h <;> cases h
  | binary hl hr h => rcases Token.applyBinary_error h with h | h | h <;> cases h
  | unary hv h => rcases Token.applyUnary_error h with h | h <;> cases h
  | refused h =>
    cases h with
    | overflow hf hvs hc harity hdepth =>
      exact ⟨rfl, _, _, _, _, rfl, .mk hf hvs hc harity, hdepth⟩
  | super h => rcases Run.superMethod_raised h with h | h | ⟨f, h⟩ | h <;> cases h

/-- Such a call does raise one. -/
theorem Arrives.raises {id : NodeId} {callee : Expr} {paren : Token} {arguments : List Expr}
    (h : Arrives ctx n callee arguments s s') (hdepth : ctx.maxDepth ≤ s'.depth) :
    Raises ctx n (.expr (.call id callee paren arguments)) s
      (.error ⟨.stackOverflow ctx.maxDepth, paren⟩) s'.store := by
  cases h with
  | mk hf hvs hc harity => exact .refused (.overflow hf hvs hc harity hdepth)

end Lox
