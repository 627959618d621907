import Lox.Proofs.Renaming.Resolution
import Lox.Proofs.Run.ThisKept

/-!
# Stores of a program and of the renamed program

Two stores hold the same objects under other names (`Store.Renamed`): the same links between scopes, the
same values of variables and fields, functions whose declarations are renamed, and classes with the same
methods.  The identities are the same in both, so the values are too.  Whatever is looked up under a name in
one store is found under the new name in the other, and each operation keeps the two alike.

No value leads to a scope of variables, since none does in a new session; all other values are shown alike, up
to the names in their texts (`Store.Renamed.display`).
-/

namespace Lox

variable {ρ : Renaming}

/-- The value names no scope. -/
def Value.Ordinary (v : Value) : Prop := ∀ e, v ≠ .scope e

theorem Value.ordinary_of_isPlain {v : Value} (h : v.isPlain = true) : v.Ordinary := by
  rintro e rfl
  cases h

/-! ### Objects -/

def FunctionObject.rename (ρ : Renaming) (f : FunctionObject) : FunctionObject :=
  { f with declaration := f.declaration.rename ρ }

def ScopeFault.rename (ρ : Renaming) : ScopeFault → ScopeFault
  | .walksPast distance => .walksPast distance
  | .unbound name distance => .unbound (ρ name) distance

def Store.Member.rename (ρ : Renaming) : Store.Member → Store.Member
  | .field v => .field v
  | .method f => .method (f.rename ρ)

def Callable.rename (ρ : Renaming) : Callable → Callable
  | .function f => .function (f.rename ρ)
  | .native n => .native n
  | .cls c => .cls c

/-- The same bindings under other names, and ordinary values. -/
structure Bindings.Renamed (ρ : Renaming) (b b' : Bindings) : Prop where
  carries : ρ.Carries b b'
  ordinary : ∀ (x : String) v, b[x]? = some v → v.Ordinary

structure ClassObject.Renamed (ρ : Renaming) (c c' : ClassObject) : Prop where
  name : c'.name = ρ c.name
  superclass : c'.superclass = c.superclass
  methods : ρ.Carries c.methods c'.methods

namespace Bindings.Renamed

theorem empty : Bindings.Renamed ρ ∅ ∅ := ⟨Renaming.carries_empty, fun x v h => by simp at h⟩

theorem insert {b b' : Bindings} (h : Bindings.Renamed ρ b b') (x : String) {v : Value}
    (hv : v.Ordinary) : Bindings.Renamed ρ (b.insert x v) (b'.insert (ρ x) v) := by
  refine ⟨h.carries.insert x v, fun y w hw => ?_⟩
  rw [Std.ExtTreeMap.getElem?_insert] at hw
  split at hw
  · cases hw
    exact hv
  · exact h.ordinary y w hw

theorem singleton {x : String} (hx : ρ x = x) {v : Value} (hv : v.Ordinary) :
    Bindings.Renamed ρ {(x, v)} {(x, v)} := by
  have h := empty.insert (ρ := ρ) x hv
  rwa [hx] at h

/-- Parameters are bound to the same arguments. -/
theorem bindParams {b b' : Bindings} (h : Bindings.Renamed ρ b b') (params : List Token)
    {vs : List Value} (hvs : ∀ v ∈ vs, v.Ordinary) :
    Bindings.Renamed ρ (Run.bindParams b (params.zip vs))
      (Run.bindParams b' ((params.map (Token.rename ρ)).zip vs)) := by
  induction params generalizing b b' vs with
  | nil => exact h
  | cons name names ih =>
    cases vs with
    | nil => exact h
    | cons v vs =>
      rw [List.forall_mem_cons] at hvs
      exact ih (h.insert name.lexeme hvs.1) hvs.2

end Bindings.Renamed

theorem isSome_getElem?_congr {α β : Type} {as : Array α} {bs : Array β} (h : bs.size = as.size) (i : Nat) :
    (bs[i]?).isSome = (as[i]?).isSome := by
  by_cases hi : i < as.size
  · simp [hi, h]
  · simp [hi, h]

namespace Store

/-- The same store under other names. -/
structure Renamed (ρ : Renaming) (st st' : Store) : Prop where
  scopesSize : st'.scopes.size = st.scopes.size
  enclosing : ∀ e, st'.enclosing? e = st.enclosing? e
  values : ∀ e x, st'.read? e (ρ x) = st.read? e x
  valuesOrdinary : ∀ e x v, st.read? e x = some v → v.Ordinary
  functionsSize : st'.functions.size = st.functions.size
  functions : ∀ id, st'.function? id = (st.function? id).map (FunctionObject.rename ρ)
  natives : st'.natives = st.natives
  classesSize : st'.classes.size = st.classes.size
  classes : ∀ c, Option.Rel (ClassObject.Renamed ρ) (st.class? c) (st'.class? c)
  instancesSize : st'.instances.size = st.instances.size
  classOf : ∀ i, (st'.instance? i).map (·.cls) = (st.instance? i).map (·.cls)
  fields : ∀ i x, st'.field? i (ρ x) = st.field? i x
  fieldsOrdinary : ∀ i x v, st.field? i x = some v → v.Ordinary

/-- The name of a class, changed. -/
def classNameAs (ρ : Renaming) (st : Store) (c : ClassId) : String :=
  (st.class? c).elim "" fun cls => ρ cls.name

/-- The text of a value as it is printed, with the names of functions and classes changed. -/
def displayAs (ρ : Renaming) (st : Store) : Value → String
  | .function id => (st.function? id).elim "<fn >" fun f => "<fn " ++ ρ f.name ++ ">"
  | .cls c => st.classNameAs ρ c
  | .inst i => (st.instance? i).elim " instance" fun object => st.classNameAs ρ object.cls ++ " instance"
  | v => st.display v

variable {st st' : Store}

/-- A field changes no class of an instance. -/
theorem map_cls_setField (st : Store) (i j : InstanceId) (x : String) (v : Value) :
    ((st.setField i x v).instance? j).map (·.cls) = (st.instance? j).map (·.cls) := by
  simp only [instance?, setField, Array.getElem?_modify]
  split
  · rw [Option.map_map]
    rfl
  · rfl

namespace Renamed

section

variable (h : st.Renamed ρ st')

include h

/-! ### What is found -/

theorem isSome_scope? (e : ScopeId) : (st'.scope? e).isSome = (st.scope? e).isSome :=
  isSome_getElem?_congr h.scopesSize e.index

theorem isSome_instance? (i : InstanceId) : (st'.instance? i).isSome = (st.instance? i).isSome :=
  isSome_getElem?_congr h.instancesSize i.index

theorem ownerWithin? (x : String) (n : Nat) (e : ScopeId) :
    st'.ownerWithin? (ρ x) n e = st.ownerWithin? x n e := by
  induction n generalizing e with
  | zero => rfl
  | succ n ih => 
    simp only [Store.ownerWithin?, binds, h.values, h.enclosing, ih]
    rfl

theorem owner? (e : ScopeId) (x : String) : st'.owner? e (ρ x) = st.owner? e x := by
  rw [Store.owner?, h.scopesSize, h.ownerWithin?, Store.owner?]

theorem get? (e : ScopeId) (x : String) : st'.get? e (ρ x) = st.get? e x := by
  simp only [Store.get?, h.owner?, h.values]

theorem ancestor? (d : Nat) (e : ScopeId) : st'.ancestor? d e = st.ancestor? d e := by
  induction d generalizing e with
  | zero => rfl
  | succ d ih => simp only [Store.ancestor?, h.enclosing, ih]

theorem scopeAt (e : ScopeId) (d : Int) : st'.scopeAt e d = st.scopeAt e d := by
  rw [Store.scopeAt, h.ancestor?, Store.scopeAt]

theorem getAt (e : ScopeId) (d : Int) (x : String) :
    st'.getAt e d (ρ x) = (st.getAt e d x).mapError (ScopeFault.rename ρ) := by
  unfold Store.getAt
  rw [h.scopeAt]
  cases ha : st.scopeAt e d with
  | error fault =>
    unfold Store.scopeAt at ha
    split at ha
    · cases ha
    · cases ha
      rfl
  | ok a =>
    dsimp only
    rw [h.values]
    cases st.read? a x <;> rfl

theorem getAt_this (e : ScopeId) (d : Int) :
    st'.getAt e d "this" = (st.getAt e d "this").mapError (ScopeFault.rename ρ) := by
  have hthis := h.getAt e d "this"
  rwa [ρ.this] at hthis

theorem getAt_super (e : ScopeId) (d : Int) :
    st'.getAt e d "super" = (st.getAt e d "super").mapError (ScopeFault.rename ρ) := by
  have hsuper := h.getAt e d "super"
  rwa [ρ.super] at hsuper

/-- What a variable is found to be. -/
theorem ordinary_of_getAt {e : ScopeId} {d : Int} {x : String} {v : Value} (hv : st.getAt e d x = .ok v) :
    v.Ordinary := by
  obtain ⟨a, ha⟩ := exists_read?_of_getAt hv
  exact h.valuesOrdinary a x v ha

theorem ordinary_of_get? {e : ScopeId} {x : String} {v : Value} (hv : st.get? e x = some v) :
    v.Ordinary := by
  obtain ⟨a, -, ha⟩ := Option.bind_eq_some_iff.1 hv
  exact h.valuesOrdinary a x v ha

theorem findMethodWithin? (x : String) (n : Nat) (c : ClassId) :
    st'.findMethodWithin? (ρ x) n c = st.findMethodWithin? x n c := by
  induction n generalizing c with
  | zero => rfl
  | succ n ih =>
    have hc := h.classes c
    unfold Store.findMethodWithin?
    revert hc
    generalize st.class? c = cls
    generalize st'.class? c = cls'
    rintro (hc | _)
    · simp only [hc.methods x, hc.superclass, ih]
    · rfl

theorem method? (c : ClassId) (x : String) :
    st'.method? c (ρ x) = (st.method? c x).map (FunctionObject.rename ρ) := by
  unfold Store.method? findMethod?
  rw [h.classesSize, h.findMethodWithin?, Option.map_bind]
  exact congrArg _ (funext h.functions)

theorem initializer? (c : ClassId) :
    st'.initializer? c = (st.initializer? c).map (FunctionObject.rename ρ) := by
  have hm := h.method? c FunctionDecl.initializerName
  rwa [ρ.init] at hm

theorem member? (i : InstanceId) (x : String) :
    st'.member? i (ρ x) = (st.member? i x).map (Member.rename ρ) := by
  have hc := h.classOf i
  unfold Store.member?
  rw [h.fields]
  cases st.field? i x with
  | some v => rfl
  | none =>
    cases ho : st.instance? i with
    | none =>
      rw [ho, Option.map_none, Option.map_eq_none_iff] at hc
      rw [hc]
      rfl
    | some object =>
      rw [ho] at hc
      obtain ⟨object', ho', hcls⟩ := Option.map_eq_some_iff.1 hc
      simp only [ho', Option.bind_some, hcls, h.method?, Option.map_map]
      rfl

theorem callable? (v : Value) : st'.callable? v = (st.callable? v).map (Callable.rename ρ) := by
  cases v with
  | function id =>
    simp only [Store.callable?, h.functions, Option.map_map]
    rfl
  | native id =>
    simp only [Store.callable?, native?, h.natives, Option.map_map]
    rfl
  | cls c =>
    have hc := h.classes c
    show (st'.class? c).map (fun _ => Callable.cls c) =
      ((st.class? c).map fun _ => Callable.cls c).map (Callable.rename ρ)
    revert hc
    generalize st.class? c = cls
    generalize st'.class? c = cls'
    rintro (_ | _) <;> rfl
  | _ => rfl

theorem arity (c : Callable) : st'.arity (c.rename ρ) = st.arity c := by
  cases c with
  | function f => exact congrArg Nat.cast f.declaration.arity_rename
  | native n => rfl
  | cls c =>
    simp only [Store.arity, Callable.rename, h.initializer?]
    cases st.initializer? c with
    | none => rfl
    | some f => exact congrArg Nat.cast f.declaration.arity_rename

theorem className (c : ClassId) : st'.className c = st.classNameAs ρ c := by
  have hc := h.classes c
  unfold Store.className classNameAs
  revert hc
  generalize st.class? c = cls
  generalize st'.class? c = cls'
  rintro (hc | _)
  · exact hc.name
  · rfl

/-- A value is shown with the new names. -/
theorem display {v : Value} (hv : v.Ordinary) : st'.display v = st.displayAs ρ v := by
  cases v with
  | scope e => exact absurd rfl (hv e)
  | function id =>
    simp only [Store.display, displayAs, h.functions]
    cases st.function? id with
    | none => rfl
    | some f =>
      show "<fn " ++ (f.declaration.rename ρ).name.lexeme ++ ">" = _
      rw [FunctionDecl.name_rename]
      rfl
  | cls c => exact h.className c
  | inst i =>
    have hc := h.classOf i
    cases ho : st.instance? i with
    | none =>
      rw [ho, Option.map_none, Option.map_eq_none_iff] at hc
      simp only [Store.display, displayAs, ho, hc, Option.elim_none]
    | some object =>
      rw [ho] at hc
      obtain ⟨object', ho', hcls⟩ := Option.map_eq_some_iff.1 hc
      simp only [Store.display, displayAs, ho, ho', hcls, h.className, Option.elim_some]
  | bool b => cases b <;> rfl
  | _ => rfl

theorem ordinary_of_member? {i : InstanceId} {x : String} {v : Value}
    (hm : st.member? i x = some (.field v)) : v.Ordinary := by
  unfold Store.member? at hm
  split at hm
  · cases hm
    exact h.fieldsOrdinary i x v ‹_›
  · obtain ⟨f, -, hf⟩ := Option.map_eq_some_iff.1 hm
    cases hf

/-! ### What is made and changed -/

theorem define (e : ScopeId) (x : String) {v : Value} (hv : v.Ordinary) :
    (st.define e x v).Renamed ρ (st'.define e (ρ x) v) :=
  { h with
    scopesSize := by simp only [size_define, h.scopesSize]
    enclosing := fun t => by simp only [enclosing?_define, h.enclosing]
    values := fun t y => by
      simp only [read?_define, ρ.eq_iff, h.isSome_scope?, h.values]
    valuesOrdinary := fun t y w hw => by
      rw [read?_define] at hw
      split at hw
      · cases hw
        exact hv
      · exact h.valuesOrdinary t y w hw }

theorem newScope (outer : Option ScopeId) {b b' : Bindings} (hb : b.Renamed ρ b') :
    (st'.newScope ⟨outer, b'⟩).1 = (st.newScope ⟨outer, b⟩).1 ∧
      (st.newScope ⟨outer, b⟩).2.Renamed ρ (st'.newScope ⟨outer, b'⟩).2 := by
  have hid : (st'.newScope ⟨outer, b'⟩).1 = (st.newScope ⟨outer, b⟩).1 :=
    congrArg ScopeId.mk h.scopesSize
  refine ⟨hid, { h with
    scopesSize := by simp only [size_newScope, h.scopesSize]
    enclosing := fun t => by simp only [enclosing?_newScope, hid, h.enclosing]
    values := fun t y => by simp only [read?_newScope, hid, h.values, hb.carries y]
    valuesOrdinary := fun t y w hw => ?_ }⟩
  rw [read?_newScope] at hw
  split at hw
  · exact hb.ordinary y w hw
  · exact h.valuesOrdinary t y w hw

theorem newFunction (f : FunctionObject) :
    (st'.newFunction (f.rename ρ)).1 = (st.newFunction f).1 ∧
      (st.newFunction f).2.Renamed ρ (st'.newFunction (f.rename ρ)).2 := by
  have hid : (st'.newFunction (f.rename ρ)).1 = (st.newFunction f).1 :=
    congrArg FunctionId.mk h.functionsSize
  refine ⟨hid, { h with
    functionsSize := by simp only [Store.newFunction, Array.size_push, h.functionsSize]
    functions := fun id => ?_ }⟩
  rw [function?_newFunction, function?_newFunction, hid, h.functions]
  split <;> rfl

theorem newClass {c c' : ClassObject} (hc : c.Renamed ρ c') :
    (st'.newClass c').1 = (st.newClass c).1 ∧ (st.newClass c).2.Renamed ρ (st'.newClass c').2 := by
  have hid : (st'.newClass c').1 = (st.newClass c).1 := congrArg ClassId.mk h.classesSize
  refine ⟨hid, { h with
    classesSize := by simp only [Store.newClass, Array.size_push, h.classesSize]
    classes := fun d => ?_ }⟩
  rw [class?_newClass, class?_newClass, hid]
  split
  · exact .some hc
  · exact h.classes d

theorem newInstance (c : ClassId) :
    (st'.newInstance c).1 = (st.newInstance c).1 ∧
      (st.newInstance c).2.Renamed ρ (st'.newInstance c).2 := by
  have hid : (st'.newInstance c).1 = (st.newInstance c).1 := congrArg InstanceId.mk h.instancesSize
  refine ⟨hid, { h with
    instancesSize := by simp only [Store.newInstance, Array.size_push, h.instancesSize]
    classOf := fun i => ?_
    fields := fun i x => by simp only [field?_newInstance, hid, h.fields]
    fieldsOrdinary := fun i x v hv => ?_ }⟩
  · rw [instance?_newInstance, instance?_newInstance, hid]
    split
    · rfl
    · exact h.classOf i
  · rw [field?_newInstance] at hv
    split at hv
    · cases hv
    · exact h.fieldsOrdinary i x v hv

theorem setField (i : InstanceId) (x : String) {v : Value} (hv : v.Ordinary) :
    (st.setField i x v).Renamed ρ (st'.setField i (ρ x) v) :=
  { h with
    instancesSize := by simp only [Store.setField, Array.size_modify, h.instancesSize]
    classOf := fun j => by simp only [map_cls_setField, h.classOf]
    fields := fun j y => by simp only [field?_setField, ρ.eq_iff, h.isSome_instance?, h.fields]
    fieldsOrdinary := fun j y w hw => by
      rw [field?_setField] at hw
      split at hw
      · cases hw
        exact hv
      · exact h.fieldsOrdinary j y w hw }

theorem bind (f : FunctionObject) {this : Value} (hthis : this.Ordinary) :
    (st'.bind (f.rename ρ) this).1 = (st.bind f this).1.rename ρ ∧
      (st.bind f this).2.Renamed ρ (st'.bind (f.rename ρ) this).2 := by
  obtain ⟨hid, hnew⟩ := h.newScope (some f.closure) (.singleton ρ.this hthis)
  exact ⟨congrArg (fun e => ({ f.rename ρ with closure := e } : FunctionObject)) hid, hnew⟩

theorem bindValue (f : FunctionObject) {this : Value} (hthis : this.Ordinary) :
    (st'.bindValue (f.rename ρ) this).1 = (st.bindValue f this).1 ∧
      (st.bindValue f this).2.Renamed ρ (st'.bindValue (f.rename ρ) this).2 := by
  obtain ⟨hbound, hst⟩ := h.bind f hthis
  obtain ⟨hid, hmade⟩ := hst.newFunction (st.bind f this).1
  rw [← hbound] at hid hmade
  exact ⟨congrArg Value.function hid, hmade⟩

/-- The scope of a call. -/
theorem newCall (f : FunctionObject) {vs : List Value} (hvs : ∀ v ∈ vs, v.Ordinary) :
    (st'.newScope (Run.callScope (f.rename ρ) vs)).1 = (st.newScope (Run.callScope f vs)).1 ∧
      (st.newScope (Run.callScope f vs)).2.Renamed ρ
        (st'.newScope (Run.callScope (f.rename ρ) vs)).2 := by
  have hb := Bindings.Renamed.empty.bindParams (ρ := ρ) f.declaration.params hvs
  rw [← FunctionDecl.params_rename] at hb
  exact h.newScope (some f.closure) hb

/-! ### Classes -/

theorem methodScope (e : ScopeId) (superclass : Option ClassId) :
    (st'.methodScope e superclass).1 = (st.methodScope e superclass).1 ∧
      (st.methodScope e superclass).2.Renamed ρ (st'.methodScope e superclass).2 := by
  cases superclass with
  | none => exact ⟨rfl, h⟩
  | some c => exact h.newScope (some e) (.singleton ρ.super nofun)

end

theorem newMethods (e : ScopeId) (fs : List FunctionDecl) :
    ∀ {table table' : Std.ExtTreeMap String FunctionId} {st st' : Store}, ρ.Carries table table' →
      st.Renamed ρ st' →
      ρ.Carries (Store.newMethods e table fs st).1
          (Store.newMethods e table' (FunctionDecl.renameAll ρ fs) st').1 ∧
        (Store.newMethods e table fs st).2.Renamed ρ
          (Store.newMethods e table' (FunctionDecl.renameAll ρ fs) st').2 := by
  induction fs with
  | nil => exact fun ht h => ⟨ht, h⟩
  | cons f fs ih =>
    intro table table' st st' ht h
    obtain ⟨hid, hmade⟩ := h.newFunction ⟨f, e, f.name.lexeme = FunctionDecl.initializerName⟩
    have hobject : FunctionObject.rename ρ ⟨f, e, f.name.lexeme = FunctionDecl.initializerName⟩ =
        ⟨f.rename ρ, e, (f.rename ρ).name.lexeme = FunctionDecl.initializerName⟩ := by
      simp only [FunctionObject.rename, FunctionDecl.name_rename, Token.lexeme_rename, ρ.eq_init_iff]
    rw [FunctionDecl.renameAll, Store.newMethods, Store.newMethods, ← hobject, FunctionDecl.name_rename,
      Token.lexeme_rename]
    dsimp only
    rw [hid]
    exact ih (ht.insert f.name.lexeme _) hmade

theorem makeClass (h : st.Renamed ρ st') (x : String) (superclass : Option ClassId)
    (fs : List FunctionDecl) (e : ScopeId) :
    (st'.makeClass (ρ x) superclass (FunctionDecl.renameAll ρ fs) e).1 =
        (st.makeClass x superclass fs e).1 ∧
      (st.makeClass x superclass fs e).2.Renamed ρ
        (st'.makeClass (ρ x) superclass (FunctionDecl.renameAll ρ fs) e).2 := by
  obtain ⟨htable, hmade⟩ := newMethods e fs Renaming.carries_empty h
  exact hmade.newClass ⟨rfl, rfl, htable⟩

end Renamed

end Store

end Lox
