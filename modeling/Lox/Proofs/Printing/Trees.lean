import Mathlib.Data.List.Forall2
import Lox.Syntax.Visitor
import Lox.Proofs.Part
import Lox.Proofs.Printing.Atoms

/-!
# Printed trees are unambiguous

Two nodes are *alike* if they are of the same kind, with the same names, operators and literals and
with children that are alike; identities, lines, and tokens that are never printed may differ.  Nodes
that are alike print alike, and the other way round if all nodes are `Printable`: names are
identifiers, operators are those of their kind of node, only variables are assigned, and literals can
be shown.

A node is printed by way of a `Sexp`, which its text determines.  The `Sexp` tells the kind of the node
by its first word and, where two kinds share a word, by the shape of the rest (`Sexp.kind?`); when the
kinds agree, the items agree one by one.
-/

namespace Lox

/-! ### Printable nodes -/

def binaryOperators : List String := ["+", "-", "*", "/", "==", "!=", "<", "<=", ">", ">="]

def logicalOperators : List String := ["and", "or"]

def unaryOperators : List String := ["!", "-"]

/-- The names, operators and literals of a single node are ones that can be told apart in print. -/
def Part.Printable : Part → Prop
  | expr (.literal _ value) => value.Printable
  | expr (.var ref) => IsIdentifier ref.name.lexeme
  | expr (.assign _ target _ _) => ∃ ref, target = .var ref ∧ IsIdentifier ref.name.lexeme
  | expr (.binary _ _ operator _) => operator.lexeme ∈ binaryOperators
  | expr (.logical _ _ operator _) => operator.lexeme ∈ logicalOperators
  | expr (.unary _ operator _) => operator.lexeme ∈ unaryOperators
  | expr (.get _ _ name) => IsIdentifier name.lexeme
  | expr (.set _ _ name _) => IsIdentifier name.lexeme
  | expr (.super _ _ name) => IsIdentifier name.lexeme
  | stmt (.varDecl _ name _) => IsIdentifier name.lexeme
  | stmt (.function f) => IsIdentifier f.name.lexeme ∧ ∀ p ∈ f.params, IsIdentifier p.lexeme
  | stmt (.classDecl _ name _ _) => IsIdentifier name.lexeme
  | method f => IsIdentifier f.name.lexeme ∧ ∀ p ∈ f.params, IsIdentifier p.lexeme
  | _ => True

/-- A node with all nodes inside of it. -/
def Node.part : Node → Part
  | expr e => .expr e
  | stmt s => .stmt s

def Node.Printable (n : Node) : Prop := n.part.All Part.Printable

/-! ### Nodes that are alike -/

inductive Expr.Alike : Expr → Expr → Prop
  | literal {i j v w} (h : v.Alike w) : Alike (.literal i v) (.literal j w)
  | var {r r'} (h : r.name.lexeme = r'.name.lexeme) : Alike (.var r) (.var r')
  | assign {i j target target' equals equals' value value'} (ht : Alike target target')
      (hv : Alike value value') : Alike (.assign i target equals value) (.assign j target' equals' value')
  | binary {i j left left' op op' right right'} (hl : Alike left left')
      (ho : op.lexeme = op'.lexeme) (hr : Alike right right') :
      Alike (.binary i left op right) (.binary j left' op' right')
  | logical {i j left left' op op' right right'} (hl : Alike left left')
      (ho : op.lexeme = op'.lexeme) (hr : Alike right right') :
      Alike (.logical i left op right) (.logical j left' op' right')
  | unary {i j op op' operand operand'} (ho : op.lexeme = op'.lexeme) (h : Alike operand operand') :
      Alike (.unary i op operand) (.unary j op' operand')
  | grouping {i j e e'} (h : Alike e e') : Alike (.grouping i e) (.grouping j e')
  | call {i j callee callee' paren paren' args args'} (hc : Alike callee callee')
      (ha : List.Forall₂ Alike args args') :
      Alike (.call i callee paren args) (.call j callee' paren' args')
  | get {i j object object' name name'} (ho : Alike object object')
      (hn : name.lexeme = name'.lexeme) : Alike (.get i object name) (.get j object' name')
  | set {i j object object' name name' value value'} (ho : Alike object object')
      (hn : name.lexeme = name'.lexeme) (hv : Alike value value') :
      Alike (.set i object name value) (.set j object' name' value')
  | this {i j keyword keyword'} : Alike (.this i keyword) (.this j keyword')
  | super {i j keyword keyword' method method'} (h : method.lexeme = method'.lexeme) :
      Alike (.super i keyword method) (.super j keyword' method')

mutual

inductive Stmt.Alike : Stmt → Stmt → Prop
  | block {i j body body'} (h : List.Forall₂ Stmt.Alike body body') :
      Stmt.Alike (.block i body) (.block j body')
  | expression {i j e e'} (h : e.Alike e') : Stmt.Alike (.expression i e) (.expression j e')
  | print {i j e e'} (h : e.Alike e') : Stmt.Alike (.print i e) (.print j e')
  | varDecl {i j name name' init init'} (hn : name.lexeme = name'.lexeme)
      (hi : Option.Rel Expr.Alike init init') : Stmt.Alike (.varDecl i name init) (.varDecl j name' init')
  | branch {i j cond cond' thenB thenB' elseB elseB'} (hc : cond.Alike cond')
      (ht : Stmt.Alike thenB thenB') (he : Option.Rel Stmt.Alike elseB elseB') :
      Stmt.Alike (.branch i cond thenB elseB) (.branch j cond' thenB' elseB')
  | loop {i j cond cond' body body'} (hc : cond.Alike cond') (hb : Stmt.Alike body body') :
      Stmt.Alike (.loop i cond body) (.loop j cond' body')
  | function {f f'} (h : FunctionDecl.Alike f f') : Stmt.Alike (.function f) (.function f')
  | ret {i j keyword keyword' value value'} (h : Option.Rel Expr.Alike value value') :
      Stmt.Alike (.ret i keyword value) (.ret j keyword' value')
  | classDecl {i j name name' super super' methods methods'} (hn : name.lexeme = name'.lexeme)
      (hs : Option.Rel (fun r r' => r.name.lexeme = r'.name.lexeme) super super')
      (hm : List.Forall₂ FunctionDecl.Alike methods methods') :
      Stmt.Alike (.classDecl i name super methods) (.classDecl j name' super' methods')

inductive FunctionDecl.Alike : FunctionDecl → FunctionDecl → Prop
  | mk {i j name name' params params' body body'} (hn : name.lexeme = name'.lexeme)
      (hp : params.map (·.lexeme) = params'.map (·.lexeme))
      (hb : List.Forall₂ Stmt.Alike body body') :
      FunctionDecl.Alike ⟨i, name, params, body⟩ ⟨j, name', params', body'⟩

end

inductive Node.Alike : Node → Node → Prop
  | expr {e e'} (h : e.Alike e') : Alike (.expr e) (.expr e')
  | stmt {s s'} (h : s.Alike s') : Alike (.stmt s) (.stmt s')

/-! ### Trees as parenthesized text -/

mutual

def Expr.sexp : Expr → Sexp
  | .literal _ value => .atom value.treeText
  | .var ref => .atom ref.name.lexeme
  | .assign _ target _ value => .list [.atom "=", target.sexp, value.sexp]
  | .binary _ left operator right => .list [.atom operator.lexeme, left.sexp, right.sexp]
  | .logical _ left operator right => .list [.atom operator.lexeme, left.sexp, right.sexp]
  | .unary _ operator operand => .list [.atom operator.lexeme, operand.sexp]
  | .grouping _ inner => .list [.atom "group", inner.sexp]
  | .call _ callee _ arguments => .list (.atom "call" :: callee.sexp :: exprSexps arguments)
  | .get _ object name => .list [.atom ".", object.sexp, .atom name.lexeme]
  | .set _ object name value =>
    .list [.atom "=", .list [.atom ".", object.sexp, .atom name.lexeme], value.sexp]
  | .this .. => .atom "this"
  | .super _ _ method => .list [.atom "super", .atom method.lexeme]

def exprSexps : List Expr → List Sexp
  | [] => []
  | e :: es => e.sexp :: exprSexps es

end

mutual

def Stmt.sexp : Stmt → Sexp
  | .block _ body => .list (.atom "block" :: stmtSexps body)
  | .expression _ e => .list [.atom ";", e.sexp]
  | .print _ e => .list [.atom "print", e.sexp]
  | .varDecl _ name none => .list [.atom "var", .atom name.lexeme]
  | .varDecl _ name (some e) => .list [.atom "var", .atom name.lexeme, e.sexp]
  | .branch _ condition thenBranch none => .list [.atom "if", condition.sexp, thenBranch.sexp]
  | .branch _ condition thenBranch (some elseBranch) =>
    .list [.atom "if-else", condition.sexp, thenBranch.sexp, elseBranch.sexp]
  | .loop _ condition body => .list [.atom "while", condition.sexp, body.sexp]
  | .function f => f.sexp
  | .ret _ _ none => .list [.atom "return"]
  | .ret _ _ (some e) => .list [.atom "return", e.sexp]
  | .classDecl _ name none methods =>
    .list (.atom "class" :: .atom name.lexeme :: functionSexps methods)
  | .classDecl _ name (some superclass) methods =>
    .list (.atom "class" :: .atom name.lexeme :: .atom "<" :: .atom superclass.name.lexeme ::
      functionSexps methods)

def FunctionDecl.sexp : FunctionDecl → Sexp
  | ⟨_, name, params, body⟩ =>
    .list (.atom "fun" :: .atom name.lexeme :: .list (params.map (.atom ·.lexeme)) :: stmtSexps body)

def stmtSexps : List Stmt → List Sexp
  | [] => []
  | s :: ss => s.sexp :: stmtSexps ss

def functionSexps : List FunctionDecl → List Sexp
  | [] => []
  | f :: fs => f.sexp :: functionSexps fs

end

def Node.sexp : Node → Sexp
  | expr e => e.sexp
  | stmt s => s.sexp

section Text

open Sexp (text texts)

mutual

theorem Expr.text_sexp : ∀ e : Expr, text e.sexp = e.render
  | .literal .. => rfl
  | .var _ => rfl
  | .assign _ target _ value => by
    simp [Expr.sexp, Expr.render, text, texts, Expr.text_sexp target, Expr.text_sexp value]
  | .binary _ left _ right => by
    simp [Expr.sexp, Expr.render, text, texts, Expr.text_sexp left, Expr.text_sexp right]
  | .logical _ left _ right => by
    simp [Expr.sexp, Expr.render, text, texts, Expr.text_sexp left, Expr.text_sexp right]
  | .unary _ _ operand => by simp [Expr.sexp, Expr.render, text, texts, Expr.text_sexp operand]
  | .grouping _ inner => by simp [Expr.sexp, Expr.render, text, texts, Expr.text_sexp inner]
  | .call _ callee _ arguments => by
    simp [Expr.sexp, Expr.render, text, texts, Expr.text_sexp callee, texts_exprSexps arguments]
  | .get _ object _ => by simp [Expr.sexp, Expr.render, text, texts, Expr.text_sexp object]
  | .set _ object _ value => by
    simp [Expr.sexp, Expr.render, text, texts, Expr.text_sexp object, Expr.text_sexp value]
  | .this .. => rfl
  | .super .. => rfl

theorem texts_exprSexps : ∀ es : List Expr, texts (exprSexps es) = renderExprs es
  | [] => rfl
  | e :: es => by simp [exprSexps, renderExprs, texts, Expr.text_sexp e, texts_exprSexps es]

end

theorem texts_atoms (params : List Token) :
    texts (params.map (.atom ·.lexeme)) = params.map Token.lexeme := by
  induction params with
  | nil => rfl
  | cons p params ih => exact congrArg (p.lexeme :: ·) ih

mutual

theorem Stmt.text_sexp : ∀ s : Stmt, text s.sexp = s.render
  | .block _ body => by simp [Stmt.sexp, Stmt.render, text, texts, texts_stmtSexps body]
  | .expression _ e => by simp [Stmt.sexp, Stmt.render, text, texts, e.text_sexp]
  | .print _ e => by simp [Stmt.sexp, Stmt.render, text, texts, e.text_sexp]
  | .varDecl _ _ none => rfl
  | .varDecl _ _ (some e) => by simp [Stmt.sexp, Stmt.render, text, texts, e.text_sexp]
  | .branch _ condition thenBranch none => by
    simp [Stmt.sexp, Stmt.render, text, texts, condition.text_sexp, Stmt.text_sexp thenBranch]
  | .branch _ condition thenBranch (some elseBranch) => by
    simp [Stmt.sexp, Stmt.render, text, texts, condition.text_sexp, Stmt.text_sexp thenBranch,
      Stmt.text_sexp elseBranch]
  | .loop _ condition body => by
    simp [Stmt.sexp, Stmt.render, text, texts, condition.text_sexp, Stmt.text_sexp body]
  | .function f => f.text_sexp
  | .ret _ _ none => rfl
  | .ret _ _ (some e) => by simp [Stmt.sexp, Stmt.render, text, texts, e.text_sexp]
  | .classDecl _ _ none methods => by
    simp [Stmt.sexp, Stmt.render, text, texts, texts_functionSexps methods]
  | .classDecl _ _ (some _) methods => by
    simp [Stmt.sexp, Stmt.render, text, texts, texts_functionSexps methods]

theorem FunctionDecl.text_sexp : ∀ f : FunctionDecl, text f.sexp = f.render
  | ⟨_, _, params, body⟩ => by
    simp [FunctionDecl.sexp, FunctionDecl.render, text, texts, texts_stmtSexps body, texts_atoms]

theorem texts_stmtSexps : ∀ ss : List Stmt, texts (stmtSexps ss) = renderStmts ss
  | [] => rfl
  | s :: ss => by simp [stmtSexps, renderStmts, texts, Stmt.text_sexp s, texts_stmtSexps ss]

theorem texts_functionSexps : ∀ fs : List FunctionDecl, texts (functionSexps fs) = renderFunctions fs
  | [] => rfl
  | f :: fs => by
    simp [functionSexps, renderFunctions, texts, FunctionDecl.text_sexp f, texts_functionSexps fs]

end

end Text

theorem Node.text_sexp : ∀ n : Node, n.sexp.text = n.render
  | expr e => e.text_sexp
  | stmt s => s.text_sexp

/-! ### All atoms can be told apart -/

section Readable

open Lox.Part Sexp

theorem plain_of_mem_operators : ∀ x ∈ binaryOperators ++ logicalOperators ++ unaryOperators,
    Plain x.toList := by
  decide

mutual

theorem Expr.readable_sexp : ∀ e : Expr, (expr e).All Printable → e.sexp.Readable
  | .literal _ value, h => .atom (Literal.isAtom_treeText h.self)
  | .var ref, h => .atom (IsIdentifier.isAtom h.self)
  | .assign _ target _ value, h => by
    obtain ⟨ref, rfl, hid⟩ : ∃ ref, target = .var ref ∧ IsIdentifier ref.name.lexeme := h.self
    have hv := Expr.readable_sexp value (h.child 0 rfl)
    exact readable_word (by decide) (by simp [Expr.sexp, Readable.atom hid.isAtom, hv])
  | .binary _ left op right, h => by
    have ho : op.lexeme ∈ binaryOperators := h.self
    have hl := Expr.readable_sexp left (h.child 0 rfl)
    have hr := Expr.readable_sexp right (h.child 1 rfl)
    exact readable_word (plain_of_mem_operators _ (by simp [ho])) (by simp [hl, hr])
  | .logical _ left op right, h => by
    have ho : op.lexeme ∈ logicalOperators := h.self
    have hl := Expr.readable_sexp left (h.child 0 rfl)
    have hr := Expr.readable_sexp right (h.child 1 rfl)
    exact readable_word (plain_of_mem_operators _ (by simp [ho])) (by simp [hl, hr])
  | .unary _ op operand, h => by
    have ho : op.lexeme ∈ unaryOperators := h.self
    have hr := Expr.readable_sexp operand (h.child 0 rfl)
    exact readable_word (plain_of_mem_operators _ (by simp [ho])) (by simp [hr])
  | .grouping _ inner, h => by
    have hi := Expr.readable_sexp inner (h.child 0 rfl)
    exact readable_word (by decide) (by simp [hi])
  | .call _ callee _ arguments, h => by
    have hc := Expr.readable_sexp callee (h.child 0 rfl)
    have ha := readable_exprSexps arguments fun e he =>
      h.of_mem (List.mem_cons_of_mem _ (List.mem_map_of_mem he))
    exact readable_word (by decide) (List.forall_mem_cons.2 ⟨hc, ha⟩)
  | .get _ object name, h => by
    have hn : IsIdentifier name.lexeme := h.self
    have ho := Expr.readable_sexp object (h.child 0 rfl)
    exact readable_word (by decide) (by simp [ho, Readable.atom hn.isAtom])
  | .set _ object name value, h => by
    have hn : IsIdentifier name.lexeme := h.self
    have ho := Expr.readable_sexp object (h.child 0 rfl)
    have hv := Expr.readable_sexp value (h.child 1 rfl)
    have hg : Readable (.list [.atom ".", object.sexp, .atom name.lexeme]) :=
      readable_word (by decide) (by simp [ho, Readable.atom hn.isAtom])
    exact readable_word (by decide) (by simp [hg, hv])
  | .this .., _ => .atom (.inl (by decide))
  | .super _ _ name, h => by
    have hn : IsIdentifier name.lexeme := h.self
    exact readable_word (by decide) (by simp [Readable.atom hn.isAtom])

theorem readable_exprSexps : ∀ es : List Expr, (∀ e ∈ es, (expr e).All Printable) →
    ∀ x ∈ exprSexps es, x.Readable
  | [], _ => by simp [exprSexps]
  | e :: es, h => by
    rw [List.forall_mem_cons] at h
    exact List.forall_mem_cons.2 ⟨Expr.readable_sexp e h.1, readable_exprSexps es h.2⟩

end

theorem readable_params {params : List Token} (h : ∀ p ∈ params, IsIdentifier p.lexeme) :
    Readable (.list (params.map (.atom ·.lexeme))) := by
  refine .list fun x hx => ?_
  obtain ⟨p, hp, rfl⟩ := List.mem_map.1 hx
  exact .atom (h p hp).isAtom

mutual

theorem Stmt.readable_sexp : ∀ s : Stmt, (stmt s).All Printable → s.sexp.Readable
  | .block _ body, h => by
    have hb := readable_stmtSexps body fun s hs => h.of_mem (List.mem_map_of_mem hs)
    exact readable_word (by decide) hb
  | .expression _ e, h => by
    have he := e.readable_sexp (h.child 0 rfl)
    exact readable_word (by decide) (by simp [he])
  | .print _ e, h => by
    have he := e.readable_sexp (h.child 0 rfl)
    exact readable_word (by decide) (by simp [he])
  | .varDecl _ name none, h => by
    have hn : IsIdentifier name.lexeme := h.self
    exact readable_word (by decide) (by simp [Readable.atom hn.isAtom])
  | .varDecl _ name (some e), h => by
    have hn : IsIdentifier name.lexeme := h.self
    have he := e.readable_sexp (h.child 0 rfl)
    exact readable_word (by decide) (by simp [Readable.atom hn.isAtom, he])
  | .branch _ condition thenBranch none, h => by
    have hc := condition.readable_sexp (h.child 0 rfl)
    have ht := Stmt.readable_sexp thenBranch (h.child 1 rfl)
    exact readable_word (by decide) (by simp [hc, ht])
  | .branch _ condition thenBranch (some elseBranch), h => by
    have hc := condition.readable_sexp (h.child 0 rfl)
    have ht := Stmt.readable_sexp thenBranch (h.child 1 rfl)
    have he := Stmt.readable_sexp elseBranch (h.child 2 rfl)
    exact readable_word (by decide) (by simp [hc, ht, he])
  | .loop _ condition body, h => by
    have hc := condition.readable_sexp (h.child 0 rfl)
    have hb := Stmt.readable_sexp body (h.child 1 rfl)
    exact readable_word (by decide) (by simp [hc, hb])
  | .function f, h => FunctionDecl.readable_sexp f (h.method id)
  | .ret _ _ none, _ => readable_word (by decide) (by simp)
  | .ret _ _ (some e), h => by
    have he := e.readable_sexp (h.child 0 rfl)
    exact readable_word (by decide) (by simp [he])
  | .classDecl _ name none methods, h => by
    have hn : IsIdentifier name.lexeme := h.self
    have hm := readable_functionSexps methods fun f hf => h.of_mem (List.mem_map_of_mem hf)
    exact readable_word (by decide) (List.forall_mem_cons.2 ⟨.atom hn.isAtom, hm⟩)
  | .classDecl _ name (some ref) methods, h => by
    have hn : IsIdentifier name.lexeme := h.self
    have hs : IsIdentifier ref.name.lexeme := (h.child 0 rfl).self
    have hm := readable_functionSexps methods fun f hf =>
      h.of_mem (List.mem_cons_of_mem _ (List.mem_map_of_mem hf))
    have hlt : Readable (.atom "<") := .atom (.inl (by decide))
    refine readable_word (by decide) (List.forall_mem_cons.2 ⟨.atom hn.isAtom, ?_⟩)
    exact List.forall_mem_cons.2 ⟨hlt, List.forall_mem_cons.2 ⟨.atom hs.isAtom, hm⟩⟩

theorem FunctionDecl.readable_sexp : ∀ f : FunctionDecl, (method f).All Printable → f.sexp.Readable
  | ⟨_, name, params, body⟩, h => by
    obtain ⟨hn, hp⟩ : IsIdentifier name.lexeme ∧ ∀ p ∈ params, IsIdentifier p.lexeme := h.self
    have hb := readable_stmtSexps body fun s hs => h.of_mem (List.mem_map_of_mem hs)
    refine readable_word (by decide) (List.forall_mem_cons.2 ⟨.atom hn.isAtom, ?_⟩)
    exact List.forall_mem_cons.2 ⟨readable_params hp, hb⟩

theorem readable_stmtSexps : ∀ ss : List Stmt, (∀ s ∈ ss, (stmt s).All Printable) →
    ∀ x ∈ stmtSexps ss, x.Readable
  | [], _ => by simp [stmtSexps]
  | s :: ss, h => by
    rw [List.forall_mem_cons] at h
    exact List.forall_mem_cons.2 ⟨Stmt.readable_sexp s h.1, readable_stmtSexps ss h.2⟩

theorem readable_functionSexps : ∀ fs : List FunctionDecl, (∀ f ∈ fs, (method f).All Printable) →
    ∀ x ∈ functionSexps fs, x.Readable
  | [], _ => by simp [functionSexps]
  | f :: fs, h => by
    rw [List.forall_mem_cons] at h
    exact List.forall_mem_cons.2 ⟨FunctionDecl.readable_sexp f h.1, readable_functionSexps fs h.2⟩

end

theorem Node.readable_sexp {n : Node} (h : n.Printable) : n.sexp.Readable := by
  cases n with
  | expr e => exact e.readable_sexp h
  | stmt s => exact s.readable_sexp h

end Readable

/-! ### The kind of a node, read off its text -/

/-- The words that only nodes of one kind start with. -/
def kindWords : List (String × NodeKind) :=
  [("and", .logicalOp), ("or", .logicalOp), ("group", .grouping), ("call", .call), (".", .getProperty),
   ("super", .super), ("block", .block), (";", .expressionStatement), ("print", .printStatement),
   ("var", .varDecl), ("if", .ifStatement), ("if-else", .ifStatement), ("while", .whileStatement),
   ("fun", .functionDef), ("return", .returnStatement), ("class", .classDef)]

/-- The kind of a node that starts with an operator.  The minus sign belongs to two kinds, told apart by
the number of operands; and so does the equals sign, told apart by what is assigned. -/
def operatorKind (operator : String) : List Sexp → NodeKind
  | [_] => .unaryOp
  | .list _ :: _ => if operator = "=" then .setProperty else .binaryOp
  | _ => if operator = "=" then .assign else .binaryOp

def Sexp.kind? : Sexp → Option NodeKind
  | .atom x => some (if x = "this" then .this else if IsIdentifier x then .varRef else .literal)
  | .list (.atom word :: items) => some ((kindWords.lookup word).getD (operatorKind word items))
  | .list _ => none

section Kind

open Lox.Part

theorem Literal.not_isIdentifier_treeText {v : Literal} (h : v.Printable) :
    v.treeText ≠ "this" ∧ ¬ IsIdentifier v.treeText := by
  by_cases hn : v.isNumber
  · have hnum := isNumeral_treeText h hn
    refine ⟨fun hthis => ?_, hnum.not_isIdentifier⟩
    obtain ⟨c, rest, hc, hd, -⟩ := hnum
    rw [hthis] at hc
    obtain rfl : 't' = c := (List.cons.inj hc).1
    exact absurd hd (by decide)
  · cases v with
    | nil => decide
    | bool b => cases b <;> decide
    | string s =>
      have hq := toList_treeText_string s
      constructor
      · intro hthis
        rw [hthis] at hq
        exact absurd (List.cons.inj hq).1 (by decide)
      · intro hid
        exact absurd (hid.chars '"' (hq ▸ List.mem_cons_self)) (by decide)
    | _ => exact absurd rfl hn

theorem IsIdentifier.ne_this {x : String} (h : IsIdentifier x) : x ≠ "this" := by
  rintro rfl
  exact absurd h (by decide)

theorem kind?_binary : ∀ x ∈ binaryOperators, ∀ left right : Sexp,
    Sexp.kind? (.list [.atom x, left, right]) = some .binaryOp := by
  have hwords : ∀ x ∈ binaryOperators, kindWords.lookup x = none ∧ x ≠ "=" := by decide
  intro x hx left right
  obtain ⟨hl, hne⟩ := hwords x hx
  cases left <;> simp [Sexp.kind?, hl, operatorKind, hne]

theorem kind?_logical : ∀ x ∈ logicalOperators, ∀ items : List Sexp,
    Sexp.kind? (.list (.atom x :: items)) = some .logicalOp := by
  have hwords : ∀ x ∈ logicalOperators, kindWords.lookup x = some .logicalOp := by decide
  intro x hx items
  simp [Sexp.kind?, hwords x hx]

theorem kind?_unary : ∀ x ∈ unaryOperators, ∀ operand : Sexp,
    Sexp.kind? (.list [.atom x, operand]) = some .unaryOp := by
  have hwords : ∀ x ∈ unaryOperators, kindWords.lookup x = none := by decide
  intro x hx operand
  simp [Sexp.kind?, hwords x hx, operatorKind]

theorem Expr.kind?_sexp (e : Expr) (h : Printable (.expr e)) : e.sexp.kind? = some e.kind := by
  cases e with
  | literal id v =>
    obtain ⟨hthis, hid⟩ := Literal.not_isIdentifier_treeText h
    simp [sexp, Sexp.kind?, kind, hthis, hid]
  | var ref =>
    have hid : IsIdentifier ref.name.lexeme := h
    simp [sexp, Sexp.kind?, kind, hid, hid.ne_this]
  | assign id target equals value =>
    obtain ⟨ref, rfl, -⟩ := h
    rfl
  | binary id left op right => exact kind?_binary op.lexeme h left.sexp right.sexp
  | logical id left op right => exact kind?_logical op.lexeme h _
  | unary id op operand => exact kind?_unary op.lexeme h operand.sexp
  | grouping id inner => rfl
  | call id callee paren arguments => rfl
  | get id object name => rfl
  | set id object name value => rfl
  | this id keyword => rfl
  | super id keyword method => rfl

theorem Stmt.kind?_sexp (s : Stmt) : s.sexp.kind? = some s.kind := by
  cases s with
  | varDecl id name init => cases init <;> rfl
  | branch id condition thenBranch elseBranch => cases elseBranch <;> rfl
  | ret id keyword value => cases value <;> rfl
  | function f => obtain ⟨id, name, params, body⟩ := f; rfl
  | classDecl id name superclass methods => cases superclass <;> rfl
  | _ => rfl

/-- Expressions and statements are of different kinds. -/
theorem Expr.kind_ne_kind (e : Expr) (s : Stmt) : e.kind ≠ s.kind := by
  cases e <;> cases s <;> simp [Expr.kind, Stmt.kind]

theorem Expr.kind_eq_of_sexp_eq {e e' : Expr} (h : (Part.expr e).All Printable)
    (h' : (Part.expr e').All Printable) (hs : e.sexp = e'.sexp) : e.kind = e'.kind := by
  have hk := e.kind?_sexp h.self
  rw [hs, e'.kind?_sexp h'.self] at hk
  exact (Option.some.inj hk).symm

theorem Stmt.kind_eq_of_sexp_eq {s s' : Stmt} (h : s.sexp = s'.sexp) : s.kind = s'.kind := by
  have hk := s.kind?_sexp
  rw [h, s'.kind?_sexp] at hk
  exact (Option.some.inj hk).symm

end Kind

/-! ### Nodes of one text are alike -/

section Alike

open Lox.Part

mutual

theorem Expr.alike_of_sexp_eq : ∀ (e e' : Expr), (expr e).All Printable → (expr e').All Printable →
    e.sexp = e'.sexp → e.Alike e'
  | .literal _ v, e', h, h', hs => by
    have hk := Expr.kind_eq_of_sexp_eq h h' hs
    cases e' with
    | literal j w =>
      exact .literal (Literal.alike_of_treeText_eq h.self h'.self (Sexp.atom.inj hs))
    | _ => cases hk
  | .var ref, e', h, h', hs => by
    have hk := Expr.kind_eq_of_sexp_eq h h' hs
    cases e' with
    | var ref' => exact .var (Sexp.atom.inj hs)
    | _ => cases hk
  | .assign _ target _ value, e', h, h', hs => by
    have hk := Expr.kind_eq_of_sexp_eq h h' hs
    cases e' with
    | assign j target' equals' value' =>
      obtain ⟨ref, rfl, -⟩ : ∃ ref, target = .var ref ∧ IsIdentifier ref.name.lexeme := h.self
      obtain ⟨ref', rfl, -⟩ : ∃ ref, target' = .var ref ∧ IsIdentifier ref.name.lexeme := h'.self
      obtain ⟨ht, hv⟩ : ref.name.lexeme = ref'.name.lexeme ∧ value.sexp = value'.sexp := by
        simpa [Expr.sexp] using hs
      exact .assign (.var ht) (Expr.alike_of_sexp_eq value value' (h.child 0 rfl) (h'.child 0 rfl) hv)
    | _ => cases hk
  | .binary _ left op right, e', h, h', hs => by
    have hk := Expr.kind_eq_of_sexp_eq h h' hs
    cases e' with
    | binary j left' op' right' =>
      obtain ⟨ho, hl, hr⟩ : op.lexeme = op'.lexeme ∧ left.sexp = left'.sexp ∧
          right.sexp = right'.sexp := by simpa [Expr.sexp] using hs
      exact .binary (Expr.alike_of_sexp_eq left left' (h.child 0 rfl) (h'.child 0 rfl) hl) ho
        (Expr.alike_of_sexp_eq right right' (h.child 1 rfl) (h'.child 1 rfl) hr)
    | _ => cases hk
  | .logical _ left op right, e', h, h', hs => by
    have hk := Expr.kind_eq_of_sexp_eq h h' hs
    cases e' with
    | logical j left' op' right' =>
      obtain ⟨ho, hl, hr⟩ : op.lexeme = op'.lexeme ∧ left.sexp = left'.sexp ∧
          right.sexp = right'.sexp := by simpa [Expr.sexp] using hs
      exact .logical (Expr.alike_of_sexp_eq left left' (h.child 0 rfl) (h'.child 0 rfl) hl) ho
        (Expr.alike_of_sexp_eq right right' (h.child 1 rfl) (h'.child 1 rfl) hr)
    | _ => cases hk
  | .unary _ op operand, e', h, h', hs => by
    have hk := Expr.kind_eq_of_sexp_eq h h' hs
    cases e' with
    | unary j op' operand' =>
      obtain ⟨ho, hx⟩ : op.lexeme = op'.lexeme ∧ operand.sexp = operand'.sexp := by
        simpa [Expr.sexp] using hs
      exact .unary ho (Expr.alike_of_sexp_eq operand operand' (h.child 0 rfl) (h'.child 0 rfl) hx)
    | _ => cases hk
  | .grouping _ inner, e', h, h', hs => by
    have hk := Expr.kind_eq_of_sexp_eq h h' hs
    cases e' with
    | grouping j inner' =>
      have hi : inner.sexp = inner'.sexp := by simpa [Expr.sexp] using hs
      exact .grouping (Expr.alike_of_sexp_eq inner inner' (h.child 0 rfl) (h'.child 0 rfl) hi)
    | _ => cases hk
  | .call _ callee _ args, e', h, h', hs => by
    have hk := Expr.kind_eq_of_sexp_eq h h' hs
    cases e' with
    | call j callee' paren' args' =>
      obtain ⟨hc, ha⟩ : callee.sexp = callee'.sexp ∧ exprSexps args = exprSexps args' := by
        simpa [Expr.sexp] using hs
      refine .call (Expr.alike_of_sexp_eq callee callee' (h.child 0 rfl) (h'.child 0 rfl) hc)
        (alike_of_exprSexps_eq args args' (fun e he => ?_) (fun e he => ?_) ha)
      · exact h.of_mem (List.mem_cons_of_mem _ (List.mem_map_of_mem he))
      · exact h'.of_mem (List.mem_cons_of_mem _ (List.mem_map_of_mem he))
    | _ => cases hk
  | .get _ object name, e', h, h', hs => by
    have hk := Expr.kind_eq_of_sexp_eq h h' hs
    cases e' with
    | get j object' name' =>
      obtain ⟨ho, hn⟩ : object.sexp = object'.sexp ∧ name.lexeme = name'.lexeme := by
        simpa [Expr.sexp] using hs
      exact .get (Expr.alike_of_sexp_eq object object' (h.child 0 rfl) (h'.child 0 rfl) ho) hn
    | _ => cases hk
  | .set _ object name value, e', h, h', hs => by
    have hk := Expr.kind_eq_of_sexp_eq h h' hs
    cases e' with
    | set j object' name' value' =>
      obtain ⟨⟨ho, hn⟩, hv⟩ : (object.sexp = object'.sexp ∧ name.lexeme = name'.lexeme) ∧
          value.sexp = value'.sexp := by simpa [Expr.sexp] using hs
      exact .set (Expr.alike_of_sexp_eq object object' (h.child 0 rfl) (h'.child 0 rfl) ho) hn
        (Expr.alike_of_sexp_eq value value' (h.child 1 rfl) (h'.child 1 rfl) hv)
    | _ => cases hk
  | .this .., e', h, h', hs => by
    have hk := Expr.kind_eq_of_sexp_eq h h' hs
    cases e' with
    | this j keyword' => exact .this
    | _ => cases hk
  | .super _ _ name, e', h, h', hs => by
    have hk := Expr.kind_eq_of_sexp_eq h h' hs
    cases e' with
    | super j keyword' name' => exact .super (by simpa [Expr.sexp] using hs)
    | _ => cases hk

theorem alike_of_exprSexps_eq : ∀ (es es' : List Expr), (∀ e ∈ es, (expr e).All Printable) →
    (∀ e ∈ es', (expr e).All Printable) → exprSexps es = exprSexps es' →
    List.Forall₂ Expr.Alike es es'
  | [], [], _, _, _ => .nil
  | [], _ :: _, _, _, hs => by cases hs
  | _ :: _, [], _, _, hs => by cases hs
  | e :: es, e' :: es', h, h', hs => by
    rw [List.forall_mem_cons] at h h'
    obtain ⟨he, hes⟩ := List.cons.inj hs
    exact .cons (Expr.alike_of_sexp_eq e e' h.1 h'.1 he) (alike_of_exprSexps_eq es es' h.2 h'.2 hes)

end

theorem lexemes_eq_of_atoms_eq {params params' : List Token}
    (h : params.map (Sexp.atom ·.lexeme) = params'.map (Sexp.atom ·.lexeme)) :
    params.map (·.lexeme) = params'.map (·.lexeme) := by
  have hinj : Function.Injective Sexp.atom := fun _ _ => Sexp.atom.inj
  refine List.map_injective_iff.2 hinj ?_
  rw [List.map_map, List.map_map]
  exact h

/-- Methods are printed as lists, so the sign of a superclass is not taken for a method. -/
theorem functionSexps_ne_superclass (fs : List FunctionDecl) (x : String) (rest : List Sexp) :
    functionSexps fs ≠ .atom x :: rest := by
  cases fs with
  | nil => simp [functionSexps]
  | cons f fs =>
    obtain ⟨id, name, params, body⟩ := f
    simp [functionSexps, FunctionDecl.sexp]

mutual

theorem Stmt.alike_of_sexp_eq : ∀ (s s' : Stmt), (stmt s).All Printable → (stmt s').All Printable →
    s.sexp = s'.sexp → s.Alike s'
  | .block _ body, s', h, h', hs => by
    have hk := Stmt.kind_eq_of_sexp_eq hs
    cases s' with
    | block j body' =>
      have hb : stmtSexps body = stmtSexps body' := by simpa [Stmt.sexp] using hs
      exact .block (alike_of_stmtSexps_eq body body' (fun s hm => h.of_mem (List.mem_map_of_mem hm))
        (fun s hm => h'.of_mem (List.mem_map_of_mem hm)) hb)
    | _ => cases hk
  | .expression _ e, s', h, h', hs => by
    have hk := Stmt.kind_eq_of_sexp_eq hs
    cases s' with
    | expression j e' =>
      have he : e.sexp = e'.sexp := by simpa [Stmt.sexp] using hs
      exact .expression (e.alike_of_sexp_eq e' (h.child 0 rfl) (h'.child 0 rfl) he)
    | _ => cases hk
  | .print _ e, s', h, h', hs => by
    have hk := Stmt.kind_eq_of_sexp_eq hs
    cases s' with
    | print j e' =>
      have he : e.sexp = e'.sexp := by simpa [Stmt.sexp] using hs
      exact .print (e.alike_of_sexp_eq e' (h.child 0 rfl) (h'.child 0 rfl) he)
    | _ => cases hk
  | .varDecl _ name init, s', h, h', hs => by
    have hk := Stmt.kind_eq_of_sexp_eq hs
    cases s' with
    | varDecl j name' init' =>
      cases init with
      | none =>
        cases init' with
        | none => exact .varDecl (by simpa [Stmt.sexp] using hs) .none
        | some e' => simp [Stmt.sexp] at hs
      | some e =>
        cases init' with
        | none => simp [Stmt.sexp] at hs
        | some e' =>
          obtain ⟨hn, he⟩ : name.lexeme = name'.lexeme ∧ e.sexp = e'.sexp := by
            simpa [Stmt.sexp] using hs
          exact .varDecl hn (.some (e.alike_of_sexp_eq e' (h.child 0 rfl) (h'.child 0 rfl) he))
    | _ => cases hk
  | .branch _ cond thenB none, s', h, h', hs => by
    have hk := Stmt.kind_eq_of_sexp_eq hs
    cases s' with
    | branch j cond' thenB' elseB' =>
      cases elseB' with
      | none =>
        obtain ⟨hc, ht⟩ : cond.sexp = cond'.sexp ∧ thenB.sexp = thenB'.sexp := by
          simpa [Stmt.sexp] using hs
        exact .branch (cond.alike_of_sexp_eq cond' (h.child 0 rfl) (h'.child 0 rfl) hc)
          (Stmt.alike_of_sexp_eq thenB thenB' (h.child 1 rfl) (h'.child 1 rfl) ht) .none
      | some e' => simp [Stmt.sexp] at hs
    | _ => cases hk
  | .branch _ cond thenB (some elseB), s', h, h', hs => by
    have hk := Stmt.kind_eq_of_sexp_eq hs
    cases s' with
    | branch j cond' thenB' elseB' =>
      cases elseB' with
      | none => simp [Stmt.sexp] at hs
      | some elseB' =>
        obtain ⟨hc, ht, he⟩ : cond.sexp = cond'.sexp ∧ thenB.sexp = thenB'.sexp ∧
            elseB.sexp = elseB'.sexp := by simpa [Stmt.sexp] using hs
        exact .branch (cond.alike_of_sexp_eq cond' (h.child 0 rfl) (h'.child 0 rfl) hc)
          (Stmt.alike_of_sexp_eq thenB thenB' (h.child 1 rfl) (h'.child 1 rfl) ht)
          (.some (Stmt.alike_of_sexp_eq elseB elseB' (h.child 2 rfl) (h'.child 2 rfl) he))
    | _ => cases hk
  | .loop _ cond body, s', h, h', hs => by
    have hk := Stmt.kind_eq_of_sexp_eq hs
    cases s' with
    | loop j cond' body' =>
      obtain ⟨hc, hb⟩ : cond.sexp = cond'.sexp ∧ body.sexp = body'.sexp := by
        simpa [Stmt.sexp] using hs
      exact .loop (cond.alike_of_sexp_eq cond' (h.child 0 rfl) (h'.child 0 rfl) hc)
        (Stmt.alike_of_sexp_eq body body' (h.child 1 rfl) (h'.child 1 rfl) hb)
    | _ => cases hk
  | .function f, s', h, h', hs => by
    have hk := Stmt.kind_eq_of_sexp_eq hs
    cases s' with
    | function f' =>
      exact .function (FunctionDecl.alike_of_sexp_eq f f' (h.method id) (h'.method id) hs)
    | _ => cases hk
  | .ret _ _ value, s', h, h', hs => by
    have hk := Stmt.kind_eq_of_sexp_eq hs
    cases s' with
    | ret j keyword' value' =>
      cases value with
      | none =>
        cases value' with
        | none => exact .ret .none
        | some e' => simp [Stmt.sexp] at hs
      | some e =>
        cases value' with
        | none => simp [Stmt.sexp] at hs
        | some e' =>
          have he : e.sexp = e'.sexp := by simpa [Stmt.sexp] using hs
          exact .ret (.some (e.alike_of_sexp_eq e' (h.child 0 rfl) (h'.child 0 rfl) he))
    | _ => cases hk
  | .classDecl _ name superclass methods, s', h, h', hs => by
    have hk := Stmt.kind_eq_of_sexp_eq hs
    cases s' with
    | classDecl j name' superclass' methods' =>
      have hm := alike_of_functionSexps_eq methods methods'
        (fun f hf => h.of_mem (List.mem_append_right _ (List.mem_map_of_mem hf)))
        (fun f hf => h'.of_mem (List.mem_append_right _ (List.mem_map_of_mem hf)))
      cases superclass with
      | none =>
        cases superclass' with
        | none =>
          obtain ⟨hn, hf⟩ : name.lexeme = name'.lexeme ∧
              functionSexps methods = functionSexps methods' := by simpa [Stmt.sexp] using hs
          exact .classDecl hn .none (hm hf)
        | some ref' =>
          have hf := (List.cons.inj (List.cons.inj (Sexp.list.inj hs)).2).2
          exact absurd hf (functionSexps_ne_superclass methods _ _)
      | some ref =>
        cases superclass' with
        | none =>
          have hf := (List.cons.inj (List.cons.inj (Sexp.list.inj hs)).2).2
          exact absurd hf.symm (functionSexps_ne_superclass methods' _ _)
        | some ref' =>
          obtain ⟨hn, hr, hf⟩ : name.lexeme = name'.lexeme ∧ ref.name.lexeme = ref'.name.lexeme ∧
              functionSexps methods = functionSexps methods' := by simpa [Stmt.sexp] using hs
          exact .classDecl hn (.some hr) (hm hf)
    | _ => cases hk

theorem FunctionDecl.alike_of_sexp_eq : ∀ (f f' : FunctionDecl), (method f).All Printable →
    (method f').All Printable → f.sexp = f'.sexp → f.Alike f'
  | ⟨_, name, params, body⟩, ⟨_, name', params', body'⟩, h, h', hs => by
    obtain ⟨hn, hp, hb⟩ : name.lexeme = name'.lexeme ∧
        params.map (Sexp.atom ·.lexeme) = params'.map (Sexp.atom ·.lexeme) ∧
        stmtSexps body = stmtSexps body' := by simpa [FunctionDecl.sexp] using hs
    exact .mk hn (lexemes_eq_of_atoms_eq hp) (alike_of_stmtSexps_eq body body'
      (fun s hm => h.of_mem (List.mem_map_of_mem hm))
      (fun s hm => h'.of_mem (List.mem_map_of_mem hm)) hb)

theorem alike_of_stmtSexps_eq : ∀ (ss ss' : List Stmt), (∀ s ∈ ss, (stmt s).All Printable) →
    (∀ s ∈ ss', (stmt s).All Printable) → stmtSexps ss = stmtSexps ss' →
    List.Forall₂ Stmt.Alike ss ss'
  | [], [], _, _, _ => .nil
  | [], _ :: _, _, _, hs => by cases hs
  | _ :: _, [], _, _, hs => by cases hs
  | s :: ss, s' :: ss', h, h', hs => by
    rw [List.forall_mem_cons] at h h'
    obtain ⟨hx, hxs⟩ := List.cons.inj hs
    exact .cons (Stmt.alike_of_sexp_eq s s' h.1 h'.1 hx) (alike_of_stmtSexps_eq ss ss' h.2 h'.2 hxs)

theorem alike_of_functionSexps_eq : ∀ (fs fs' : List FunctionDecl),
    (∀ f ∈ fs, (method f).All Printable) → (∀ f ∈ fs', (method f).All Printable) →
    functionSexps fs = functionSexps fs' → List.Forall₂ FunctionDecl.Alike fs fs'
  | [], [], _, _, _ => .nil
  | [], _ :: _, _, _, hs => by cases hs
  | _ :: _, [], _, _, hs => by cases hs
  | f :: fs, f' :: fs', h, h', hs => by
    rw [List.forall_mem_cons] at h h'
    obtain ⟨hx, hxs⟩ := List.cons.inj hs
    exact .cons (FunctionDecl.alike_of_sexp_eq f f' h.1 h'.1 hx)
      (alike_of_functionSexps_eq fs fs' h.2 h'.2 hxs)

end

theorem Node.alike_of_sexp_eq {n n' : Node} (h : n.Printable) (h' : n'.Printable)
    (hs : n.sexp = n'.sexp) : n.Alike n' := by
  cases n with
  | expr e =>
    cases n' with
    | expr e' => exact .expr (e.alike_of_sexp_eq e' h h' hs)
    | stmt s' =>
      have hk := e.kind?_sexp h.self
      rw [show e.sexp = s'.sexp from hs, s'.kind?_sexp] at hk
      exact absurd (Option.some.inj hk).symm (e.kind_ne_kind s')
  | stmt s =>
    cases n' with
    | expr e' =>
      have hk := e'.kind?_sexp h'.self
      rw [← show s.sexp = e'.sexp from hs, s.kind?_sexp] at hk
      exact absurd (Option.some.inj hk).symm (e'.kind_ne_kind s)
    | stmt s' => exact .stmt (s.alike_of_sexp_eq s' h h' hs)

end Alike

/-! ### Nodes that are alike have one text -/

mutual

theorem Expr.sexp_eq_of_alike : ∀ (e e' : Expr), e.Alike e' → e.sexp = e'.sexp
  | .literal .., _, .literal h => congrArg Sexp.atom h.treeText_eq
  | .var _, _, .var h => congrArg Sexp.atom h
  | .assign _ target _ value, _, .assign ht hv => by
    simp [Expr.sexp, Expr.sexp_eq_of_alike target _ ht, Expr.sexp_eq_of_alike value _ hv]
  | .binary _ left _ right, _, .binary hl ho hr => by
    simp [Expr.sexp, ho, Expr.sexp_eq_of_alike left _ hl, Expr.sexp_eq_of_alike right _ hr]
  | .logical _ left _ right, _, .logical hl ho hr => by
    simp [Expr.sexp, ho, Expr.sexp_eq_of_alike left _ hl, Expr.sexp_eq_of_alike right _ hr]
  | .unary _ _ operand, _, .unary ho h => by
    simp [Expr.sexp, ho, Expr.sexp_eq_of_alike operand _ h]
  | .grouping _ inner, _, .grouping h => by
    simp [Expr.sexp, Expr.sexp_eq_of_alike inner _ h]
  | .call _ callee _ args, _, .call hc ha => by
    simp [Expr.sexp, Expr.sexp_eq_of_alike callee _ hc, exprSexps_eq_of_alike args _ ha]
  | .get _ object _, _, .get ho hn => by
    simp [Expr.sexp, hn, Expr.sexp_eq_of_alike object _ ho]
  | .set _ object _ value, _, .set ho hn hv => by
    simp [Expr.sexp, hn, Expr.sexp_eq_of_alike object _ ho, Expr.sexp_eq_of_alike value _ hv]
  | .this .., _, .this => rfl
  | .super .., _, .super h => by simp [Expr.sexp, h]

theorem exprSexps_eq_of_alike : ∀ (es es' : List Expr), List.Forall₂ Expr.Alike es es' →
    exprSexps es = exprSexps es'
  | [], _, .nil => rfl
  | e :: es, _, .cons he hes => by
    simp [exprSexps, Expr.sexp_eq_of_alike e _ he, exprSexps_eq_of_alike es _ hes]

end

theorem atoms_eq_of_lexemes_eq {params params' : List Token}
    (h : params.map (·.lexeme) = params'.map (·.lexeme)) :
    params.map (Sexp.atom ·.lexeme) = params'.map (Sexp.atom ·.lexeme) := by
  have hmap := congrArg (List.map Sexp.atom) h
  rw [List.map_map, List.map_map] at hmap
  exact hmap

mutual

theorem Stmt.sexp_eq_of_alike : ∀ (s s' : Stmt), s.Alike s' → s.sexp = s'.sexp
  | .block _ body, _, .block h => by simp [Stmt.sexp, stmtSexps_eq_of_alike body _ h]
  | .expression _ e, _, .expression h => by simp [Stmt.sexp, e.sexp_eq_of_alike _ h]
  | .print _ e, _, .print h => by simp [Stmt.sexp, e.sexp_eq_of_alike _ h]
  | .varDecl _ _ none, _, .varDecl hn .none => by simp [Stmt.sexp, hn]
  | .varDecl _ _ (some e), _, .varDecl hn (.some he) => by
    simp [Stmt.sexp, hn, e.sexp_eq_of_alike _ he]
  | .branch _ cond thenB none, _, .branch hc ht .none => by
    simp [Stmt.sexp, cond.sexp_eq_of_alike _ hc, Stmt.sexp_eq_of_alike thenB _ ht]
  | .branch _ cond thenB (some elseB), _, .branch hc ht (.some he) => by
    simp [Stmt.sexp, cond.sexp_eq_of_alike _ hc, Stmt.sexp_eq_of_alike thenB _ ht,
      Stmt.sexp_eq_of_alike elseB _ he]
  | .loop _ cond body, _, .loop hc hb => by
    simp [Stmt.sexp, cond.sexp_eq_of_alike _ hc, Stmt.sexp_eq_of_alike body _ hb]
  | .function f, _, .function h => FunctionDecl.sexp_eq_of_alike f _ h
  | .ret _ _ none, _, .ret .none => rfl
  | .ret _ _ (some e), _, .ret (.some h) => by simp [Stmt.sexp, e.sexp_eq_of_alike _ h]
  | .classDecl _ _ none methods, _, .classDecl hn .none hm => by
    simp [Stmt.sexp, hn, functionSexps_eq_of_alike methods _ hm]
  | .classDecl _ _ (some _) methods, _, .classDecl hn (.some hs) hm => by
    simp [Stmt.sexp, hn, hs, functionSexps_eq_of_alike methods _ hm]

theorem FunctionDecl.sexp_eq_of_alike : ∀ (f f' : FunctionDecl), f.Alike f' → f.sexp = f'.sexp
  | ⟨_, _, _, body⟩, _, .mk hn hp hb => by
    simp [FunctionDecl.sexp, hn, atoms_eq_of_lexemes_eq hp, stmtSexps_eq_of_alike body _ hb]

theorem stmtSexps_eq_of_alike : ∀ (ss ss' : List Stmt), List.Forall₂ Stmt.Alike ss ss' →
    stmtSexps ss = stmtSexps ss'
  | [], _, .nil => rfl
  | s :: ss, _, .cons hs hss => by
    simp [stmtSexps, Stmt.sexp_eq_of_alike s _ hs, stmtSexps_eq_of_alike ss _ hss]

theorem functionSexps_eq_of_alike : ∀ (fs fs' : List FunctionDecl),
    List.Forall₂ FunctionDecl.Alike fs fs' → functionSexps fs = functionSexps fs'
  | [], _, .nil => rfl
  | f :: fs, _, .cons hf hfs => by
    simp [functionSexps, FunctionDecl.sexp_eq_of_alike f _ hf, functionSexps_eq_of_alike fs _ hfs]

end

theorem Node.sexp_eq_of_alike {n n' : Node} (h : n.Alike n') : n.sexp = n'.sexp := by
  cases h with
  | expr h => exact Expr.sexp_eq_of_alike _ _ h
  | stmt h => exact Stmt.sexp_eq_of_alike _ _ h

/-- Nodes that can be told apart in print have the same text only if they are alike. -/
theorem Node.render_eq_iff_alike {n n' : Node} (h : n.Printable) (h' : n'.Printable) :
    n.render = n'.render ↔ n.Alike n' := by
  constructor
  · intro heq
    rw [← n.text_sexp, ← n'.text_sexp] at heq
    exact Node.alike_of_sexp_eq h h' (Sexp.text_inj (Node.readable_sexp h) (Node.readable_sexp h') heq)
  · intro ha
    rw [← n.text_sexp, ← n'.text_sexp, Node.sexp_eq_of_alike ha]

/-- The class `class A < B { m(x) { return ")("; } }`, with nodes numbered from `id`. -/
def sampleClass (line : Int) (id : NodeId) : Stmt :=
  let name (x : String) : Token := ⟨.identifier, x, .nil, line⟩
  .classDecl id (name "A") (some ⟨id + 1, name "B"⟩)
    [⟨id + 2, name "m", [name "x"],
      [.ret (id + 3) ⟨.kwReturn, "return", .nil, line⟩ (some (.literal (id + 4) (.string ")(")))]⟩]

theorem sampleClass_printable (line : Int) (id : NodeId) : (Node.stmt (sampleClass line id)).Printable := by
  have hids : ∀ x ∈ ["A", "B", "m", "x"], IsIdentifier x := by decide
  simp only [List.forall_mem_cons] at hids
  obtain ⟨hA, hB, hm, hx, -⟩ := hids
  refine .of_children hA (List.forall_mem_cons.2 ⟨.of_children hB (by simp [Part.children,
    Expr.children]), List.forall_mem_singleton.2 ?_⟩)
  refine .of_children ⟨hm, by simpa using hx⟩ (List.forall_mem_singleton.2 ?_)
  refine .of_children trivial (List.forall_mem_singleton.2 (.of_children ?_ ?_))
  · show '"' ∉ ")(".toList
    decide
  · simp [Part.children, Expr.children]

theorem sampleClass_alike : (Node.stmt (sampleClass 1 0)).Printable ∧
    (Node.stmt (sampleClass 7 20)).Printable ∧
    (Node.stmt (sampleClass 1 0)).Alike (.stmt (sampleClass 7 20)) := by
  have h := sampleClass_printable 1 0
  have h' := sampleClass_printable 7 20
  exact ⟨h, h', (Node.render_eq_iff_alike h h').1 rfl⟩

end Lox
