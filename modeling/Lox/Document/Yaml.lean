import Lox.Document.Yaml.Grammar
import Lox.Document.Yaml.Layout

/-!
# YAML

Reading a text that holds one document in YAML. The document is null if the text is empty.
-/

namespace Lox.Document.Yaml

/-- A text all of whose line ends are new lines: a carriage return is one, alone or with a new line
after it. -/
def unifiedBreaks : List Char → List Char
  | [] => []
  | '\r' :: '\n' :: rest => '\n' :: unifiedBreaks rest
  | '\r' :: rest => '\n' :: unifiedBreaks rest
  | c :: rest => c :: unifiedBreaks rest

theorem not_mem_unifiedBreaks (cs : List Char) : '\r' ∉ unifiedBreaks cs := by
  fun_induction unifiedBreaks cs with
  | case1 => simp
  | case2 rest ih => simp [ih]
  | case3 rest _ ih => simp [ih]
  | case4 c rest _ h ih =>
    have hc : '\r' ≠ c := fun e => h e.symm
    simp [hc, ih]

/-- A text without carriage returns is left as it is. -/
theorem unifiedBreaks_eq_self {cs : List Char} (h : '\r' ∉ cs) : unifiedBreaks cs = cs := by
  fun_induction unifiedBreaks cs with
  | case1 => rfl
  | case2 rest ih => simp at h
  | case3 rest _ ih => simp at h
  | case4 c rest _ _ ih => simp_all

/-- Reads a text that holds at most one document. -/
def parse (text : String) : Except Fault Document := do
  let cs := unifiedBreaks text.toList
  if cs.all isPrintable then
    match ← Parse.document? (← tokens cs) with
    | some root => root.read
    | none => return .null
  else throw .malformed

end Lox.Document.Yaml
