import Lox.Store
import Lox.Number.Text
import Lox.Text.Quoted

/-!
# The text of values and scopes

Values as they are printed, and scopes as they are shown to a host.
-/

namespace Lox.Store

def className (st : Store) (c : ClassId) : String :=
  match st.class? c with
  | some cls => cls.name
  | none => ""

/-- The bindings of one scope in the order of their names. -/
def bindings (st : Store) (s : ScopeId) : List (String × Value) :=
  match st.scope? s with
  | some scope => scope.values.toList
  | none => []

/-- The depth of a scope and the names it binds itself. -/
def describeScope (st : Store) (s : ScopeId) : String :=
  "Environment(depth=" ++ toString (st.depth s) ++ ", names=["
    ++ ", ".intercalate ((st.bindings s).map fun b => Text.quoted b.1) ++ "])"

/-- The text of a value, as it is printed. -/
def display (st : Store) : Value → String
  | .nil => "nil"
  | .bool true => "true"
  | .bool false => "false"
  | .number x => Number.text .display x
  | .string s => s
  | .function id =>
    match st.function? id with
    | some f => "<fn " ++ f.name ++ ">"
    | none => "<fn >"
  | .native _ => "<native fn>"
  | .cls id => st.className id
  | .inst id =>
    match st.instance? id with
    | some object => st.className object.cls ++ " instance"
    | none => " instance"
  | .scope id => st.describeScope id

end Lox.Store
