import Lox.Config
import Lox.Document.Json
import Lox.Document.Yaml

/-!
# Configuration files

A file whose extension is `.json` holds JSON, any other YAML.
-/

namespace Lox.Config

/-- The slashes at the start of a path, which are one or none if there are not exactly two. -/
def rootOf (path : String) : String :=
  match (path.toList.takeWhile (· = '/')).length with
  | 0 => ""
  | 2 => "//"
  | _ => "/"

/-- A path without empty parts and parts that stay where they are. -/
def normalizedPath (path : String) : String :=
  let parts := (path.splitOn "/").filter fun part => part ≠ "" ∧ part ≠ "."
  let normalized := rootOf path ++ "/".intercalate parts
  if normalized.isEmpty then "." else normalized

/-- The last part of a path. -/
def baseName (path : String) : List Char :=
  (path.toList.reverse.takeWhile (· ≠ '/')).reverse

/-- The part of a file name from its last point on. A point at the very start or end makes no
extension. -/
def extension (path : String) : String :=
  let reversed := (baseName path).reverse
  let afterPoint := reversed.takeWhile (· ≠ '.')
  let stem := (reversed.drop afterPoint.length).drop 1
  if afterPoint.isEmpty || stem.isEmpty then ""
  else String.ofList ('.' :: afterPoint.reverse)

/-- Reads the contents of a file of the given path. -/
def ofText (path text : String) : Except ConfigError Config :=
  let format : FileFormat := if extension path = ".json" then .json else .yaml
  let parsed := match format with
    | .json => Document.Json.parse text
    | .yaml => Document.Yaml.parse text
  match parsed with
  | .ok d => ofFileDocument d
  | .error fault => .error (.unreadable format fault)

/-- Reads a file of the given path, whose contents are absent if there is no such file. -/
def load (path : String) (text? : Option String) : Except ConfigError Config :=
  let path := normalizedPath path
  match text? with
  | none => .error (.notFound path)
  | some text => ofText path text

end Lox.Config
