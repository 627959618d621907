import Lox.Document.Scan
import Lox.Document.Yaml.Cursor
import Lox.Document.Yaml.Token

/-!
# Properties and directives

Anchors and aliases, tags, and the lines about a document in front of it.
-/

namespace Lox.Document.Yaml

/-! ### Anchors and aliases -/

/-- Characters that may follow the name of an anchor. -/
def endsAnchor (c : Char) : Bool :=
  endsWord c || ['?', ':', ',', ']', '\x7d', '%', '@', '\x60'].contains c

/-- The name of an anchor or an alias, after its sign. -/
def anchorName (c : Cursor) : Except Fault (String × Cursor) :=
  let (name, after) := c.span isNameChar
  if name.isEmpty || !endsAnchor after.peek then .error .malformed
  else .ok (String.ofList name, after)

/-! ### Tags -/

/-- Where a tag has to end. -/
def endsTag (c : Char) : Bool := c = ' ' || endsLine c

def isTagChar (c : Char) : Bool :=
  c.isAlphanum
    || ['-', ';', '/', '?', ':', '@', '&', '=', '+', '$', ',', '_', '.', '!', '~', '*', '\'', '(',
        ')', '[', ']'].contains c

/-- Bytes that are written as a percent sign and two hexadecimal digits each. -/
def escapedBytes : Nat → Cursor → Except Fault (List UInt8 × Cursor)
  | 0, _ => .error .malformed
  | n + 1, c =>
    if c.peek = '%' then
      match digitValue? (c.peekAt 1), digitValue? (c.peekAt 2) with
      | some high, some low => do
        let (bytes, c) ← escapedBytes n (c.skip 3)
        return (UInt8.ofNat (high * 16 + low) :: bytes, c)
      | _, _ => .error .malformed
    else .ok ([], c)

/-- The characters of a tag up to the first that does not belong to it. Escaped bytes have to make
up characters. -/
def tagChars : Nat → Cursor → Except Fault (List Char × Cursor)
  | 0, _ => .error .malformed
  | n + 1, c =>
    if c.peek = '%' then do
      let (bytes, c) ← escapedBytes n c
      match String.fromUTF8? (ByteArray.mk bytes.toArray) with
      | some text =>
        let (more, c) ← tagChars n c
        return (text.toList ++ more, c)
      | none => throw .malformed
    else if isTagChar c.peek then do
      let (more, c') ← tagChars n c.next
      return (c.peek :: more, c')
    else .ok ([], c)

/-- The text of a tag; there has to be one. -/
def tagText (fuel : Nat) (c : Cursor) : Except Fault (String × Cursor) := do
  let (text, after) ← tagChars fuel c
  if after.index = c.index then throw .malformed else return (String.ofList text, after)

/-- The handle of a tag: an exclamation mark, or a name between two. -/
def tagHandle (c : Cursor) : Except Fault (String × Cursor) :=
  if c.peek ≠ '!' then .error .malformed
  else if c.peekAt 1 = ' ' then .ok ("!", c.next)
  else
    let (name, after) := c.next.span isNameChar
    if after.peek = '!' then .ok (String.ofList ('!' :: name ++ ['!']), after.next)
    else .error .malformed

/-- The tag that starts here. -/
def tagName (fuel : Nat) (c : Cursor) : Except Fault (TagName × Cursor) := do
  let (name, after) ←
    if c.peekAt 1 = '<' then do
      let (suffix, c) ← tagText fuel (c.skip 2)
      if c.peek ≠ '>' then throw .malformed else pure (⟨none, suffix⟩, c.next)
    else if endsWord (c.peekAt 1) then pure (⟨none, "!"⟩, c.next)
    else do
      let named := (c.next.span (!endsTag ·)).1.contains '!'
      let (handle, c) ← if named then tagHandle c else pure ("!", c.next)
      let (suffix, c) ← tagText fuel c
      pure (⟨some handle, suffix⟩, c)
  if endsTag after.peek then return (name, after) else throw .malformed

/-! ### Directives -/

/-- A number in a version. -/
def versionNumber (c : Cursor) : Except Fault (Nat × Cursor) := do
  let (ds, after) := c.span Char.isDigit
  if ds.isEmpty then throw .malformed else return (← natOfDigits 10 ds, after)

/-- The directive that starts here, and the place after its line. -/
def directive (fuel : Nat) (c : Cursor) : Except Fault (Directive × Cursor) := do
  let (name, c) := c.next.span isNameChar
  if name.isEmpty || !endsTag c.peek then throw .malformed
  else
    let (directive, c) ←
      if name = "YAML".toList then do
        let (major, c) ← versionNumber c.skipSpaces
        if c.peek ≠ '.' then throw .malformed
        else
          let (_, c) ← versionNumber c.next
          if endsTag c.peek then pure (Directive.version major, c) else throw .malformed
      else if name = "TAG".toList then do
        let (handle, c) ← tagHandle c.skipSpaces
        if c.peek ≠ ' ' then throw .malformed
        else
          let (start, c) ← tagText fuel c.skipSpaces
          if endsTag c.peek then pure (Directive.handle handle start, c) else throw .malformed
      else pure (Directive.other, c.skipWhile (!endsLine ·))
    return (directive, ← c.nextLine)

end Lox.Document.Yaml
