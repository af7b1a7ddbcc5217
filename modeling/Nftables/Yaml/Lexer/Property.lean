import Nftables.Text.Digits
import Nftables.Text.Utf8
import Nftables.Yaml.Cursor
import Nftables.Yaml.Token

/-!
# Properties and directives

Anchors, aliases and tags, and the lines in front of a document.
-/

namespace Nftables.Yaml

open Text (isDigit digitValue? ofDigits maxDigits)

/-- Characters of names. -/
def isNameChar (c : Char) : Bool :=
  c.isAlphanum || c == '-' || c == '_'

/-- Characters of tags. -/
def isTagChar (c : Char) : Bool :=
  c.isAlphanum || "-;/?:@&=+$,_.!~*'()[]%".toList.contains c

namespace Cursor

/-- The name of an anchor or alias, after its sign. -/
def anchorName (c : Cursor) : Except Fault (String × Cursor) :=
  let (name, c) := c.next.span isNameChar
  if name.isEmpty ∨ !(isGap c.peek || c.peek.any ("?:,]\x7d%@`".toList.contains ·)) then
    .error .malformed
  else .ok (String.ofList name, c)

/-- The bytes that are written with percent signs from here on. -/
def percentBytes : Nat → Cursor → Except Fault (List UInt8 × Cursor)
  | 0, c => .ok ([], c)
  | fuel + 1, c =>
    match c.rest with
    | '%' :: a :: b :: _ =>
      if (digitValue? a).isSome && (digitValue? b).isSome then do
        let (bs, c) ← percentBytes fuel (c.skip 3)
        .ok (UInt8.ofNat (ofDigits 16 [a, b]) :: bs, c)
      else .error .malformed
    | '%' :: _ => .error .malformed
    | _ => .ok ([], c)

/-- The characters of well-formed bytes. -/
def wellFormed (bs : List UInt8) : Except Fault (List Char) :=
  let cs := Text.Utf8.decode bs
  if Text.Utf8.encode cs = bs then .ok cs else .error .malformed

/-- The characters of a tag. -/
def tagChars : Nat → Cursor → Except Fault (List Char × Cursor)
  | 0, c => .ok ([], c)
  | fuel + 1, c =>
    match c.peek with
    | some '%' => do
      let (bs, c) ← c.percentBytes c.rest.length
      let cs ← wellFormed bs
      let (text, c) ← tagChars fuel c
      .ok (cs ++ text, c)
    | some ch =>
      if isTagChar ch then do
        let (text, c) ← tagChars fuel c.next
        .ok (ch :: text, c)
      else .ok ([], c)
    | none => .ok ([], c)

/-- A tag or its suffix, which is not empty. -/
def tagText (c : Cursor) : Except Fault (String × Cursor) := do
  let (cs, c) ← c.tagChars (c.rest.length + 1)
  if cs.isEmpty then .error .malformed else .ok (String.ofList cs, c)

/-- A handle: a name between exclamation marks, or one mark alone before a space. -/
def tagHandle (c : Cursor) : Except Fault (String × Cursor) :=
  if c.peek ≠ some '!' then .error .malformed
  else if c.peekAt 1 = some ' ' then .ok ("!", c.next)
  else
    let (name, c) := c.next.span isNameChar
    if c.peek = some '!' then .ok (String.ofList ('!' :: (name ++ ['!'])), c.next)
    else .error .malformed

/-- Is there an exclamation mark before the next space? -/
def hasHandle (c : Cursor) : Bool :=
  (c.rest.takeWhile fun ch => !endsWord (some ch)).contains '!'

/-- A tag, from its sign on. -/
def tagName (c : Cursor) : Except Fault (TagName × Cursor) := do
  let (t, c) ←
    if c.peekAt 1 = some '<' then do
      let (suffix, c) ← (c.skip 2).tagText
      if c.peek = some '>' then .ok (({ handle := none, suffix } : TagName), c.next)
      else .error .malformed
    else if isGap (c.peekAt 1) then .ok (({ handle := none, suffix := "!" } : TagName), c.next)
    else if c.next.hasHandle then do
      let (handle, c) ← c.tagHandle
      let (suffix, c) ← c.tagText
      .ok (({ handle := some handle, suffix } : TagName), c)
    else do
      let (suffix, c) ← c.next.tagText
      .ok (({ handle := some "!", suffix } : TagName), c)
  if endsWord c.peek then .ok (t, c) else .error .malformed

/-! ## Directives -/

def directiveNumber (c : Cursor) : Except Fault (Nat × Cursor) :=
  let (digits, c) := c.span isDigit
  if digits.isEmpty then .error .malformed
  else if maxDigits < digits.length then .error .badValue
  else .ok (ofDigits 10 digits, c)

/-- The version after the name of its directive: the major number, a point and the minor one. -/
def version (c : Cursor) : Except Fault (Token × Cursor) := do
  let (major, c) ← c.skipSpaces.directiveNumber
  if c.peek ≠ some '.' then throw .malformed
  let (_, c) ← c.next.directiveNumber
  if endsWord c.peek then .ok (.versionDirective major, c) else .error .malformed

/-- A handle and what it stands for. -/
def tagDirective (c : Cursor) : Except Fault (Token × Cursor) := do
  let (handle, c) ← c.skipSpaces.tagHandle
  if c.peek ≠ some ' ' then throw .malformed
  let (tag, c) ← c.skipSpaces.tagText
  if endsWord c.peek then .ok (.tagDirective handle tag, c) else .error .malformed

/-- A directive, from its sign on to the end of its line. Unknown directives have no meaning. -/
def directive (c : Cursor) : Except Fault (Token × Cursor) := do
  let (name, c) := c.next.span isNameChar
  if name.isEmpty ∨ !endsWord c.peek then throw .malformed
  let (t, c) ←
    if name = "YAML".toList then c.version
    else if name = "TAG".toList then c.tagDirective
    else .ok (.unknownDirective, c.skipWhile (!isBreak ·))
  .ok (t, ← c.finishLine)

end Cursor

end Nftables.Yaml
