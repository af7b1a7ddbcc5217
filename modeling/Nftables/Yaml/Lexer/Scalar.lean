import Nftables.Text.Digits
import Nftables.Yaml.Cursor

/-!
# Scalars

The texts of plain, quoted and block scalars. A line break within a scalar is folded: it counts as a
blank, unless more of them follow, of which the first is dropped.
-/

namespace Nftables.Yaml

open Text (digitValue? ofDigits)

/-- What a line break stands for, if others follow it. -/
def folded (lineBreak breaks : List Char) : List Char :=
  (if lineBreak ≠ ['\n'] then lineBreak else if breaks.isEmpty then [' '] else []) ++ breaks

namespace Cursor

/-! ## Quoted scalars -/

/-- The line breaks from here on, with blanks between them. No marker may stand at the start of a
line. -/
def quotedBreaks : Nat → Cursor → Except Fault (List Char × Cursor)
  | 0, _ => .error .malformed
  | fuel + 1, c =>
    if c.atSeparator then .error .malformed
    else
      let c := c.skipWhile fun ch => ch == ' ' || ch == '\t'
      if c.peek.any isBreak then do
        let (br, c) := c.lineBreak
        let (breaks, c) ← quotedBreaks fuel c
        .ok (br ++ breaks, c)
      else .ok ([], c)

/-- Blanks within a quoted scalar, folded if there is a line break among them. -/
def quotedBlanks (c : Cursor) : Except Fault (List Char × Cursor) := do
  let (blanks, c) := c.span fun ch => ch == ' ' || ch == '\t'
  if c.peek.any isBreak then
    let (br, c) := c.lineBreak
    let (breaks, c) ← c.quotedBreaks (c.rest.length + 1)
    .ok (folded br breaks, c)
  else .ok (blanks, c)

/-- The characters that stand for another one after a backslash. -/
def escapes : List (Char × Char) :=
  [('0', Char.ofNat 0), ('a', '\x07'), ('b', '\x08'), ('t', '\t'), ('\t', '\t'), ('n', '\n'),
    ('v', '\x0b'), ('f', '\x0c'), ('r', '\r'), ('e', '\x1b'), (' ', ' '), ('"', '"'),
    ('\\', '\\'), ('/', '/'), ('N', nextLine), ('_', Char.ofNat 0xA0), ('L', lineSeparator),
    ('P', paragraphSeparator)]

/-- The number of digits after a backslash and one of these characters. -/
def escapeLength? : Char → Option Nat
  | 'x' => some 2
  | 'u' => some 4
  | 'U' => some 8
  | _ => none

/-- The character of a code; a surrogate is replaced. -/
def charOfCode (n : Nat) : Except Fault Char :=
  if 0x7FFFFFFF < n then .error .hugeCode
  else if 0x10FFFF < n then .error .badValue
  else if 0xD800 ≤ n ∧ n ≤ 0xDFFF then .ok (Char.ofNat 0xFFFD)
  else .ok (Char.ofNat n)

/-- What stands after a backslash. -/
def escape (c : Cursor) : Except Fault (List Char × Cursor) :=
  match c.peek with
  | none => .error .malformed
  | some ch =>
    match escapes.lookup ch, escapeLength? ch with
    | some d, _ => .ok ([d], c.next)
    | none, some n => do
      let digits := (c.next.rest.take n)
      if digits.length = n ∧ digits.all fun d => (digitValue? d).isSome then
        let d ← charOfCode (ofDigits 16 digits)
        .ok ([d], c.next.skip n)
      else .error .malformed
    | none, none =>
      if isBreak ch then
        let c := c.lineBreak.2
        c.quotedBreaks (c.rest.length + 1)
      else .error .malformed

/-- The text up to the closing quote. In double quotes a backslash escapes, in single quotes a quote
is written twice. -/
def quotedText (double : Bool) : Nat → Cursor → Except Fault (List Char × Cursor)
  | 0, _ => .error .malformed
  | fuel + 1, c =>
    match c.rest with
    | [] => .error .malformed
    | ch :: rest => do
      if double && ch == '"' then .ok ([], c.next)
      else if !double && ch == '\'' && rest.head? != some '\'' then .ok ([], c.next)
      else
        let (part, c) ←
          if double && ch == '\\' then c.next.escape
          else if !double && ch == '\'' then .ok (['\''], c.skip 2)
          else if isGap (some ch) then c.quotedBlanks
          else .ok ([ch], c.next)
        let (text, c) ← quotedText double fuel c
        .ok (part ++ text, c)

/-- A quoted scalar, from its opening quote on. -/
def quoted (c : Cursor) (double : Bool) : Except Fault (List Char × Cursor) :=
  quotedText double c.rest.length c.next

/-! ## Plain scalars -/

/-- Does a plain scalar end at the characters from here on? -/
def endsPlain (inFlow : Bool) (ch : Char) (after : Option Char) : Bool :=
  isGap (some ch) ||
    (ch == ':' && (isGap after || (inFlow && after.any (",[]\x7b\x7d".toList.contains ·)))) ||
    (inFlow && ",?[]\x7b\x7d".toList.contains ch)

/-- The characters of a plain scalar up to a blank. -/
def plainWord (inFlow : Bool) : List Char → List Char
  | [] => []
  | ch :: rest => if endsPlain inFlow ch rest.head? then [] else ch :: plainWord inFlow rest

/-- The line breaks and blanks after the first line break. Nothing is left of them if a marker
stands at the start of a line. -/
def plainBreaks : Nat → Cursor → Option (List Char) × Cursor
  | 0, c => (none, c)
  | fuel + 1, c =>
    if c.peek = some ' ' then plainBreaks fuel c.next
    else if c.peek.any isBreak then
      let (br, c) := c.lineBreak
      if c.atSeparator then (none, c)
      else
        let (breaks, c) := plainBreaks fuel c
        (breaks.map (br ++ ·), c)
    else (some [], c)

/-- Blanks after a word of a plain scalar: what they stand for, and whether a line has ended. -/
def plainBlanks (c : Cursor) : List Char × Bool × Cursor :=
  let (blanks, c) := c.span (· == ' ')
  if c.peek.any isBreak then
    let (br, c) := c.lineBreak
    if c.atSeparator then ([], true, c)
    else
      let (breaks, c) := c.plainBreaks (c.rest.length + 1)
      match breaks with
      | some breaks => (folded br breaks, true, c)
      | none => ([], true, c)
  else (blanks, false, c)

/-- A plain scalar whose lines are indented by `indent` at least, after blanks that stand for
`blanks`: its text, and whether a line has ended after it. -/
def plainText (inFlow : Bool) (indent : Nat) :
    Nat → List Char → Bool → Cursor → List Char × Bool × Cursor
  | 0, _, ended, c => ([], ended, c)
  | fuel + 1, blanks, ended, c =>
    let word := if c.peek = some '#' then [] else plainWord inFlow c.rest
    if word.isEmpty then ([], ended, c)
    else
      let (blanks', ended, c) := (c.skip word.length).plainBlanks
      if blanks'.isEmpty || c.peek = some '#' || (!inFlow && c.column < indent) then
        (blanks ++ word, ended, c)
      else
        let (text, ended, c) := plainText inFlow indent fuel blanks' ended c
        (blanks ++ word ++ text, ended, c)

def plain (c : Cursor) (inFlow : Bool) (indent : Nat) : List Char × Bool × Cursor :=
  c.plainText inFlow indent c.rest.length [] false

/-! ## Block scalars -/

/-- What becomes of the line breaks at the end of a block scalar. -/
inductive Chomping where
  | clip | strip | keep
deriving DecidableEq, Repr

def chomping? : Option Char → Option Chomping
  | some '+' => some .keep
  | some '-' => some .strip
  | _ => none

/-- An indentation of one to nine columns. -/
def increment? : Option Char → Option Nat
  | some ch => if '0' ≤ ch && ch ≤ '9' then some (ch.toNat - '0'.toNat) else none
  | none => none

/-- The indicators after the sign of a block scalar, in either order. -/
def blockHeader (c : Cursor) : Except Fault (Chomping × Option Nat × Cursor) := do
  let (chomping, increment, c) :=
    match chomping? c.peek with
    | some chomping =>
      match increment? c.next.peek with
      | some n => (chomping, some n, c.skip 2)
      | none => (chomping, none, c.next)
    | none =>
      match increment? c.peek with
      | some n =>
        match chomping? c.next.peek with
        | some chomping => (chomping, some n, c.skip 2)
        | none => (.clip, some n, c.next)
      | none => (.clip, none, c)
  if increment = some 0 ∨ !endsWord c.peek then .error .malformed
  else .ok (chomping, increment, ← c.finishLine)

/-- Spaces in front of a column. -/
def skipIndent (indent : Nat) (c : Cursor) : Cursor :=
  c.skip (min (indent - c.column) (c.rest.takeWhile (· == ' ')).length)

/-- The line breaks from here on, with indentation in front of them. -/
def blockBreaks (indent : Nat) : Nat → Cursor → List Char × Cursor
  | 0, c => ([], c)
  | fuel + 1, c =>
    let c := c.skipIndent indent
    if c.peek.any isBreak then
      let (br, c) := c.lineBreak
      let (breaks, c) := blockBreaks indent fuel c
      (br ++ breaks, c)
    else ([], c)

/-- The line breaks in front of the first line that is not empty, and the greatest indentation. -/
def blockIndent : Nat → Cursor → List Char × Nat × Cursor
  | 0, c => ([], 0, c)
  | fuel + 1, c =>
    if c.peek = some ' ' then
      let column := c.next.column
      let (breaks, deepest, c) := blockIndent fuel c.next
      (breaks, max column deepest, c)
    else if c.peek.any isBreak then
      let (br, c) := c.lineBreak
      let (breaks, deepest, c) := blockIndent fuel c
      (br ++ breaks, deepest, c)
    else ([], 0, c)

/-- Does a line of a block scalar begin here? -/
def atBlockLine (indent : Nat) (c : Cursor) : Bool :=
  c.column == indent && c.peek.isSome

def atBlank (c : Cursor) : Bool :=
  c.peek = some ' ' || c.peek = some '\t'

/-- The lines of a block scalar, `breaks` standing in front of them: their text, the line break
after the last one and those that follow. -/
def blockLines (fold : Bool) (indent : Nat) :
    Nat → List Char → Cursor → List Char × List Char × List Char × Cursor
  | 0, breaks, c => ([], [], breaks, c)
  | fuel + 1, breaks, c =>
    if c.atBlockLine indent then
      let indented := c.atBlank
      let (line, c) := c.span (!isBreak ·)
      let (br, c) := c.lineBreak
      let (breaks', c) := c.blockBreaks indent (c.rest.length + 1)
      if c.atBlockLine indent then
        let between :=
          if fold && br = ['\n'] && !indented && !c.atBlank then
            if breaks'.isEmpty then [' '] else []
          else br
        let (text, last, tail, c) := blockLines fold indent fuel breaks' c
        (breaks ++ line ++ between ++ text, last, tail, c)
      else (breaks ++ line, br, breaks', c)
    else ([], [], breaks, c)

/-- A block scalar, from its sign on, in a collection that is indented by `parent` columns. -/
def block (c : Cursor) (fold : Bool) (parent : Int) : Except Fault (List Char × Cursor) := do
  let (chomping, increment, c) ← c.next.blockHeader
  let least := (max (parent + 1) 1).toNat
  let fuel := c.rest.length + 1
  let (breaks, indent, c) :=
    match increment with
    | some n =>
      let indent := least + n - 1
      let (breaks, c) := c.blockBreaks indent fuel
      (breaks, indent, c)
    | none =>
      let (breaks, deepest, c) := c.blockIndent fuel
      (breaks, max least deepest, c)
  let (text, last, tail, c) := c.blockLines fold indent fuel breaks
  .ok (text ++ (if chomping = .strip then [] else last) ++ (if chomping = .keep then tail else []), c)

end Cursor

end Nftables.Yaml
