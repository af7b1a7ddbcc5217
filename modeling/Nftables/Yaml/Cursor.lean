/-!
# Cursors

A place in a text, and moving on from there. Lines and columns are counted on the way; they decide
about the structure of a document.
-/

namespace Nftables.Yaml

/-- Why a text cannot be loaded. -/
inductive Fault where
  /-- it is no document, or holds something that has no meaning -/
  | malformed
  /-- a number, a date or a character is out of range -/
  | badValue
  /-- the code of a character is beyond all codes, or an integer beyond all floating-point numbers -/
  | hugeCode
  /-- a word that is no truth value is tagged as one -/
  | noBool (word : String)
  /-- a text without digits is tagged as a number -/
  | noDigits
  /-- a text that is no date is tagged as one -/
  | noDate
deriving DecidableEq, Repr

/-! ## Characters -/

/-- Line breaks beside those of ASCII. -/
def nextLine : Char := Char.ofNat 0x85
def lineSeparator : Char := Char.ofNat 0x2028
def paragraphSeparator : Char := Char.ofNat 0x2029

def byteOrderMark : Char := Char.ofNat 0xFEFF

def isBreak (c : Char) : Bool :=
  c == '\n' || c == '\r' || c == nextLine || c == lineSeparator || c == paragraphSeparator

/-- Is there no more character on the line? -/
def endsLine : Option Char → Bool
  | some c => isBreak c
  | none => true

/-- Is there a space or the end of the line? -/
def endsWord : Option Char → Bool
  | some c => c == ' ' || isBreak c
  | none => true

/-- Is there a space, a tab or the end of the line? -/
def isGap : Option Char → Bool
  | some c => c == ' ' || c == '\t' || isBreak c
  | none => true

/-- Characters that may stand in a document. -/
def isAllowed (c : Char) : Bool :=
  let n := c.toNat
  n == 9 || n == 10 || n == 13 || (0x20 ≤ n && n ≤ 0x7E) || n == 0x85 ||
    (0xA0 ≤ n && n ≤ 0xFFFD) || 0x10000 ≤ n

/-! ## Places -/

structure Cursor where
  rest : List Char
  index : Nat := 0
  line : Nat := 0
  column : Nat := 0

namespace Cursor

def peek (c : Cursor) : Option Char :=
  c.rest.head?

/-- The character after `n` others. -/
def peekAt (c : Cursor) (n : Nat) : Option Char :=
  c.rest[n]?

/-- Does reading a character, with a text after it, end a line? -/
def endsLineBefore (ch : Char) (rest : List Char) : Bool :=
  if ch == '\r' then rest.head? != some '\n' else isBreak ch

/-- The place after the next character. -/
def next (c : Cursor) : Cursor :=
  match c.rest with
  | [] => c
  | ch :: rest =>
    if endsLineBefore ch rest then { rest, index := c.index + 1, line := c.line + 1, column := 0 }
    else { c with
      rest, index := c.index + 1, column := if ch = byteOrderMark then c.column else c.column + 1 }

/-- The place after `n` characters. -/
def skip (c : Cursor) : Nat → Cursor
  | 0 => c
  | n + 1 => c.next.skip n

def skipWhile (c : Cursor) (p : Char → Bool) : Cursor :=
  c.skip (c.rest.takeWhile p).length

/-- The characters from here on that have a property, and the place after them. -/
def span (c : Cursor) (p : Char → Bool) : List Char × Cursor :=
  (c.rest.takeWhile p, c.skipWhile p)

def skipSpaces (c : Cursor) : Cursor :=
  c.skipWhile (· == ' ')

/-- Skips a comment, if one stands here. -/
def skipComment (c : Cursor) : Cursor :=
  if c.peek = some '#' then c.skipWhile (!isBreak ·) else c

/-- A line break, by the text it stands for, and the place after it. -/
def lineBreak (c : Cursor) : List Char × Cursor :=
  match c.rest with
  | '\r' :: '\n' :: _ => (['\n'], c.skip 2)
  | ch :: _ =>
    if ch = '\n' ∨ ch = '\r' ∨ ch = nextLine then (['\n'], c.next)
    else if isBreak ch then ([ch], c.next)
    else ([], c)
  | [] => ([], c)

/-- Three equal characters with a gap after them. -/
def atMarker (c : Cursor) (ch : Char) : Bool :=
  c.rest.take 3 == [ch, ch, ch] && isGap (c.peekAt 3)

/-- Does a marker between documents stand here? -/
def atSeparator (c : Cursor) : Bool :=
  c.atMarker '-' || c.atMarker '.'

/-- The rest of a line on which nothing but a comment may stand. -/
def finishLine (c : Cursor) : Except Fault Cursor :=
  let c := c.skipSpaces.skipComment
  if endsLine c.peek then .ok c.lineBreak.2 else .error .malformed

end Cursor

end Nftables.Yaml
