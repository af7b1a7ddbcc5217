import Nftables.Yaml.Lexer.Property
import Nftables.Yaml.Lexer.Scalar

/-!
# Lexer

The tokens of a text. That a scalar or collection is the key of a mapping is known only when a colon
follows it on the same line, so the places at which a key may begin are kept, one for each
collection in flow style that is open and one for the block.
-/

namespace Nftables.Yaml

/-- A place at which the key of a mapping may begin. -/
structure KeyPlace where
  /-- the number of tokens in front of it -/
  position : Nat
  /-- no other reading is left, so a colon has to follow -/
  required : Bool
  index : Nat
  line : Nat
  column : Nat

structure Lexer where
  cursor : Cursor
  /-- the column of the block, and those of the blocks around it; -1 outside all blocks -/
  indent : Int := -1
  indents : List Int := []
  /-- may a key begin here? -/
  allowKey : Bool := true
  /-- the place for a key of the block; above it those of the open flow collections -/
  blockKey : Option KeyPlace := none
  flowKeys : List (Option KeyPlace) := []
  tokens : List Token := []
  done : Bool := false

namespace Lexer

def inFlow (l : Lexer) : Bool :=
  !l.flowKeys.isEmpty

/-- The place for a key of the innermost collection. -/
def currentKey (l : Lexer) : Option KeyPlace :=
  match l.flowKeys with
  | k :: _ => k
  | [] => l.blockKey

def setKey (l : Lexer) (k : Option KeyPlace) : Lexer :=
  match l.flowKeys with
  | _ :: ks => { l with flowKeys := k :: ks }
  | [] => { l with blockKey := k }

def push (l : Lexer) (t : Token) : Lexer :=
  { l with tokens := l.tokens ++ [t] }

def insert (l : Lexer) (position : Nat) (t : Token) : Lexer :=
  { l with tokens := l.tokens.take position ++ t :: l.tokens.drop position }

def moveTo (l : Lexer) (c : Cursor) : Lexer :=
  { l with cursor := c }

def skip (l : Lexer) (n : Nat) : Lexer :=
  l.moveTo (l.cursor.skip n)

/-! ## Places for keys -/

/-- A key is written on one line, and not in more than 1024 characters. -/
def isStale (l : Lexer) (k : KeyPlace) : Bool :=
  k.line ≠ l.cursor.line || l.cursor.index - k.index > 1024

/-- Gives up a place; a required one may not be. -/
def giveUp (k : Option KeyPlace) : Except Fault Unit :=
  if k.any (·.required) then .error .malformed else .ok ()

/-- Gives up the places that are stale. -/
def dropStale (l : Lexer) : Except Fault Lexer := do
  if l.blockKey.any l.isStale then giveUp l.blockKey
  .ok { l with
    blockKey := l.blockKey.filter (!l.isStale ·)
    flowKeys := l.flowKeys.map (·.filter (!l.isStale ·)) }

def dropKey (l : Lexer) : Except Fault Lexer := do
  giveUp l.currentKey
  .ok (l.setKey none)

/-- The next token may begin a key. -/
def saveKey (l : Lexer) : Except Fault Lexer := do
  if l.allowKey then
    let l ← l.dropKey
    .ok (l.setKey (some {
      position := l.tokens.length, required := !l.inFlow && l.indent = l.cursor.column,
      index := l.cursor.index, line := l.cursor.line, column := l.cursor.column }))
  else .ok l

/-! ## Indentation -/

/-- Ends the blocks that begin right of a column. -/
def unwindFrom (column : Int) : List Int → Lexer → Lexer
  | [], l => l
  | outer :: indents, l =>
    if column < l.indent then
      unwindFrom column indents { l.push .blockEnd with indent := outer, indents }
    else l

/-- In flow style indentation does not count. -/
def unwind (l : Lexer) (column : Int) : Lexer :=
  if l.inFlow then l else unwindFrom column l.indents l

/-- Begins a block at a column, unless the innermost one begins there. -/
def enterBlock (l : Lexer) (column : Nat) (position : Nat) (t : Token) : Lexer :=
  if l.indent < column then
    { l.insert position t with indent := column, indents := l.indent :: l.indents }
  else l

/-! ## Tokens -/

def skipBlanks : Nat → Lexer → Lexer
  | 0, l => l
  | fuel + 1, l =>
    let c := l.cursor.skipSpaces.skipComment
    if c.peek.any isBreak then
      skipBlanks fuel { l with cursor := c.lineBreak.2, allowKey := l.allowKey || !l.inFlow }
    else l.moveTo c

/-- Goes to the next token. A byte order mark may stand at the start of the text. -/
def toToken (l : Lexer) : Lexer :=
  let l := if l.cursor.index = 0 ∧ l.cursor.peek = some byteOrderMark then l.skip 1 else l
  skipBlanks (l.cursor.rest.length + 1) l

def finish (l : Lexer) : Except Fault Lexer := do
  let l ← (l.unwind (-1)).dropKey
  .ok { l.push .streamEnd with done := true }

def directive (l : Lexer) : Except Fault Lexer := do
  let l ← (l.unwind (-1)).dropKey
  let (t, c) ← l.cursor.directive
  .ok { (l.push t).moveTo c with allowKey := false }

def documentMarker (l : Lexer) (t : Token) : Except Fault Lexer := do
  let l ← (l.unwind (-1)).dropKey
  .ok { (l.push t).skip 3 with allowKey := false }

def flowStart (l : Lexer) (t : Token) : Except Fault Lexer := do
  let l ← l.saveKey
  .ok { (l.push t).skip 1 with flowKeys := none :: l.flowKeys, allowKey := true }

def flowEnd (l : Lexer) (t : Token) : Except Fault Lexer := do
  let l ← l.dropKey
  .ok { (l.push t).skip 1 with flowKeys := l.flowKeys.tail, allowKey := false }

def flowEntry (l : Lexer) : Except Fault Lexer := do
  let l ← l.dropKey
  .ok { (l.push .flowEntry).skip 1 with allowKey := true }

/-- A sign that may begin a block at its own column, where a key may begin as well. -/
def blockSign (l : Lexer) (start : Token) : Except Fault Lexer :=
  if l.inFlow then .ok l
  else if l.allowKey then .ok (l.enterBlock l.cursor.column l.tokens.length start)
  else .error .malformed

def blockEntry (l : Lexer) : Except Fault Lexer := do
  let l ← (← l.blockSign .blockSequenceStart).dropKey
  .ok { (l.push .blockEntry).skip 1 with allowKey := true }

def explicitKey (l : Lexer) : Except Fault Lexer := do
  let l ← (← l.blockSign .blockMappingStart).dropKey
  .ok { (l.push .key).skip 1 with allowKey := !l.inFlow }

/-- A colon makes what stands at the place for a key into one. -/
def value (l : Lexer) : Except Fault Lexer := do
  match l.currentKey with
  | some k =>
    let l := (l.setKey none).insert k.position .key
    let l := if l.inFlow then l else l.enterBlock k.column k.position .blockMappingStart
    .ok { (l.push .value).skip 1 with allowKey := false }
  | none =>
    let l ← (← l.blockSign .blockMappingStart).dropKey
    .ok { (l.push .value).skip 1 with allowKey := !l.inFlow }

/-- A token that may begin a key, and after which none may begin on the same line. -/
def property (l : Lexer) (read : Cursor → Except Fault (Token × Cursor)) : Except Fault Lexer := do
  let l ← l.saveKey
  let (t, c) ← read l.cursor
  .ok { (l.push t).moveTo c with allowKey := false }

def readAlias (c : Cursor) : Except Fault (Token × Cursor) := do
  let (name, c) ← c.anchorName
  .ok (.alias name, c)

def readAnchor (c : Cursor) : Except Fault (Token × Cursor) := do
  let (name, c) ← c.anchorName
  .ok (.anchor name, c)

def readTag (c : Cursor) : Except Fault (Token × Cursor) := do
  let (t, c) ← c.tagName
  .ok (.tag t, c)

def readQuoted (double : Bool) (c : Cursor) : Except Fault (Token × Cursor) := do
  let (text, c) ← c.quoted double
  .ok (.scalar (String.ofList text) false, c)

def blockScalar (l : Lexer) (fold : Bool) : Except Fault Lexer := do
  let l ← l.dropKey
  let (text, c) ← l.cursor.block fold l.indent
  .ok { (l.push (.scalar (String.ofList text) false)).moveTo c with allowKey := true }

/-- A plain scalar; after the end of its line a key may begin. -/
def plainScalar (l : Lexer) : Except Fault Lexer := do
  let l ← l.saveKey
  let (text, ended, c) := l.cursor.plain l.inFlow (l.indent + 1).toNat
  .ok { (l.push (.scalar (String.ofList text) true)).moveTo c with allowKey := ended }

/-- Characters with which no plain scalar begins, unless a word goes on after the first three. -/
def indicators : List Char :=
  "-?:,[]\x7b\x7d#&*!|>'\"%@`".toList

def startsPlain (l : Lexer) (ch : Char) : Bool :=
  (!isGap (some ch) && !indicators.contains ch) ||
    (!isGap (l.cursor.peekAt 1) && (ch == '-' || (!l.inFlow && (ch == '?' || ch == ':'))))

/-- Is there a sign that counts here only before a gap, but everywhere in flow style? -/
def atSign (l : Lexer) : Bool :=
  l.inFlow || isGap (l.cursor.peekAt 1)

/-- Reads the next token from its first character. -/
def readToken (l : Lexer) (ch : Char) : Except Fault Lexer :=
  let atStart := l.cursor.column = 0
  if ch = '%' ∧ atStart then l.directive
  else if atStart ∧ l.cursor.atMarker '-' then l.documentMarker .documentStart
  else if atStart ∧ l.cursor.atMarker '.' then l.documentMarker .documentEnd
  else if ch = '[' then l.flowStart .flowSequenceStart
  else if ch = '\x7b' then l.flowStart .flowMappingStart
  else if ch = ']' then l.flowEnd .flowSequenceEnd
  else if ch = '\x7d' then l.flowEnd .flowMappingEnd
  else if ch = ',' then l.flowEntry
  else if ch = '-' ∧ isGap (l.cursor.peekAt 1) then l.blockEntry
  else if ch = '?' ∧ l.atSign then l.explicitKey
  else if ch = ':' ∧ l.atSign then l.value
  else if ch = '*' then l.property readAlias
  else if ch = '&' then l.property readAnchor
  else if ch = '!' then l.property readTag
  else if ch = '|' ∧ !l.inFlow then l.blockScalar false
  else if ch = '>' ∧ !l.inFlow then l.blockScalar true
  else if ch = '\'' then l.property (readQuoted false)
  else if ch = '"' then l.property (readQuoted true)
  else if l.startsPlain ch then l.plainScalar
  else .error .malformed

def step (l : Lexer) : Except Fault Lexer := do
  let l ← l.toToken.dropStale
  let l := l.unwind l.cursor.column
  match l.cursor.peek with
  | none => l.finish
  | some ch => l.readToken ch

/-- Every token but the last one takes a character at least. -/
def run : Nat → Lexer → Except Fault (List Token)
  | 0, _ => .error .malformed
  | fuel + 1, l =>
    if l.done then .ok l.tokens else do run fuel (← l.step)

end Lexer

/-- The tokens of a text. -/
def tokens (text : List Char) : Except Fault (List Token) :=
  if text.all isAllowed then Lexer.run (text.length + 3) { cursor := { rest := text } }
  else .error .malformed

end Nftables.Yaml
