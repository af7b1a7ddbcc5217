import Nftables.Value
import Nftables.Binary64.Shortest
import Nftables.Text.Digits

/-!
# JSON texts

The compact text of a value, without blanks, and the text indented by two blanks a level. Both hold
ASCII characters alone. A tuple is written as a list. Not every value is written: a collection without
an order and a progression have no text, an integer may have too many digits, and the lists and
objects within each other may be more than there is room for on the stack.
-/

namespace Nftables.Json

open Text (hexDigits integer hasNumeral)

/-- A code unit outside the printable part of ASCII. -/
def escapeUnit (n : Nat) : List Char :=
  '\\' :: 'u' :: hexDigits 4 n

/-- A character inside quotes; one beyond the first plane is written as two surrogates. -/
def escape (c : Char) : List Char :=
  if c = '"' then ['\\', '"']
  else if c = '\\' then ['\\', '\\']
  else if c = '\n' then ['\\', 'n']
  else if c = '\r' then ['\\', 'r']
  else if c = '\t' then ['\\', 't']
  else if c = '\x08' then ['\\', 'b']
  else if c = '\x0c' then ['\\', 'f']
  else if 32 ≤ c.toNat ∧ c.toNat < 127 then [c]
  else if c.toNat < 0x10000 then escapeUnit c.toNat
  else
    escapeUnit (0xD800 + (c.toNat - 0x10000) / 0x400) ++
      escapeUnit (0xDC00 + (c.toNat - 0x10000) % 0x400)

def quote (s : String) : List Char :=
  '"' :: (s.toList.flatMap escape ++ ['"'])

/-- The text of a value that is no list and no object. Other collections have none. -/
def scalar : Value → List Char
  | .null => "null".toList
  | .bool true => "true".toList
  | .bool false => "false".toList
  | .int n => integer n
  | .float x => Binary64.document.write x
  | .str s => quote s
  | _ => []

/-! ## What can be written -/

mutual

/-- Can a value be written, if there is room for so many lists and objects within each other? What
comes first in its text is looked at first. -/
def check : (depth : Nat) → Value → Except WriteError Unit
  | _, .int n => if hasNumeral n then .ok () else .error .tooManyDigits
  | _, .set _ | _, .range .. => .error .noText
  | depth + 1, .list vs | depth + 1, .tuple vs => checkItems depth vs
  | depth + 1, .object es => checkEntries depth es
  | 0, .list _ | 0, .tuple _ | 0, .object _ => .error .tooDeep
  | _, _ => .ok ()

def checkItems : (depth : Nat) → List Value → Except WriteError Unit
  | _, [] => .ok ()
  | depth, v :: vs => do
    check depth v
    checkItems depth vs

def checkEntries : (depth : Nat) → List (String × Value) → Except WriteError Unit
  | _, [] => .ok ()
  | depth, (_, v) :: es => do
    check depth v
    checkEntries depth es

end

/-! ## Compact texts -/

mutual

/-- The text of a value without blanks, the entries of an object in their order. -/
def compact : Value → List Char
  | .list vs | .tuple vs => '[' :: (compactItems vs ++ [']'])
  | .object es => '{' :: (compactEntries es ++ ['}'])
  | v => scalar v

def compactItems : List Value → List Char
  | [] => []
  | [v] => compact v
  | v :: vs => compact v ++ ',' :: compactItems vs

def compactEntries : List (String × Value) → List Char
  | [] => []
  | [(k, v)] => quote k ++ ':' :: compact v
  | (k, v) :: es => quote k ++ ':' :: (compact v ++ ',' :: compactEntries es)

end

/-! ## Indented texts -/

/-- A new line at a level of indentation. -/
def newLine (level : Nat) : List Char :=
  '\n' :: List.replicate (2 * level) ' '

mutual

/-- The text of a value with each item and entry on a line of its own. -/
def indented (level : Nat) : Value → List Char
  | .list [] | .tuple [] => ['[', ']']
  | .list vs | .tuple vs => '[' :: (indentedItems (level + 1) vs ++ newLine level ++ [']'])
  | .object [] => ['{', '}']
  | .object es => '{' :: (indentedEntries (level + 1) es ++ newLine level ++ ['}'])
  | v => scalar v

def indentedItems (level : Nat) : List Value → List Char
  | [] => []
  | [v] => newLine level ++ indented level v
  | v :: vs => newLine level ++ indented level v ++ ',' :: indentedItems level vs

def indentedEntries (level : Nat) : List (String × Value) → List Char
  | [] => []
  | [(k, v)] => newLine level ++ quote k ++ ':' :: ' ' :: indented level v
  | (k, v) :: es =>
    newLine level ++ quote k ++ ':' :: ' ' :: (indented level v ++ ',' :: indentedEntries level es)

end

/-! ## Writing -/

/-- The compact text of a value, if it can be written. -/
def write (depth : Nat) (v : Value) : Except WriteError (List Char) := do
  check depth v
  .ok (compact v)

/-- The indented text of a value, if it can be written. -/
def writeIndented (depth : Nat) (v : Value) : Except WriteError (List Char) := do
  check depth v
  .ok (indented 0 v)

def showCompact (v : Value) : String :=
  String.ofList (compact v)

end Nftables.Json
