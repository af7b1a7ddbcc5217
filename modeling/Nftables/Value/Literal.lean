import Nftables.Value
import Nftables.Binary64.Shortest
import Nftables.Text.Digits
import Nftables.Text.Fields
import Nftables.Text.Printable

/-!
# Literals

The text of a value in messages. Texts inside a value are quoted; a text that stands alone is not.
An integer with too many digits cannot be written, and neither can a value that holds one. How deep a
value is nested does not matter here.
-/

namespace Nftables

namespace Text

/-- A character inside quotes. -/
def quoteChar (quote c : Char) : List Char :=
  if c = quote ∨ c = '\\' then ['\\', c]
  else if c = '\n' then ['\\', 'n']
  else if c = '\r' then ['\\', 'r']
  else if c = '\t' then ['\\', 't']
  else if isPrintable c then [c]
  else if c.toNat < 0x100 then '\\' :: 'x' :: hexDigits 2 c.toNat
  else if c.toNat < 0x10000 then '\\' :: 'u' :: hexDigits 4 c.toNat
  else '\\' :: 'U' :: hexDigits 8 c.toNat

/-- Single quotes, unless the text holds one and no double quote. -/
def quoteOf (cs : List Char) : Char :=
  if cs.contains '\'' && !cs.contains '"' then '"' else '\''

def quoted (cs : List Char) : List Char :=
  let q := quoteOf cs
  q :: (cs.flatMap (quoteChar q) ++ [q])

end Text

namespace Value

open Text (join integer hasNumeral quoted)

mutual

/-- The literal of a value. -/
def literal : Value → List Char
  | .null => "None".toList
  | .bool true => "True".toList
  | .bool false => "False".toList
  | .int n => integer n
  | .float x => Binary64.plain.write x
  | .str s => quoted s.toList
  | .list vs => '[' :: (join [',', ' '] (literals vs) ++ [']'])
  | .tuple [v] => '(' :: (v.literal ++ [',', ')'])
  | .tuple vs => '(' :: (join [',', ' '] (literals vs) ++ [')'])
  | .set [] => "set()".toList
  | .set vs => '{' :: (join [',', ' '] (literals vs) ++ ['}'])
  | .range start stop step =>
    "range(".toList ++ join [',', ' ']
      (integer start :: integer stop :: if step = 1 then [] else [integer step]) ++ [')']
  | .object es => '{' :: (join [',', ' '] (entryLiterals es) ++ ['}'])

def literals : List Value → List (List Char)
  | [] => []
  | v :: vs => v.literal :: literals vs

def entryLiterals : List (String × Value) → List (List Char)
  | [] => []
  | (k, v) :: es => (quoted k.toList ++ ':' :: ' ' :: v.literal) :: entryLiterals es

end

mutual

/-- Can the literal of a value be written? No integer in it may have too many digits. -/
def hasLiteral : Value → Bool
  | .int n => hasNumeral n
  | .list vs | .tuple vs | .set vs => haveLiterals vs
  | .range start stop step => hasNumeral start && hasNumeral stop && hasNumeral step
  | .object es => entriesHaveLiterals es
  | _ => true

def haveLiterals : List Value → Bool
  | [] => true
  | v :: vs => v.hasLiteral && haveLiterals vs

def entriesHaveLiterals : List (String × Value) → Bool
  | [] => true
  | (_, v) :: es => v.hasLiteral && entriesHaveLiterals es

end

/-- A value as a text: a text as it is, anything else as its literal. -/
def text : Value → List Char
  | .str s => s.toList
  | v => v.literal

def showLiteral (v : Value) : String :=
  String.ofList v.literal

def showText (v : Value) : String :=
  String.ofList v.text

/-- A value as a text, if it can be written as one. -/
def text? (v : Value) : Except WriteError (List Char) :=
  if v.hasLiteral then .ok v.text else .error .tooManyDigits

/-- The text that stands for a value as an argument. -/
def argumentText (v : Value) : Except ShapeError String :=
  if v.hasLiteral then .ok v.showText else .error .tooManyDigits

end Value

end Nftables
