import Nftables.Binary64.Parser
import Nftables.Yaml.Cursor
import Nftables.Yaml.Datum
import Nftables.Yaml.Tag

/-!
# Scalar data

The datum of a text under a tag.
-/

namespace Nftables.Yaml

open Text (isDigit ofDigits number? split)

/-! ## Numbers -/

/-- An integer numeral of a base, possibly with a sign and blanks around it. A decimal one may not have
too many digits; for a power of two as its base there is no limit. -/
def integer? (base : Nat) (cs : List Char) : Option Int :=
  match Text.plainDigits (Text.trim cs) with
  | '-' :: cs => (magnitude? cs).map fun n => -(n : Int)
  | '+' :: cs => (magnitude? cs).map fun n => (n : Int)
  | cs => (magnitude? cs).map fun n => (n : Int)
where
  magnitude? (cs : List Char) : Option Nat :=
    if base = 10 ∧ Text.maxDigits < cs.length then none else number? base cs

/-- The number of digits in base 60. -/
def ofSixties (ds : List Int) : Int :=
  ds.foldl (fun n d => 60 * n + d) 0

/-- A sign and what comes after it; there has to be something to look for it in. -/
def signOf : List Char → Except Fault (Bool × List Char)
  | [] => .error .noDigits
  | '-' :: cs => .ok (true, cs)
  | '+' :: cs => .ok (false, cs)
  | cs => .ok (false, cs)

def orBadValue {α : Type} : Option α → Except Fault α
  | some a => .ok a
  | none => .error .badValue

/-- An integer without its sign. -/
def magnitudeOf : List Char → Except Fault Int
  | [] => .error .noDigits
  | ['0'] => .ok 0
  | '0' :: 'b' :: cs => orBadValue (integer? 2 cs)
  | '0' :: 'x' :: cs => orBadValue (integer? 16 cs)
  | '0' :: cs => orBadValue (integer? 8 cs)
  | cs =>
    if cs.contains ':' then ofSixties <$> (split ':' cs).mapM fun part => orBadValue (integer? 10 part)
    else orBadValue (integer? 10 cs)

def integerOf (text : List Char) : Except Fault Int := do
  let (negative, cs) ← signOf (text.filter (· ≠ '_'))
  let n ← magnitudeOf cs
  .ok (if negative then -n else n)

/-- The number nearest to a rational one. -/
def nearest (q : Rat) : Binary64 :=
  Binary64.ofRatio (q < 0) q.num.natAbs q.den

/-- The product with a number above zero. -/
def times (x : Binary64) (factor : Rat) : Binary64 :=
  match x.toRat? with
  | some q => nearest (q * factor)
  | none => x

def plus (x y : Binary64) : Binary64 :=
  match x.toRat?, y.toRat? with
  | some p, some q => nearest (p + q)
  | some _, none => y
  | none, some _ => x
  | none, none => if x = y then x else .nan

/-- The number of digits in base 60, the least significant one first. Powers of 60 are integers, and
made floating-point numbers to multiply with. -/
def ofFloatSixties : List Binary64 → Nat → Binary64 → Except Fault Binary64
  | [], _, sum => .ok sum
  | d :: ds, base, sum =>
    match (Binary64.ofInt? base).bind Binary64.toRat? with
    | some factor => ofFloatSixties ds (60 * base) (plus sum (times d factor))
    | none => .error .hugeCode

def negate : Binary64 → Binary64
  | .finite s m e => .finite (!s) m e
  | .infinite s => .infinite (!s)
  | .nan => .nan

/-- A floating-point number without its sign. -/
def floatMagnitudeOf (cs : List Char) : Except Fault Binary64 := do
  if cs = ".inf".toList then .ok (.infinite false)
  else if cs = ".nan".toList then .ok .nan
  else if cs.contains ':' then
    let ds ← (split ':' cs).mapM fun part => orBadValue (Binary64.parse? part)
    ofFloatSixties ds.reverse 1 (Binary64.zero false)
  else orBadValue (Binary64.parse? cs)

def floatOf (text : List Char) : Except Fault Binary64 := do
  let (negative, cs) ← signOf (Text.lower (text.filter (· ≠ '_')))
  let x ← floatMagnitudeOf cs
  .ok (if negative then negate x else x)

/-! ## Truth values -/

def truthWords : List (String × Bool) :=
  [("yes", true), ("no", false), ("true", true), ("false", false), ("on", true), ("off", false)]

def boolOf (text : List Char) : Except Fault Bool :=
  let word := String.ofList (Text.lower text)
  match truthWords.lookup word with
  | some b => .ok b
  | none => .error (.noBool word)

/-! ## Bytes -/

/-- The six bits of a character of base 64. -/
def sextet? (c : Char) : Option Nat :=
  if 'A' ≤ c && c ≤ 'Z' then some (c.toNat - 65)
  else if 'a' ≤ c && c ≤ 'z' then some (c.toNat - 71)
  else if '0' ≤ c && c ≤ '9' then some (c.toNat + 4)
  else if c = '+' then some 62
  else if c = '/' then some 63
  else none

/-- The bytes of base 64 characters: `held` are the bits read and not yet used, of `n` characters of
a group of four. Other characters are passed over; the text ends with padding. -/
def base64Of : List Char → (n held : Nat) → Except Fault (List UInt8)
  | [], n, _ => if n = 0 then .ok [] else .error .malformed
  | c :: cs, n, held =>
    if c = '=' then
      if n = 2 then
        if cs.any (· = '=') then .ok [] else base64Of cs n held
      else if n = 3 then .ok []
      else base64Of cs n held
    else match sextet? c with
      | none => base64Of cs n held
      | some d =>
        match n with
        | 0 => base64Of cs 1 d
        | 1 => do .ok (UInt8.ofNat (4 * held + d / 16) :: (← base64Of cs 2 (d % 16)))
        | 2 => do .ok (UInt8.ofNat (16 * held + d / 4) :: (← base64Of cs 3 (d % 4)))
        | _ => do .ok (UInt8.ofNat (64 * held + d) :: (← base64Of cs 0 0))

def binaryOf (text : List Char) : Except Fault (List UInt8) :=
  if text.all fun c => c.toNat < 0x80 then base64Of text 0 0 else .error .malformed

/-! ## Dates -/

/-- One or two digits. -/
def oneOrTwo (cs : List Char) : Option (Nat × List Char) :=
  match cs with
  | a :: b :: rest =>
    if isDigit a then
      if isDigit b then some (ofDigits 10 [a, b], rest) else some (ofDigits 10 [a], b :: rest)
    else none
  | [a] => if isDigit a then some (ofDigits 10 [a], []) else none
  | [] => none

/-- A number of exactly so many digits. -/
def exactly (n : Nat) (cs : List Char) : Option (Nat × List Char) :=
  let ds := cs.take n
  if ds.length = n ∧ ds.all isDigit then some (ofDigits 10 ds, cs.drop n) else none

def after (c : Char) : List Char → Option (List Char)
  | d :: cs => if c = d then some cs else none
  | [] => none

/-- Nothing is left, or a line feed at the end. -/
def isDone (cs : List Char) : Bool :=
  cs = [] ∨ cs = ['\n']

/-- The first six places of a fraction of a second. -/
def microsecondsOf (ds : List Char) : Nat :=
  let ds := ds.take 6
  ofDigits 10 (ds ++ List.replicate (6 - ds.length) '0')

/-- The distance to universal time that a time ends with, if it has one. -/
def offsetOf (cs : List Char) : Option (Option Int) :=
  if isDone cs then some none
  else match cs.dropWhile Tag.isBlank with
    | 'Z' :: rest => if isDone rest then some (some 0) else none
    | s :: rest => do
      if s ≠ '-' ∧ s ≠ '+' then none
      else
        let (hours, rest) ← oneOrTwo rest
        let (minutes, rest) ←
          match rest with
          | ':' :: rest => exactly 2 rest
          | rest => some (0, rest)
        let o : Int := 60 * hours + minutes
        if isDone rest then some (some (if s = '-' then -o else o)) else none
    | [] => none

/-- The time of day after a date. -/
def momentOf (date : Date) (cs : List Char) : Option Moment := do
  let rest ← match cs with
    | 'T' :: rest | 't' :: rest => some rest
    | c :: rest => if Tag.isBlank c then some (rest.dropWhile Tag.isBlank) else none
    | [] => none
  let (hour, rest) ← oneOrTwo rest
  let (minute, rest) ← exactly 2 (← after ':' rest)
  let (second, rest) ← exactly 2 (← after ':' rest)
  let (places, rest) := match rest with
    | '.' :: rest => (rest.takeWhile isDigit, rest.dropWhile isDigit)
    | rest => ([], rest)
  let offset ← offsetOf rest
  some { date, hour, minute, second, microsecond := microsecondsOf places, offset }

def timestampOf (text : List Char) : Except Fault Datum :=
  let read : Option (Date × List Char) := do
    let (year, rest) ← exactly 4 text
    let (month, rest) ← oneOrTwo (← after '-' rest)
    let (day, rest) ← oneOrTwo (← after '-' rest)
    some ({ year, month, day }, rest)
  match read with
  | none => .error .noDate
  | some (date, rest) =>
    if isDone rest then (if date.isValid then .ok (.date date) else .error .badValue)
    else match momentOf date rest with
      | none => .error .noDate
      | some m => if m.isValid then .ok (.moment m) else .error .badValue

/-! ## Tags -/

/-- The datum of a text under the tag of a scalar. -/
def scalarOf (tag : Tag) (text : String) : Except Fault Datum := do
  let cs := text.toList
  match tag with
  | .null => .ok .null
  | .bool => .ok (.bool (← boolOf cs))
  | .int => .ok (.int (← integerOf cs))
  | .float => .ok (.float (← floatOf cs))
  | .text => .ok (.str text)
  | .binary => .ok (.bytes (← binaryOf cs))
  | .timestamp => timestampOf cs
  | _ => .error .malformed

end Nftables.Yaml
