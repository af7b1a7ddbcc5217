import Nftables.Value.Literal

/-!
# Data

What a document says once its tags are understood: values, and beside them bytes, dates and times,
with keys of any kind that is no collection.
-/

namespace Nftables.Yaml

open Text (join integer decimal quoted)

structure Date where
  year : Nat
  month : Nat
  day : Nat
deriving DecidableEq, Repr

/-- A date with a time of day; `offset` is the distance to universal time in minutes, if known. -/
structure Moment where
  date : Date
  hour : Nat
  minute : Nat
  second : Nat
  microsecond : Nat
  offset : Option Int
deriving DecidableEq, Repr

inductive Datum where
  | null
  | bool (b : Bool)
  | int (n : Int)
  | float (x : Binary64)
  | str (s : String)
  | bytes (bs : List UInt8)
  | date (d : Date)
  | moment (m : Moment)
  | list (items : List Datum)
  | tuple (items : List Datum)
  | set (items : List Datum)
  | mapping (entries : List (Datum × Datum))
  /-- the collection around it once more -/
  | enclosing (isMapping : Bool)
deriving Inhabited

/-! ## Dates -/

namespace Date

def isLeap (year : Nat) : Bool :=
  year % 4 == 0 && (year % 100 != 0 || year % 400 == 0)

def monthLength (year month : Nat) : Nat :=
  if month = 2 then (if isLeap year then 29 else 28)
  else if [4, 6, 9, 11].contains month then 30
  else 31

def isValid (d : Date) : Bool :=
  1 ≤ d.year && d.year ≤ 9999 && 1 ≤ d.month && d.month ≤ 12 && 1 ≤ d.day &&
    d.day ≤ monthLength d.year d.month

end Date

def Moment.isValid (m : Moment) : Bool :=
  m.date.isValid && m.hour ≤ 23 && m.minute ≤ 59 && m.second ≤ 59 &&
    m.offset.all fun o => o.natAbs < 24 * 60

/-! ## Literals -/

/-- The numeral with zeros in front up to a width. -/
def padded (width n : Nat) : List Char :=
  let ds := decimal n
  List.replicate (width - ds.length) '0' ++ ds

namespace Date

def text (d : Date) : List Char :=
  padded 4 d.year ++ '-' :: padded 2 d.month ++ '-' :: padded 2 d.day

def arguments (d : Date) : List (List Char) :=
  [decimal d.year, decimal d.month, decimal d.day]

def literal (d : Date) : List Char :=
  "datetime.date(".toList ++ join [',', ' '] d.arguments ++ [')']

end Date

namespace Moment

def offsetText (o : Int) : List Char :=
  (if o < 0 then '-' else '+') :: padded 2 (o.natAbs / 60) ++ ':' :: padded 2 (o.natAbs % 60)

/-- The date, the time and the distance to universal time. -/
def text (m : Moment) : List Char :=
  m.date.text ++ ' ' :: padded 2 m.hour ++ ':' :: padded 2 m.minute ++ ':' :: padded 2 m.second ++
    (if m.microsecond = 0 then [] else '.' :: padded 6 m.microsecond) ++
    (m.offset.map offsetText).getD []

/-- A distance is written in days, of which there may be less than none, and seconds of a day. -/
def offsetLiteral (o : Int) : List Char :=
  if o = 0 then "datetime.timezone.utc".toList
  else
    let seconds := o * 60
    let days := seconds / 86400
    let rest := seconds % 86400
    let parts :=
      (if days = 0 then [] else ["days=".toList ++ integer days]) ++
        if rest = 0 then [] else ["seconds=".toList ++ integer rest]
    "datetime.timezone(datetime.timedelta(".toList ++ join [',', ' '] parts ++ [')', ')']

def literal (m : Moment) : List Char :=
  let time := [decimal m.hour, decimal m.minute] ++
    (if m.second = 0 ∧ m.microsecond = 0 then [] else [decimal m.second]) ++
    if m.microsecond = 0 then [] else [decimal m.microsecond]
  let zone := match m.offset with
    | some o => ["tzinfo=".toList ++ offsetLiteral o]
    | none => []
  "datetime.datetime(".toList ++ join [',', ' '] (m.date.arguments ++ time ++ zone) ++ [')']

end Moment

/-- A byte inside quotes. -/
def quoteByte (quote : Char) (b : UInt8) : List Char :=
  let n := b.toNat
  let c := Char.ofNat n
  if c = quote ∨ c = '\\' then ['\\', c]
  else if c = '\n' then ['\\', 'n']
  else if c = '\r' then ['\\', 'r']
  else if c = '\t' then ['\\', 't']
  else if 0x20 ≤ n ∧ n < 0x7F then [c]
  else '\\' :: 'x' :: Text.hexDigits 2 n

def bytesLiteral (bs : List UInt8) : List Char :=
  let quote := Text.quoteOf (bs.map fun b => Char.ofNat b.toNat)
  'b' :: quote :: (bs.flatMap (quoteByte quote) ++ [quote])

namespace Datum

mutual

/-- The literal of a datum. -/
def literal : Datum → List Char
  | .null => Value.null.literal
  | .bool b => (Value.bool b).literal
  | .int n => integer n
  | .float x => Binary64.plain.write x
  | .str s => quoted s.toList
  | .bytes bs => bytesLiteral bs
  | .date d => d.literal
  | .moment m => m.literal
  | .list ds => '[' :: (join [',', ' '] (literals ds) ++ [']'])
  | .tuple [d] => '(' :: (d.literal ++ [',', ')'])
  | .tuple ds => '(' :: (join [',', ' '] (literals ds) ++ [')'])
  | .set [] => "set()".toList
  | .set ds => '{' :: (join [',', ' '] (literals ds) ++ ['}'])
  | .mapping es => '{' :: (join [',', ' '] (entryLiterals es) ++ ['}'])
  | .enclosing false => "[...]".toList
  | .enclosing true => '{' :: ("...".toList ++ ['}'])

def literals : List Datum → List (List Char)
  | [] => []
  | d :: ds => d.literal :: literals ds

def entryLiterals : List (Datum × Datum) → List (List Char)
  | [] => []
  | (k, d) :: es => (k.literal ++ ':' :: ' ' :: d.literal) :: entryLiterals es

end

mutual

/-- Can the literal of a datum be written? No integer in it may have too many digits. -/
def hasLiteral : Datum → Bool
  | .int n => Text.hasNumeral n
  | .list ds | .tuple ds | .set ds => haveLiterals ds
  | .mapping es => entriesHaveLiterals es
  | _ => true

def haveLiterals : List Datum → Bool
  | [] => true
  | d :: ds => d.hasLiteral && haveLiterals ds

def entriesHaveLiterals : List (Datum × Datum) → Bool
  | [] => true
  | (k, d) :: es => k.hasLiteral && d.hasLiteral && entriesHaveLiterals es

end

/-- A datum as a text: texts, dates and times as they are, anything else as its literal. -/
def text : Datum → List Char
  | .str s => s.toList
  | .date d => d.text
  | .moment m => m.text
  | d => d.literal

/-- The name of the kind of a datum. -/
def kindName : Datum → String
  | .null => "NoneType"
  | .bool _ => "bool"
  | .int _ => "int"
  | .float _ => "float"
  | .str _ => "str"
  | .bytes _ => "bytes"
  | .date _ => "date"
  | .moment _ => "datetime"
  | .list _ | .enclosing false => "list"
  | .tuple _ => "tuple"
  | .set _ => "set"
  | .mapping _ | .enclosing true => "dict"

/-! ## Keys -/

def number? : Datum → Option Rat
  | .bool b => some (if b then 1 else 0)
  | .int n => some n
  | .float x => x.toRat?
  | _ => none

/-- Do two keys name the same entry? Numbers do if they are equal. -/
def sameKey (k l : Datum) : Bool :=
  match k, l with
  | .null, .null => true
  | .str s, .str t => s = t
  | .bytes a, .bytes b => a = b
  | .date a, .date b => a = b
  | .moment a, .moment b => a = b
  | .float .nan, .float .nan => true
  | .float (.infinite s), .float (.infinite t) => s = t
  | k, l =>
    match k.number?, l.number? with
    | some x, some y => x = y
    | _, _ => false

/-- Sets a key: its entry keeps its place, a new one goes to the end. -/
def insert (k d : Datum) : List (Datum × Datum) → List (Datum × Datum)
  | [] => [(k, d)]
  | (l, e) :: es => if sameKey l k then (l, d) :: es else (l, e) :: insert k d es

/-- The datum of a text key. -/
def lookup (key : String) : List (Datum × Datum) → Option Datum
  | [] => none
  | (.str s, d) :: es => if s = key then some d else lookup key es
  | _ :: es => lookup key es

/-! ## Values as data -/

mutual

/-- A value as a datum. -/
def ofValue : Value → Datum
  | .null => .null
  | .bool b => .bool b
  | .int n => .int n
  | .float x => .float x
  | .str s => .str s
  | .list vs => .list (ofValues vs)
  | .tuple vs => .tuple (ofValues vs)
  | .set vs => .set (ofValues vs)
  | .range start stop step => .tuple [.int start, .int stop, .int step]
  | .object es => .mapping (ofEntries es)

def ofValues : List Value → List Datum
  | [] => []
  | v :: vs => ofValue v :: ofValues vs

def ofEntries : List (String × Value) → List (Datum × Datum)
  | [] => []
  | (k, v) :: es => (.str k, ofValue v) :: ofEntries es

end

end Datum

end Nftables.Yaml
