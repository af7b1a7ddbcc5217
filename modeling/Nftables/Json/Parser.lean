import Nftables.Value
import Nftables.Text.Digits

/-!
# Reading JSON

The value of a JSON text. Beside the standard's grammar the words `NaN`, `Infinity` and `-Infinity`
are read as numbers. A number with a point or an exponent is a floating-point number, any other an
integer, which may not have too many digits. Of several entries with one key the last gives the value
and the first the place. Each list and each object takes up room on the stack as long as it is read;
without room the reader gives up.

A surrogate that is not part of a pair is read as the replacement character here, since no text holds
surrogates. What depends on one is left to the environment of a run.
-/

namespace Nftables.Json

open Text (isDigit ofDigits digitValue? digitValue maxDigits)

/-- Why a text is no JSON text. -/
inductive Problem where
  | expectedValue
  | expectedKey
  | expectedColon
  | expectedComma
  | unclosedString
  | controlCharacter
  | badEscape
  | badUnicodeEscape
  | extraData
  | byteOrderMark
  | tooManyDigits (digits : Nat)
  /-- there is no room on the stack for a list or an object -/
  | tooDeep
deriving DecidableEq, Repr

/-- A problem at the place where `remaining` characters are left. -/
structure Fault where
  problem : Problem
  remaining : Nat
deriving DecidableEq, Repr

def Problem.message : Problem → String
  | .expectedValue => "Expecting value"
  | .expectedKey => "Expecting property name enclosed in double quotes"
  | .expectedColon => "Expecting ':' delimiter"
  | .expectedComma => "Expecting ',' delimiter"
  | .unclosedString => "Unterminated string starting at"
  | .controlCharacter => "Invalid control character at"
  | .badEscape => "Invalid \\escape"
  | .badUnicodeEscape => "Invalid \\uXXXX escape"
  | .extraData => "Extra data"
  | .byteOrderMark => "Unexpected UTF-8 BOM (decode using utf-8-sig)"
  | .tooManyDigits digits =>
    "Exceeds the limit (" ++ Text.showNat maxDigits ++ " digits) for integer string conversion: " ++
      "value has " ++ Text.showNat digits ++
      " digits; use sys.set_int_max_str_digits() to increase the limit"
  | .tooDeep => "maximum recursion depth exceeded"

/-- Is the place of a problem told? -/
def Problem.isPlaced : Problem → Bool
  | .tooManyDigits _ | .tooDeep => false
  | _ => true

/-- The message of a fault in a text: what and where, by line, column and offset. -/
def Fault.message (text : List Char) (f : Fault) : String :=
  if f.problem.isPlaced then f.problem.message ++ place else f.problem.message
where
  place : String :=
    let read := text.take (text.length - f.remaining)
    let line := read.count '\n' + 1
    let column := (read.reverse.takeWhile (· != '\n')).length + 1
    ": line " ++ Text.showNat line ++ " column " ++ Text.showNat column ++
      " (char " ++ Text.showNat read.length ++ ")"

def fail {α : Type} (p : Problem) (rest : List Char) : Except Fault α :=
  .error { problem := p, remaining := rest.length }

def isSpace (c : Char) : Bool :=
  c == ' ' || c == '\t' || c == '\n' || c == '\r'

def skipSpace (cs : List Char) : List Char :=
  cs.dropWhile isSpace

/-! ## Strings -/

/-- The character after a backslash that stands for one character. -/
def simpleEscape? : Char → Option Char
  | '"' => some '"'
  | '\\' => some '\\'
  | '/' => some '/'
  | 'b' => some '\x08'
  | 'f' => some '\x0c'
  | 'n' => some '\n'
  | 'r' => some '\r'
  | 't' => some '\t'
  | _ => none

/-- Four hexadecimal digits. -/
def hex4? : List Char → Option (Nat × List Char)
  | a :: b :: c :: d :: rest =>
    if [a, b, c, d].all (fun x => (digitValue? x).isSome) then
      some (ofDigits 16 [a, b, c, d], rest)
    else none
  | _ => none

def isHighSurrogate (n : Nat) : Bool := 0xD800 ≤ n && n ≤ 0xDBFF
def isLowSurrogate (n : Nat) : Bool := 0xDC00 ≤ n && n ≤ 0xDFFF

def joinSurrogates (high low : Nat) : Nat :=
  0x10000 + (high - 0xD800) * 0x400 + (low - 0xDC00)

/-- The character of a code unit that stands alone. -/
def unitChar (n : Nat) : Char :=
  if 0xD800 ≤ n ∧ n ≤ 0xDFFF then Char.ofNat 0xFFFD else Char.ofNat n

/-- The character that the text after a backslash and a `u` stands for, and the rest after it. The
digits of an escape may not be the last characters of the text. -/
def unicodeEscape (start rest : List Char) : Except Fault (Char × List Char) :=
  match hex4? rest with
  | none | some (_, []) => fail .badUnicodeEscape start
  | some (n, rest) =>
    match isHighSurrogate n, rest with
    | true, '\\' :: 'u' :: rest' =>
      match hex4? rest' with
      | some (m, rest'') =>
        if rest''.isEmpty then .ok (unitChar n, rest)
        else if isLowSurrogate m then .ok (Char.ofNat (joinSurrogates n m), rest'')
        else .ok (unitChar n, rest)
      | none =>
        if rest'.length ≤ 4 then .ok (unitChar n, rest) else fail .badUnicodeEscape ('u' :: rest')
    | _, _ => .ok (unitChar n, rest)

/-- The characters of a string after its opening quote, `opening` being the text from there on. -/
def chars (opening : List Char) : Nat → List Char → Except Fault (List Char × List Char)
  | 0, _ | _, [] => fail .unclosedString opening
  | fuel + 1, c :: rest =>
    if c = '"' then .ok ([], rest)
    else if c = '\\' then
      match rest with
      | [] => fail .unclosedString opening
      | 'u' :: rest' => do
        let (c, rest) ← unicodeEscape rest rest'
        let (cs, rest) ← chars opening fuel rest
        .ok (c :: cs, rest)
      | e :: rest' =>
        match simpleEscape? e with
        | none => fail .badEscape (c :: rest)
        | some c => do
          let (cs, rest) ← chars opening fuel rest'
          .ok (c :: cs, rest)
    else if c.toNat < 32 then fail .controlCharacter (c :: rest)
    else do
      let (cs, rest) ← chars opening fuel rest
      .ok (c :: cs, rest)

/-- A string, from its opening quote on. -/
def string (text : List Char) : Except Fault (String × List Char) := do
  let (cs, rest) ← chars text text.length (text.drop 1)
  .ok (String.ofList cs, rest)

/-! ## Numbers -/

/-- The digits of an integer: a zero alone, or digits that start with none. -/
def integerPart : List Char → Option (List Char × List Char)
  | '0' :: rest => some (['0'], rest)
  | c :: rest =>
    if isDigit c then some (c :: rest.takeWhile isDigit, rest.dropWhile isDigit) else none
  | [] => none

/-- The digits after a point, if a digit follows it. -/
def fractionPart : List Char → List Char × List Char
  | '.' :: c :: rest =>
    if isDigit c then (c :: rest.takeWhile isDigit, rest.dropWhile isDigit) else ([], '.' :: c :: rest)
  | cs => ([], cs)

/-- A sign that may stand before an exponent. -/
def exponentSign : List Char → Bool × List Char
  | '-' :: rest => (true, rest)
  | '+' :: rest => (false, rest)
  | cs => (false, cs)

/-- The exponent, if one with a digit follows. -/
def exponentPart (cs : List Char) : Option (Int × List Char) :=
  match cs with
  | e :: rest =>
    if e = 'e' ∨ e = 'E' then
      let (negative, rest) := exponentSign rest
      let ds := rest.takeWhile isDigit
      if ds.isEmpty then none
      else
        let n : Int := ofDigits 10 ds
        some (if negative then -n else n, rest.dropWhile isDigit)
    else none
  | [] => none

/-- The integer that digits denote. -/
def integerOf (negative : Bool) (digits : List Char) : Except Problem Value :=
  if maxDigits < digits.length then .error (.tooManyDigits digits.length)
  else
    let n : Int := ofDigits 10 digits
    .ok (.int (if negative then -n else n))

/-- A number without its sign. -/
def unsigned (negative : Bool) (cs : List Char) : Except Problem (Value × List Char) :=
  match integerPart cs with
  | none => .error .expectedValue
  | some (whole, rest) =>
    let (fraction, rest) := fractionPart rest
    match fraction, exponentPart rest with
    | [], none => do .ok (← integerOf negative whole, rest)
    | fraction, exponent =>
      let (e, rest) := exponent.getD (0, rest)
      let digits := ofDigits 10 (whole ++ fraction)
      .ok (.float (Binary64.ofDecimal negative digits (e - fraction.length)), rest)

def number (text : List Char) : Except Fault (Value × List Char) :=
  let result := match text with
    | '-' :: rest => unsigned true rest
    | cs => unsigned false cs
  match result with
  | .ok r => .ok r
  | .error p => fail p text

/-! ## Values -/

/-- The rest of a text after a word that it starts with. -/
def after? : List Char → List Char → Option (List Char)
  | [], cs => some cs
  | w :: ws, c :: cs => if w = c then after? ws cs else none
  | _ :: _, [] => none

/-- The words that stand for values. -/
def words : List (List Char × Value) :=
  [("null".toList, .null), ("true".toList, .bool true), ("false".toList, .bool false),
    ("NaN".toList, .float .nan), ("Infinity".toList, .float (.infinite false)),
    ("-Infinity".toList, .float (.infinite true))]

/-- A word or a number. -/
def atom (text : List Char) : Except Fault (Value × List Char) :=
  match words.findSome? fun (w, v) => (after? w text).map (v, ·) with
  | some r => .ok r
  | none => number text

mutual

/-- A value at the start of a text, with room on the stack for so many lists and objects within each
other. The fuel bounds the depth and the number of its parts. -/
def value : (depth fuel : Nat) → List Char → Except Fault (Value × List Char)
  | _, 0, text => fail .expectedValue text
  | depth, fuel + 1, text =>
    match text with
    | '"' :: _ => do
      let (s, rest) ← string text
      .ok (.str s, rest)
    | '[' :: rest =>
      match depth with
      | 0 => fail .tooDeep text
      | depth + 1 =>
        match skipSpace rest with
        | ']' :: rest => .ok (.list [], rest)
        | rest => do
          let (vs, rest) ← items depth fuel rest
          .ok (.list vs, rest)
    | '{' :: rest =>
      match depth with
      | 0 => fail .tooDeep text
      | depth + 1 =>
        match skipSpace rest with
        | '}' :: rest => .ok (.object [], rest)
        | rest => do
          let (es, rest) ← entries depth fuel [] rest
          .ok (.object es, rest)
    | text => atom text

/-- The items of a list up to its closing bracket. -/
def items : (depth fuel : Nat) → List Char → Except Fault (List Value × List Char)
  | _, 0, text => fail .expectedValue text
  | depth, fuel + 1, text => do
    let (v, rest) ← value depth fuel text
    match skipSpace rest with
    | ']' :: rest => .ok ([v], rest)
    | ',' :: rest => do
      let (vs, rest) ← items depth fuel (skipSpace rest)
      .ok (v :: vs, rest)
    | rest => fail .expectedComma rest

/-- The entries of an object up to its closing brace, set one after the other. -/
def entries : (depth fuel : Nat) → List (String × Value) → List Char →
    Except Fault (List (String × Value) × List Char)
  | _, 0, _, text => fail .expectedKey text
  | depth, fuel + 1, es, text =>
    match text with
    | '"' :: _ => do
      let (k, rest) ← string text
      match skipSpace rest with
      | ':' :: rest => do
        let (v, rest) ← value depth fuel (skipSpace rest)
        let es := Value.insert k v es
        match skipSpace rest with
        | '}' :: rest => .ok (es, rest)
        | ',' :: rest => entries depth fuel es (skipSpace rest)
        | rest => fail .expectedComma rest
      | rest => fail .expectedColon rest
    | text => fail .expectedKey text

end

/-- The value of a whole text, with room on the stack for so many lists and objects within each other;
blanks may stand around it. -/
def parse (depth : Nat) (text : List Char) : Except Fault Value :=
  match text with
  | c :: _ =>
    if c = Char.ofNat 0xFEFF then fail .byteOrderMark text else document
  | [] => document
where
  document : Except Fault Value := do
    let (v, rest) ← value depth (2 * text.length + 2) (skipSpace text)
    match skipSpace rest with
    | [] => .ok v
    | rest => fail .extraData rest

end Nftables.Json
