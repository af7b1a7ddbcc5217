import Nftables.Text.Digits
import Nftables.Text.Pattern

/-!
# Tags

What a node is, said by its tag. A plain scalar without a tag is given one by its form: the words
and numerals of version 1.1 of the format, in which an octal numeral starts with a zero, a colon
stands between the digits of a number in base 60 and the exponent of a number needs a sign and a
point in front of it.
-/

namespace Nftables.Yaml

open Text (isDigit Pattern)

/-- The tags that have a meaning; all others have none. -/
inductive Tag where
  | null | bool | int | float | text | binary | timestamp | sequence | mapping | set
  | orderedMapping | pairs
  /-- the key whose value takes the place of the mapping -/
  | merge
  /-- the key whose value is that of the mapping -/
  | default
  | unknown
deriving DecidableEq, Repr

namespace Tag

/-- What every standard tag begins with. -/
def standard : String := "tag:yaml.org,2002:"

def names : List (String × Tag) :=
  [("null", .null), ("bool", .bool), ("int", .int), ("float", .float), ("str", .text),
    ("binary", .binary), ("timestamp", .timestamp), ("seq", .sequence), ("map", .mapping),
    ("set", .set), ("omap", .orderedMapping), ("pairs", .pairs), ("merge", .merge),
    ("value", .default)]

def ofName (s : String) : Tag :=
  match names.find? fun e => standard ++ e.1 = s with
  | some e => e.2
  | none => .unknown

/-! ## Forms of plain scalars -/

open Text.Pattern

def isDigitOrMark (c : Char) : Bool := isDigit c || c == '_'
def isBinary (c : Char) : Bool := c == '0' || c == '1' || c == '_'
def isOctal (c : Char) : Bool := ('0' ≤ c && c ≤ '7') || c == '_'
def isHexadecimal (c : Char) : Bool := (Text.digitValue? c).isSome || c == '_'

def sign : Pattern := opt (one fun c => c == '+' || c == '-')

def digit : Pattern := one isDigit

/-- Further digits of a number in base 60, each after a colon. -/
def sixties : Nat → Pattern
  | 0 => fun _ => []
  | fuel + 1 => fun cs =>
    let part := inOrder [char ':', opt (one fun c => '0' ≤ c && c ≤ '5'), digit]
    (part cs).flatMap fun rest => sixties fuel rest ++ [rest]

def boolForm : Pattern :=
  words ["yes", "Yes", "YES", "no", "No", "NO", "true", "True", "TRUE", "false", "False", "FALSE",
    "on", "On", "ON", "off", "Off", "OFF"]

def nullForm : Pattern :=
  words ["~", "null", "Null", "NULL"]

def exponent : Pattern :=
  opt (inOrder [one fun c => c == 'e' || c == 'E', one fun c => c == '-' || c == '+',
    several isDigit])

def floatForm : Pattern := fun cs =>
  inOrder [sign, digit, many isDigitOrMark, char '.', many isDigitOrMark, exponent] cs ++
    inOrder [char '.', digit, many isDigitOrMark, exponent] cs ++
    inOrder [sign, digit, many isDigitOrMark, sixties cs.length, char '.', many isDigitOrMark] cs ++
    inOrder [sign, words [".inf", ".Inf", ".INF"]] cs ++
    words [".nan", ".NaN", ".NAN"] cs

def intForm : Pattern := fun cs =>
  let isLeading (c : Char) : Bool := isDigit c && c != '0'
  inOrder [sign, word "0b", several isBinary] cs ++
    inOrder [sign, char '0', several isOctal] cs ++
    inOrder [sign, orElse (char '0') (inOrder [one isLeading, many isDigitOrMark])] cs ++
    inOrder [sign, word "0x", several isHexadecimal] cs ++
    inOrder [sign, one isLeading, many isDigitOrMark, sixties cs.length] cs

def isBlank (c : Char) : Bool := c == ' ' || c == '\t'

/-- The time of day, after a date whose month and day may have a digit each. -/
def timeForm : Pattern :=
  inOrder [
    orElse (one fun c => c == 'T' || c == 't') (several isBlank),
    times digit 1 1, char ':', times digit 2 0, char ':', times digit 2 0,
    opt (inOrder [char '.', many isDigit]),
    opt (inOrder [many isBlank, orElse (char 'Z')
      (inOrder [one fun c => c == '-' || c == '+', times digit 1 1,
        opt (inOrder [char ':', times digit 2 0])])])]

def timestampForm : Pattern :=
  orElse (inOrder [times digit 4 0, char '-', times digit 2 0, char '-', times digit 2 0])
    (inOrder [times digit 4 0, char '-', times digit 1 1, char '-', times digit 1 1, timeForm])

/-- The tag of a plain scalar by its form. The forms do not overlap. -/
def ofPlain (cs : List Char) : Tag :=
  if boolForm.covers cs then .bool
  else if floatForm.covers cs then .float
  else if intForm.covers cs then .int
  else if (Pattern.word "<<").covers cs then .merge
  else if cs = [] ∨ nullForm.covers cs then .null
  else if timestampForm.covers cs then .timestamp
  else if (char '=').covers cs then .default
  else if (one fun c => c == '!' || c == '&' || c == '*').covers cs then .unknown
  else .text

end Tag

end Nftables.Yaml
