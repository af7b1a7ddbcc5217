/-!
# Digits

Numerals of natural numbers and integers, and reading them back.
-/

namespace Nftables.Text

/-- The decimal numeral of `n`, without leading zeros. -/
def decimal (n : Nat) : List Char :=
  if n < 10 then [n.digitChar] else decimal (n / 10) ++ [(n % 10).digitChar]

/-- The decimal numeral of an integer: a minus sign in front of a negative one. -/
def integer (n : Int) : List Char :=
  if n < 0 then '-' :: decimal n.natAbs else decimal n.natAbs

/-- The most digits of a decimal numeral that is read or written. -/
def maxDigits : Nat := 4300

/-- Has an integer a decimal numeral that can be written? The sign is no digit. -/
def hasNumeral (n : Int) : Bool :=
  (decimal n.natAbs).length ≤ maxDigits

/-- The hexadecimal numeral of `n` in lower case, without leading zeros. -/
def hexadecimal (n : Nat) : List Char :=
  if n < 16 then [n.digitChar] else hexadecimal (n / 16) ++ [(n % 16).digitChar]

/-- The lowest `width` hexadecimal digits of `n`. -/
def hexDigits : Nat → Nat → List Char
  | 0, _ => []
  | width + 1, n => hexDigits width (n / 16) ++ [(n % 16).digitChar]

def isDigit (c : Char) : Bool :=
  '0' ≤ c && c ≤ '9'

/-- The value of a hexadecimal digit of either case. -/
def digitValue? (c : Char) : Option Nat :=
  if '0' ≤ c && c ≤ '9' then some (c.toNat - 48)
  else if 'a' ≤ c && c ≤ 'f' then some (c.toNat - 87)
  else if 'A' ≤ c && c ≤ 'F' then some (c.toNat - 55)
  else none

def digitValue (c : Char) : Nat :=
  (digitValue? c).getD 0

/-- The number that a list of digits denotes in a base, most significant digit first. -/
def ofDigits (base : Nat) (cs : List Char) : Nat :=
  cs.foldl (fun n c => base * n + digitValue c) 0

/-- The number a text denotes in a base, if it holds digits of that base and at least one. -/
def number? (base : Nat) (cs : List Char) : Option Nat :=
  if !cs.isEmpty && cs.all (fun c => (digitValue? c).any (· < base)) then some (ofDigits base cs)
  else none

/-- A numeral as a text. -/
def showNat (n : Nat) : String :=
  String.ofList (decimal n)

def showInt (n : Int) : String :=
  String.ofList (integer n)

end Nftables.Text
