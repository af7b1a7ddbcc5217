/-!
# Binary floating-point numbers

The 64-bit binary numbers as exact values: a sign, a significand and a power of two. A number that
is not representable is rounded to the nearest one, and of two equally near ones to the one with
the even significand.
-/

namespace Nftables

/-- A floating-point number; `finite s m e` stands for `m * 2 ^ e`, with a minus sign if `s`. -/
inductive Binary64 where
  | finite (negative : Bool) (significand : Nat) (exponent : Int)
  | infinite (negative : Bool)
  | nan
deriving DecidableEq, Repr, Inhabited

namespace Binary64

def zero (negative : Bool) : Binary64 :=
  .finite negative 0 (-1074)

/-- The quotient rounded to the nearest integer, a half to the even neighbour. -/
def roundDiv (num den : Nat) : Nat :=
  let q := num / den
  let r := num % den
  if 2 * r < den then q
  else if den < 2 * r then q + 1
  else if q % 2 = 0 then q else q + 1

/-- Multiplies the fraction `num / den` by a power of two. -/
def scale (num den : Nat) (e : Int) : Nat × Nat :=
  if 0 ≤ e then (num * Nat.pow 2 e.toNat, den) else (num, den * Nat.pow 2 (-e).toNat)

/-- The number nearest to `num / den`. -/
def ofRatio (negative : Bool) (num den : Nat) : Binary64 :=
  if num = 0 then zero negative
  else
    let k : Int := num.log2 - den.log2
    let (n, d) := scale num den (-k)
    let e := max (if d ≤ n then k - 52 else k - 53) (-1074)
    let (n, d) := scale num den (-e)
    let m := roundDiv n d
    let (m, e) := if m = Nat.pow 2 53 then (Nat.pow 2 52, e + 1) else (m, e)
    if 971 < e then .infinite negative else .finite negative m e

/-- The number nearest to `digits * 10 ^ exponent`. Far beyond the range of the format the power of
ten is not worked out. -/
def ofDecimal (negative : Bool) (digits : Nat) (exponent : Int) : Binary64 :=
  if digits = 0 then zero negative
  else if 400 < exponent then .infinite negative
  else if 0 ≤ exponent then ofRatio negative (digits * Nat.pow 10 exponent.toNat) 1
  else if digits.log2 + 400 < (-exponent).toNat then zero negative
  else ofRatio negative digits (Nat.pow 10 (-exponent).toNat)

/-- The number nearest to an integer, unless it is out of range. -/
def ofInt? (n : Int) : Option Binary64 :=
  match ofRatio (n < 0) n.natAbs 1 with
  | .infinite _ => none
  | x => some x

def isPositive : Binary64 → Bool
  | .finite s m _ => !s && m ≠ 0
  | .infinite s => !s
  | .nan => false

/-- Is the number at most zero? Neither this nor `isPositive` holds of a number that is none. -/
def isNonPositive : Binary64 → Bool
  | .finite s m _ => s || m = 0
  | .infinite s => s
  | .nan => false

/-- The exact value of a finite number. -/
def toRat? : Binary64 → Option Rat
  | .finite s m e =>
    let (n, d) := scale m 1 e
    some (mkRat (if s then -(n : Int) else n) d)
  | _ => none

end Binary64

end Nftables
