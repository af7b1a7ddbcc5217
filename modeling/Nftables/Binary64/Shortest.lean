import Nftables.Binary64
import Nftables.Text.Digits

/-!
# Decimal texts of floating-point numbers

The shortest decimal that reads back as the number, and the decimal with one place.
-/

namespace Nftables.Binary64

/-- A decimal: the digits of a natural number and the place of the point in front of which
`point` of them stand. -/
structure Decimal where
  digits : List Char
  point : Int
deriving Repr

/-- The reals that round to `significand * 2 ^ exponent`, as numerators over `4 * denominator`. -/
structure Interval where
  low : Nat
  value : Nat
  high : Nat
  denominator : Nat
  closed : Bool

def interval (m : Nat) (e : Int) : Interval :=
  let (u, d) := scale 1 1 e
  let below := if m = Nat.pow 2 52 ∧ -1074 < e then 1 else 2
  { low := (4 * m - below) * u, value := 4 * m * u, high := (4 * m + 2) * u,
    denominator := 4 * d, closed := m % 2 = 0 }

/-- Lies `c / d` in the interval, over the interval's own denominator? -/
def Interval.has (i : Interval) (c d : Nat) : Bool :=
  let x := c * i.denominator
  if i.closed then i.low * d ≤ x && x ≤ i.high * d else i.low * d < x && x < i.high * d

/-- The decimal exponent of `num / den`: the power of ten just below it. -/
def magnitude (num den : Nat) : Int :=
  if den ≤ num then (Text.decimal (num / den)).length - 1
  else -((Text.decimal ((den + num - 1) / num - 1)).length : Int)

/-- The one of the two neighbours of the value on the grid of multiples of `10 ^ place` that lies in
the interval: the nearer one if both do, an even one if they are equally near. -/
def Interval.onGrid? (i : Interval) (place : Int) : Option Nat :=
  let up := Nat.pow 10 place.toNat
  let down := Nat.pow 10 (-place).toNat
  -- the value counted in units of the grid
  let num := i.value * down
  let den := i.denominator * up
  let c := num / den
  let first := i.has (c * up) down
  let second := i.has ((c + 1) * up) down
  if first && second then some (roundDiv num den)
  else if first then some c
  else if second then some (c + 1)
  else none

/-- The first grid with a hit, from `place` downwards. -/
def Interval.firstHit : Interval → Nat → Int → Nat × Int
  | i, 0, place => (i.value * Nat.pow 10 (-place).toNat / (i.denominator * Nat.pow 10 place.toNat), place)
  | i, n + 1, place =>
    match i.onGrid? place with
    | some c => (c, place)
    | none => i.firstHit n (place - 1)

/-- The decimal with the fewest digits among those that read back as the number, and of these the
nearest to it. Seventeen digits always suffice. -/
def shortest (m : Nat) (e : Int) : Decimal :=
  let i := interval m e
  let (c, place) := i.firstHit 17 (magnitude i.value i.denominator)
  let ds := Text.decimal c
  { digits := ((ds.reverse.dropWhile (· == '0')).reverse), point := ds.length + place }

/-- How a decimal is written out. -/
structure Format where
  /-- the least and the greatest place of the point that are written without an exponent -/
  leastPoint : Int
  greatestPoint : Int
  /-- what is written for numbers that are not finite -/
  infinity : String
  notANumber : String

/-- Numbers from 0.0001 up to 10 ^ 16 are written without an exponent, and then with at least one
place; an exponent has a sign and at least two digits. -/
def Format.write (f : Format) : Binary64 → List Char
  | .nan => f.notANumber.toList
  | .infinite s => sign s ++ f.infinity.toList
  | .finite s 0 _ => sign s ++ ['0', '.', '0']
  | .finite s m e =>
    let d := shortest m e
    sign s ++
      if f.leastPoint ≤ d.point ∧ d.point ≤ f.greatestPoint then positional d else scientific d
where
  sign (s : Bool) : List Char := if s then ['-'] else []
  positional (d : Decimal) : List Char :=
    if d.point ≤ 0 then
      '0' :: '.' :: (List.replicate (-d.point).toNat '0' ++ d.digits)
    else
      let n := d.point.toNat
      if d.digits.length ≤ n then
        d.digits ++ List.replicate (n - d.digits.length) '0' ++ ['.', '0']
      else d.digits.take n ++ '.' :: d.digits.drop n
  scientific (d : Decimal) : List Char :=
    let x := d.point - 1
    let ds := Text.decimal x.natAbs
    let mantissa := match d.digits with
      | c :: c' :: cs => c :: '.' :: c' :: cs
      | cs => cs
    mantissa ++ 'e' :: (if x < 0 then '-' else '+') ::
      (if ds.length < 2 then '0' :: ds else ds)

/-- The text of a number in messages. -/
def plain : Format :=
  { leastPoint := -3, greatestPoint := 16, infinity := "inf", notANumber := "nan" }

/-- The text of a number in documents. -/
def document : Format :=
  { plain with infinity := "Infinity", notANumber := "NaN" }

/-- The number with one decimal place; a half of a tenth goes to the even neighbour. -/
def oneDecimal : Binary64 → List Char
  | .nan => ['n', 'a', 'n']
  | .infinite s => Format.write.sign s ++ ['i', 'n', 'f']
  | .finite s m e =>
    let (n, d) := scale (10 * m) 1 e
    let tenths := roundDiv n d
    Format.write.sign s ++ Text.decimal (tenths / 10) ++ ['.', (tenths % 10).digitChar]

end Nftables.Binary64
