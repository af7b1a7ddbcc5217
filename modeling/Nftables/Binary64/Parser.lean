import Nftables.Binary64
import Nftables.Text.Blank
import Nftables.Text.Case
import Nftables.Text.Decimals
import Nftables.Text.Digits

/-!
# Reading numbers

The floating-point number nearest to a decimal numeral. A numeral has a sign or none, digits with or
without a point among them, and an exponent or none; single low lines may stand between digits, and
blanks around it all.
-/

namespace Nftables.Binary64

open Text (isDigit ofDigits)

/-- Digits, and the rest after them; single low lines between digits are left out. -/
def digitRun : List Char → List Char × List Char
  | [] => ([], [])
  | '_' :: d :: cs => if isDigit d then
      let (ds, rest) := digitRun cs
      (d :: ds, rest)
    else ([], '_' :: d :: cs)
  | c :: cs => if isDigit c then
      let (ds, rest) := digitRun cs
      (c :: ds, rest)
    else ([], c :: cs)

/-- A run of digits that does not start with a low line. -/
def digits (cs : List Char) : List Char × List Char :=
  if cs.head? = some '_' then ([], cs) else digitRun cs

def signed : List Char → Bool × List Char
  | '-' :: cs => (true, cs)
  | '+' :: cs => (false, cs)
  | cs => (false, cs)

/-- An exponent that takes up the whole rest; none at all is zero. -/
def exponentOf? : List Char → Option Int
  | [] => some 0
  | c :: cs =>
    if c = 'e' ∨ c = 'E' then
      let (negative, cs) := signed cs
      match digits cs with
      | ([], _) => none
      | (ds, []) =>
        let n : Int := ofDigits 10 ds
        some (if negative then -n else n)
      | _ => none
    else none

def fraction : List Char → List Char × List Char
  | '.' :: cs => digits cs
  | cs => ([], cs)

/-- A numeral without its sign. -/
def unsigned? (negative : Bool) (cs : List Char) : Option Binary64 :=
  let (whole, rest) := digits cs
  let (places, rest) := fraction rest
  if whole.isEmpty && places.isEmpty then none
  else do
    let e ← exponentOf? rest
    some (ofDecimal negative (ofDigits 10 (whole ++ places)) (e - places.length))

/-- The number of a numeral, or of one of the names for infinity and for no number at all. -/
def parse? (cs : List Char) : Option Binary64 :=
  let (negative, cs) := signed (Text.plainDigits (Text.trim cs))
  let name := String.ofList (Text.lower cs)
  if name = "inf" ∨ name = "infinity" then some (.infinite negative)
  else if name = "nan" then some .nan
  else unsigned? negative cs

end Nftables.Binary64
