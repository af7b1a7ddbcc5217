/-!
# UTF-8

Bytes of a text, and the text of any bytes: each maximal ill-formed part is read as one
replacement character.
-/

namespace Nftables.Text.Utf8

def encode (cs : List Char) : List UInt8 :=
  cs.flatMap String.utf8EncodeChar

def replacement : Char :=
  Char.ofNat 0xFFFD

/-- What the bytes read so far still call for. -/
inductive State where
  /-- Between characters. -/
  | start
  /-- Within a character: `more` bytes are missing after the next one, which has to lie from `low`
  to `high`; `bits` is the value of the bytes read. -/
  | within (more low high bits : Nat)
deriving DecidableEq, Repr

/-- One byte between characters. -/
def lead (b : Nat) : List Char × State :=
  if b < 0x80 then ([Char.ofNat b], .start)
  else if 0xC2 ≤ b && b ≤ 0xDF then ([], .within 0 0x80 0xBF (b - 0xC0))
  else if b = 0xE0 then ([], .within 1 0xA0 0xBF 0)
  else if b = 0xED then ([], .within 1 0x80 0x9F 13)
  else if 0xE1 ≤ b && b ≤ 0xEF then ([], .within 1 0x80 0xBF (b - 0xE0))
  else if b = 0xF0 then ([], .within 2 0x90 0xBF 0)
  else if 0xF1 ≤ b && b ≤ 0xF3 then ([], .within 2 0x80 0xBF (b - 0xF0))
  else if b = 0xF4 then ([], .within 2 0x80 0x8F 4)
  else ([replacement], .start)

/-- One byte: the characters it completes and the state after it. -/
def step : State → Nat → List Char × State
  | .start, b => lead b
  | .within more low high bits, b =>
    if low ≤ b && b ≤ high then
      let bits := 64 * bits + (b - 0x80)
      match more with
      | 0 => ([Char.ofNat bits], .start)
      | more + 1 => ([], .within more 0x80 0xBF bits)
    else
      let (cs, s) := lead b
      (replacement :: cs, s)

def decodeFrom : State → List UInt8 → List Char
  | .start, [] => []
  | .within .., [] => [replacement]
  | s, b :: bs =>
    let (cs, s) := step s b.toNat
    cs ++ decodeFrom s bs

def decode (bs : List UInt8) : List Char :=
  decodeFrom .start bs

end Nftables.Text.Utf8
