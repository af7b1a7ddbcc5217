import Nftables.Text.Digits
import Nftables.Text.Fields

/-!
# Internet addresses

Reading and writing addresses of both versions, and the literals of addresses and address blocks.
An address of version 6 is written in its shortest form: lower-case groups without leading zeros,
and the first of the longest runs of zero groups left out.
-/

namespace Nftables

open Text (split join number? decimal hexadecimal)

inductive IpVersion where
  | v4 | v6
deriving DecidableEq, Repr

namespace IpVersion

def number : IpVersion → Nat
  | v4 => 4
  | v6 => 6

/-- The number of bits of an address. -/
def width : IpVersion → Nat
  | v4 => 32
  | v6 => 128

end IpVersion

/-- An address, as the bits it consists of. -/
structure Address where
  version : IpVersion
  bits : BitVec version.width
deriving DecidableEq

namespace Address

/-! ## Version 4 -/

/-- A number up to 255 without leading zeros. -/
def octet? (cs : List Char) : Option Nat :=
  if cs.length ≤ 3 ∧ (cs = ['0'] ∨ cs.head? ≠ some '0') then (number? 10 cs).filter (· ≤ 255)
  else none

/-- Four octets with points between them. -/
def dotted? (cs : List Char) : Option (BitVec 32) :=
  match (split '.' cs).map octet? with
  | [some a, some b, some c, some d] =>
    some (BitVec.ofNat 32 (((a * 256 + b) * 256 + c) * 256 + d))
  | _ => none

def dotted (bits : BitVec 32) : List Char :=
  let n := bits.toNat
  join ['.'] ([n / 0x1000000, n / 0x10000 % 0x100, n / 0x100 % 0x100, n % 0x100].map decimal)

/-! ## Version 6 -/

/-- One to four hexadecimal digits. -/
def group? (cs : List Char) : Option Nat :=
  if cs.length ≤ 4 then number? 16 cs else none

/-- The fields of an address, with an address of version 4 in the last one written as two groups. -/
def withoutTail? (fields : List (List Char)) : Option (List (List Char)) :=
  match fields.getLast? with
  | some last =>
    if last.contains '.' then do
      let n := (← dotted? last).toNat
      some (fields.dropLast ++ [hexadecimal (n / 0x10000), hexadecimal (n % 0x10000)])
    else some fields
  | none => some fields

/-- The fields on one side of a gap. Nothing at all stands there if the gap ends the address. -/
def besideGap (fields : List (List Char)) : List (List Char) :=
  if fields = [[]] then [] else fields

/-- The places of the empty fields between the first and the last one. -/
def gaps (fields : List (List Char)) : List Nat :=
  (List.range fields.length).filter fun i =>
    0 < i && i + 1 < fields.length && fields[i]? == some []

/-- The place of the only gap, if there is one; nothing if there are several. -/
def gap? (fields : List (List Char)) : Option (Option Nat) :=
  match gaps fields with
  | [] => some none
  | [i] => some (some i)
  | _ => none

/-- The eight groups that fields stand for. A gap stands for one zero group or more. -/
def fieldGroups? (fields : List (List Char)) : Option (List Nat) := do
  match ← gap? fields with
  | none =>
    let groups ← fields.mapM group?
    if groups.length = 8 then some groups else none
  | some i =>
    let high ← (besideGap (fields.take i)).mapM group?
    let low ← (besideGap (fields.drop (i + 1))).mapM group?
    let n := high.length + low.length
    if n < 8 then some (high ++ List.replicate (8 - n) 0 ++ low) else none

/-- The eight groups of an address. -/
def groups? (cs : List Char) : Option (List Nat) := do
  fieldGroups? (← withoutTail? (split ':' cs))

def ofGroups (groups : List Nat) : BitVec 128 :=
  BitVec.ofNat 128 (groups.foldl (fun n g => n * 0x10000 + g) 0)

def groups (bits : BitVec 128) : List Nat :=
  (List.range 8).map fun i => bits.toNat / Nat.pow 0x10000 (7 - i) % 0x10000

/-- The number of zero groups in front. -/
def zeros (gs : List Nat) : Nat :=
  (gs.takeWhile (· = 0)).length

/-- The place and the length of the first of the longest runs of zero groups. -/
def longestZeros (gs : List Nat) : Nat × Nat :=
  (List.range gs.length).foldl
    (fun best i => if best.2 < zeros (gs.drop i) then (i, zeros (gs.drop i)) else best) (0, 0)

/-- The shortest text of eight groups. A single zero group is written out. -/
def writeGroups (gs : List Nat) : List Char :=
  let write (gs : List Nat) := join [':'] (gs.map hexadecimal)
  let (start, length) := longestZeros gs
  if 1 < length then write (gs.take start) ++ ':' :: ':' :: write (gs.drop (start + length))
  else write gs

/-! ## Both versions -/

def write (a : Address) : List Char :=
  match a with
  | ⟨.v4, bits⟩ => dotted bits
  | ⟨.v6, bits⟩ => writeGroups (groups bits)

/-- The first `length` bits of an address, with zeros for the others. -/
def truncate (a : Address) (length : Nat) : Address :=
  { a with bits := a.bits &&& ~~~(BitVec.allOnes a.version.width >>> length) }

end Address

/-- What a literal says: an address, possibly in a zone, or a block of all addresses that share the
first `length` bits with it. -/
structure AddressLiteral where
  address : Address
  zone : Option (List Char)
  length : Option Nat
deriving DecidableEq

namespace AddressLiteral

/-- The number of ones of a mask whose ones all stand in front. -/
def ones? (mask : BitVec 32) : Option Nat :=
  (List.range 33).find? fun n => mask == ~~~(BitVec.allOnes 32 >>> n)

/-- The number of bits that the addresses of a block share: a decimal number, or for version 4 a
mask of these bits or of the other ones. -/
def blockLength? (v : IpVersion) (cs : List Char) : Option Nat :=
  match (number? 10 cs).filter fun n => cs.length ≤ Text.maxDigits && n ≤ v.width, v with
  | some n, _ => some n
  | none, .v4 => do
    let mask ← Address.dotted? cs
    ones? mask <|> ones? (~~~mask)
  | none, .v6 => none

/-- An address and its zone; a zone, after a percent sign, is for version 6 only. -/
def addressOf? (cs : List Char) : Option (Address × Option (List Char)) :=
  match Address.dotted? cs with
  | some bits => some (⟨.v4, bits⟩, none)
  | none =>
    match split '%' cs with
    | [cs] => do some (⟨.v6, Address.ofGroups (← Address.groups? cs)⟩, none)
    | [cs, zone] =>
      if zone.isEmpty then none
      else do some (⟨.v6, Address.ofGroups (← Address.groups? cs)⟩, some zone)
    | _ => none

/-- Reads the literal of an address, or of a block after a slash. -/
def parse? (cs : List Char) : Option AddressLiteral :=
  match split '/' cs with
  | [cs] => do
    let (address, zone) ← addressOf? cs
    some { address, zone, length := none }
  | [cs, mask] => do
    let (address, zone) ← addressOf? cs
    let length ← blockLength? address.version mask
    some { address, zone, length := some length }
  | _ => none

/-- The first address of a block. Its text has the zone of the literal, unless bits have been
cleared. -/
def writeFirst (l : AddressLiteral) (length : Nat) : List Char :=
  let first := l.address.truncate length
  match l.zone with
  | some zone => if first = l.address then first.write ++ '%' :: zone else first.write
  | none => first.write

end AddressLiteral

end Nftables
