/-!
# Frames

The form of messages on a byte stream: the length of the message in four bytes, the most significant
first, and then the message itself. An empty message is a message.
-/

namespace Nftables.Frame

abbrev Bytes := List UInt8

/-- The greatest length of a message. -/
def maxLength : Nat := 0xFFFFFFFF

/-- The four bytes of a length. -/
def header (n : Nat) : Bytes :=
  [n / 0x1000000, n / 0x10000, n / 0x100, n].map UInt8.ofNat

/-- The number that bytes denote, the most significant first. -/
def number (bs : Bytes) : Nat :=
  bs.foldl (fun n b => 256 * n + b.toNat) 0

/-- A message with its length in front of it. -/
def frame (payload : Bytes) : Bytes :=
  header payload.length ++ payload

/-- The length of a message that does not fit into a frame. -/
structure TooLarge where
  length : Nat
deriving DecidableEq, Repr

def TooLarge.message (e : TooLarge) : String :=
  "Frame too large: " ++ toString e.length ++ " bytes"

/-- The frame of a message, if it is not too long for one. -/
def encode (payload : Bytes) : Except TooLarge Bytes :=
  if maxLength < payload.length then .error ⟨payload.length⟩ else .ok (frame payload)

/-- The first message of a stream and what comes after it, if it is there to its end. -/
def decode? (stream : Bytes) : Option (Bytes × Bytes) :=
  let rest := stream.drop 4
  let length := number (stream.take 4)
  if 4 ≤ stream.length ∧ length ≤ rest.length then some (rest.take length, rest.drop length)
  else none

end Nftables.Frame
