import Nftables.Frame
import Nftables.Json.Printer
import Nftables.Text.Utf8
import Nftables.Transport

/-!
# Clients

What is submitted through a channel: documents in the form of text, bytes or values, with a timeout
of their own or else the client's.
-/

namespace Nftables

open Nftables.Frame (Bytes)

inductive Document where
  | text (cs : List Char)
  | bytes (bs : Bytes)
  | value (v : Value)

/-- The bytes of a document. A value is written as compact JSON, with room on the stack for so many
lists and objects within each other. -/
def Document.payload (depth : Nat) : Document → Except WriteError Bytes
  | .text cs => .ok (Text.Utf8.encode cs)
  | .bytes bs => .ok bs
  | .value v => do .ok (Text.Utf8.encode (← Json.write depth v))

/-- A client, with a channel or without. -/
structure Client (channel : Type) where
  channel : Option channel
  timeout : Value

namespace Client

variable {channel : Type}

/-- Why nothing is submitted. -/
inductive Error where
  | transport (e : TransportError)
  | write (e : WriteError)
deriving DecidableEq, Repr

instance : MonadLift (Except WriteError) (Except Error) := ⟨Except.mapError .write⟩

/-- Seconds that a client waits by default. -/
def defaultTimeout : Binary64 := Binary64.ofRatio false 5 1

/-- The channel to which a document goes, the payload and the timeout. -/
def prepare (depth : Nat) (c : Client channel) (d : Document) (timeout : Value := .null) :
    Except Error (channel × Bytes × Value) :=
  match c.channel with
  | none => .error (.transport .noChannel)
  | some ch => do .ok (ch, ← d.payload depth, timeout.orNull c.timeout)

end Client

end Nftables
