import Nftables.Outcome
import Nftables.Transaction
import Nftables.Transport

/-!
# Submission

Sending the document of a transaction to a worker and classifying its reply.
-/

namespace Nftables

/-- What a worker is asked: the bytes of a document, and how long to wait for the reply. A timeout of
null leaves that to the worker's side. -/
structure Request where
  document : List UInt8
  timeout : Value

/-- Something that answers requests. -/
abbrev Requestor := Request → Reply

/-- Why nothing is submitted, or why nothing is known of what has been. -/
inductive SubmitError where
  | transport (e : TransportError)
  | write (e : WriteError)
  | stack (e : StackError)
deriving DecidableEq, Repr

instance : MonadLift (Except WriteError) (Except SubmitError) := ⟨Except.mapError .write⟩
instance : MonadLift (Except StackError) (Except SubmitError) := ⟨Except.mapError .stack⟩

namespace Transaction

def request (depth : Nat) (t : Transaction) (timeout : Value) : Except WriteError Request := do
  .ok { document := Text.Utf8.encode (← t.toJson depth), timeout }

/-- Sends a transaction through a requestor. The transaction itself stays as it is and may be sent
again. There is room on the stack for so many lists and objects within each other where it is written,
and for so many where its reply is read. -/
def submit (writing reading : Nat) (t : Transaction) (r : Option Requestor) (timeout : Value := .null)
    (markers : List String := Outcome.defaultMarkers) : Except SubmitError (Request × Outcome) :=
  match r with
  | none => .error (.transport .noRequestor)
  | some r => do
    let request ← t.request writing timeout
    let (outcome, _) ← Outcome.classify reading (r request) markers
    .ok (request, outcome)

end Transaction

end Nftables
