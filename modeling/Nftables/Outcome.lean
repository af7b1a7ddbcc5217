import Nftables.Json.Parser
import Nftables.Log
import Nftables.Text.Blank
import Nftables.Text.Utf8
import Nftables.Value.Literal

/-!
# Outcomes

What a reply of the worker means. A blank reply is a success. A JSON document is a success with
data, unless it reports an error: by an `error` key of its own, or of an item of its result list.
Any other text is a failure, and a malformed one if no error marker occurs in it; silence about an
unknown text is never a success. A text with more lists and objects within each other than there is
room for on the stack has no outcome.
-/

namespace Nftables

open Text (trim occursIn)

/-- What a worker has answered. -/
inductive Reply where
  | nothing
  | text (cs : List Char)
  | bytes (bs : List UInt8)

/-- The text of a reply; ill-formed bytes are replaced. -/
def Reply.chars : Reply → List Char
  | .nothing => []
  | .text cs => cs
  | .bytes bs => Text.Utf8.decode bs

inductive Outcome where
  | success
  | data (document : Value)
  | failure (reason : Value) (malformed : Bool)

/-- There is no more room on the stack. -/
inductive StackError where
  | exhausted
deriving DecidableEq, Repr

/-- A failure that the worker has reported, or a reply that says nothing at all. -/
inductive SubsystemError where
  | reported (reason : Value)
  | malformed (reason : Value)

def SubsystemError.message : SubsystemError → String
  | .reported reason | .malformed reason => reason.showText

namespace Outcome

/-- The texts whose occurrence marks a reply as an error message. -/
def defaultMarkers : List String :=
  ["does not exist", "No such", "not found", "Error:"]

def status : Outcome → String
  | .success => "success"
  | .data _ => "success_with_data"
  | .failure .. => "failure"

def ok : Outcome → Bool
  | .failure .. => false
  | _ => true

def isMalformed : Outcome → Bool
  | .failure _ malformed => malformed
  | _ => false

def data? : Outcome → Value
  | .data v => v
  | _ => .null

def reason? : Outcome → Value
  | .failure reason _ => reason
  | _ => .null

/-- The outcome itself, unless it is a failure. -/
def orRaise : Outcome → Except SubsystemError Outcome
  | .failure reason true => .error (.malformed reason)
  | .failure reason false => .error (.reported reason)
  | o => .ok o

/-- The items of the result list: of the document itself, or of its entry `nftables`. -/
def resultItems? : Value → Option (List Value)
  | .list vs => some vs
  | v =>
    match v.get? "nftables" with
    | some (.list vs) => some vs
    | _ => none

/-- The error that a document reports, if it reports one. -/
def reportedError? (document : Value) : Option Value :=
  match resultItems? document with
  | some vs => vs.findSome? (·.get? "error")
  | none => document.get? "error"

def ofDocument (document : Value) : Outcome :=
  match reportedError? document with
  | some reason => .failure reason false
  | none => .data document

def source : String := "nftfabrik.transport._classifier"

def markerRecord (marker : String) : Log.Record :=
  { severity := .debug, source,
    message := "Text response matched error marker ".toList ++ Text.quoted marker.toList }

/-- A malformed reply is noted with its length and its first 200 characters. -/
def malformedRecord (text stripped : List Char) : Log.Record :=
  { severity := .warning, source,
    message := "Malformed response from worker (".toList ++ Text.decimal text.length ++
      " bytes): ".toList ++ stripped.take 200 }

/-- The outcome of a reply that is neither blank nor a document. -/
def ofText (markers : List String) (text : List Char) : Outcome × List Log.Record :=
  let stripped := trim text
  let reason := Value.str (String.ofList stripped)
  match markers.find? fun m => occursIn m.toList stripped with
  | some m => (.failure reason false, [markerRecord m])
  | none => (.failure reason true, [malformedRecord text stripped])

/-- The outcome of a reply that is not blank. What cannot be read is a text like any other, unless
reading it takes more room than there is. -/
def ofReply (depth : Nat) (markers : List String) (text : List Char) :
    Except StackError (Outcome × List Log.Record) :=
  match Json.parse depth text with
  | .ok document => .ok (ofDocument document, [])
  | .error f => if f.problem = .tooDeep then .error .exhausted else .ok (ofText markers text)

/-- What a reply means, and what is noted about it, with room on the stack for so many lists and
objects within each other. -/
def classify (depth : Nat) (r : Reply) (markers : List String := defaultMarkers) :
    Except StackError (Outcome × List Log.Record) :=
  let text := r.chars
  if (trim text).isEmpty then .ok (.success, []) else ofReply depth markers text

end Outcome

end Nftables
