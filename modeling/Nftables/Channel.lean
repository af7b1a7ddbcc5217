import Nftables.Binary64.Shortest
import Nftables.Frame
import Nftables.Log
import Nftables.Text.Digits
import Nftables.Transport

/-!
# Channels

Requests and replies over a pair of byte streams. Each request is one frame, answered by one frame.
After a timeout the reply may still come, and no later frame could be told from it: the channel is
out of sync then, and like a closed one it accepts no more requests.
-/

namespace Nftables

open Nftables.Frame (Bytes)

/-- Whether requests are accepted. -/
inductive ChannelStatus where
  | usable | outOfSync | closed
deriving DecidableEq, Repr

/-- A channel together with the state of the streams at its worker's side. -/
structure Channel where
  status : ChannelStatus := .usable
  /-- the bytes that the worker has written and that have not been read -/
  pending : Bytes := []
  /-- no more bytes will be written by the worker -/
  repliesClosed : Bool := false
  /-- no more bytes will be read by the worker -/
  requestsClosed : Bool := false
deriving DecidableEq, Repr

/-- Why a request has failed. Only errors of the transport make a channel unusable. -/
inductive RequestError where
  | transport (e : TransportError)
  | tooLarge (e : Frame.TooLarge)
  /-- the timeout is no number -/
  | shape (e : ShapeError)
  /-- the time to wait exceeds what can be waited for -/
  | waitTooLong
  /-- the time to wait is undefined -/
  | waitUndefined
deriving DecidableEq

/-- What comes of a request: the bytes that reach the worker, the reply and what is noted. -/
structure Exchange where
  written : Bytes := []
  reply : Except RequestError Bytes
  log : List Log.Record := []

namespace Channel

def usable (c : Channel) : Bool :=
  c.status = .usable

/-! ## Waiting -/

/-- Seconds as a number. -/
def seconds : Value → Except RequestError Binary64
  | .int n =>
    match Binary64.ofInt? n with
    | some x => .ok x
    | none => .error .waitTooLong
  | .bool b => .ok (Binary64.ofRatio false (if b then 1 else 0) 1)
  | .float x => .ok x
  | _ => .error (.shape .unsupported)

/-- The longest time that can be waited for, in milliseconds. -/
def maxWait : Nat := 0x7FFFFFFF

/-- Can so many seconds be waited for? -/
def checkWait (timeout : Binary64) : Except RequestError Unit :=
  match timeout with
  | .nan => .error .waitUndefined
  | .infinite _ => .error .waitTooLong
  | x =>
    match x.toRat? with
    | some q => if maxWait < q * 1000 then .error .waitTooLong else .ok ()
    | none => .error .waitUndefined

/-! ## Requests -/

def source : String := "nftfabrik.transport._channel"

def timeoutRecord (timeout : Binary64) : Log.Record :=
  { severity := .warning, source,
    message := "No response within ".toList ++ timeout.oneDecimal ++
      "s, channel is out of sync".toList }

def exchangeRecord (sent received : Nat) : Log.Record :=
  { severity := .debug, source,
    message := "Sent ".toList ++ Text.decimal sent ++ " bytes, received ".toList ++
      Text.decimal received ++ " bytes".toList }

/-- Nothing happens. -/
def refuse (c : Channel) (e : RequestError) : Channel × Exchange :=
  (c, { reply := .error e })

def timeOut (c : Channel) (timeout : Binary64) (written : Bytes) : Channel × Exchange :=
  ({ c with status := .outOfSync },
    { written, reply := .error (.transport .timedOut), log := [timeoutRecord timeout] })

def breakDown (c : Channel) (b : Breakdown) (written : Bytes) : Channel × Exchange :=
  ({ c with status := .closed }, { written, reply := .error (.transport (.down b)) })

/-- Reads the reply to a frame that has been written. What is there of an incomplete reply is
lost. -/
def receive (c : Channel) (payload frame : Bytes) (timeout : Binary64) : Channel × Exchange :=
  match Frame.decode? c.pending with
  | some (reply, rest) =>
    ({ c with pending := rest },
      { written := frame, reply := .ok reply, log := [exchangeRecord payload.length reply.length] })
  | none =>
    let c := { c with pending := [] }
    if c.repliesClosed then c.breakDown .repliesClosed frame else c.timeOut timeout frame

/-- Sends a request within a time that can be waited for. -/
def exchange (c : Channel) (payload frame : Bytes) (timeout : Binary64) : Channel × Exchange :=
  if c.requestsClosed then c.breakDown .requestsClosed [] else c.receive payload frame timeout

/-- Sends a request and waits for the reply, so many seconds at most. Without time nothing is sent.

Time does not pass here by itself: there is room for the whole frame where it is written to, so that
no request is broken off half-way, and what the worker has written by the end of the time is what has
been written when the request is made. A worker that is too slow is one that has not written. -/
def request (c : Channel) (payload : Bytes) (timeout : Value) : Channel × Exchange :=
  match c.status with
  | .closed => c.refuse (.transport (.down .closed))
  | .outOfSync => c.refuse (.transport (.down .outOfSync))
  | .usable =>
    match seconds timeout, Frame.encode payload with
    | .error e, _ => c.refuse e
    | .ok _, .error e => c.refuse (.tooLarge e)
    | .ok timeout, .ok frame =>
      if timeout.isNonPositive then c.timeOut timeout []
      else match checkWait timeout with
        | .error e => c.refuse e
        | .ok () => c.exchange payload frame timeout

/-! ## Steps -/

/-- What can happen to a channel, from either side. -/
inductive Event where
  | workerWrites (bs : Bytes)
  | workerClosesReplies
  | workerClosesRequests
  | request (payload : Bytes) (timeout : Value)
  | close

/-- Bytes that are written to a closed stream are lost. -/
def step (c : Channel) : Event → Channel × Option Exchange
  | .workerWrites bs =>
    (if c.repliesClosed then c else { c with pending := c.pending ++ bs }, none)
  | .workerClosesReplies => ({ c with repliesClosed := true }, none)
  | .workerClosesRequests => ({ c with requestsClosed := true }, none)
  | .request payload timeout =>
    let (c, x) := c.request payload timeout
    (c, some x)
  | .close => ({ c with status := .closed }, none)

end Channel

end Nftables
