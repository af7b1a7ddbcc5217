import Nftables.Value.Literal

/-!
# Errors of the transport

Why no reply has come from the worker. After a timeout the outcome of the request is unknown.
-/

namespace Nftables

/-- What has become of the connection with a worker. -/
inductive Breakdown where
  | closed
  | outOfSync
  | requestsClosed
  | repliesClosed
  /-- the worker of a command could not be started, for a reason given by the system -/
  | notStarted (command : String) (reason : String)
deriving DecidableEq, Repr

inductive TransportError where
  | noRequestor
  | noChannel
  | timedOut
  | down (b : Breakdown)
deriving DecidableEq, Repr

def Breakdown.message : Breakdown → String
  | .closed => "Channel is closed"
  | .outOfSync => "Channel is out of sync after an earlier timeout"
  | .requestsClosed => "Worker closed its request channel"
  | .repliesClosed => "Worker closed its response channel"
  | .notStarted command reason =>
    "Cannot start worker " ++ (Value.str command).showLiteral ++ ": " ++ reason

def TransportError.message : TransportError → String
  | .noRequestor => "No transport configured: pass a requestor or use with_transport()"
  | .noChannel => "No worker channel configured"
  | .timedOut => "Timed out waiting for the worker"
  | .down b => b.message

end Nftables
