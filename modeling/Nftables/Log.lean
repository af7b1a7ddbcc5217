/-!
# Log records

What the parts that talk to the worker note about it, beside their results.
-/

namespace Nftables.Log

inductive Severity where
  | debug | info | warning | error | critical
deriving DecidableEq, Repr

namespace Severity

def name : Severity → String
  | .debug => "DEBUG"
  | .info => "INFO"
  | .warning => "WARNING"
  | .error => "ERROR"
  | .critical => "CRITICAL"

/-- The higher, the more severe. -/
def rank : Severity → Nat
  | .debug => 0
  | .info => 1
  | .warning => 2
  | .error => 3
  | .critical => 4

def all : List Severity :=
  [.debug, .info, .warning, .error, .critical]

end Severity

structure Record where
  severity : Severity
  /-- the name of the part that made the record -/
  source : String
  message : List Char
deriving DecidableEq, Repr

/-- The records that are at least as severe as a threshold. -/
def atLeast (threshold : Severity) (rs : List Record) : List Record :=
  rs.filter fun r => threshold.rank ≤ r.severity.rank

end Nftables.Log
