import Nftables.Fragment
import Nftables.Value.Check

/-!
# Ports

The ports that a match or an address translation is about: one of them, all of a span, or any of
several. Every port is an integer from 0 to 65535, a span is not inverted and several are not none.
-/

namespace Nftables

inductive Ports where
  | one (port : Int)
  | span (first last : Int)
  | several (ports : List Int)
deriving DecidableEq, Repr

namespace Ports

def port (v : Value) : Except ArgumentError Int :=
  v.bounded "Port" 0 65535

/-- Several ports, in the given order. -/
def ofList (vs : List Value) : Except ArgumentError Ports :=
  if vs.isEmpty then .error .emptyPortSet else .several <$> vs.mapM port

/-- The ports a value denotes: an integer one, a progression by steps of one and a pair the span of
its bounds, a list several. A collection without an order is taken in ascending order. -/
def ofValue (v : Value) : Except BuildError Ports := do
  match v with
  | .range start stop step =>
    if step ≠ 1 ∨ rangeSize start stop step = 0 then throw (.argument (.portRange v))
    pure (.span (← port (.int start)) (← port (.int (stop - 1))))
  | .tuple [a, b] =>
    let first ← port a
    let last ← port b
    if last < first then throw (.argument (.invertedPorts a b))
    pure (.span first last)
  | .tuple _ => throw (.argument (.portPair v))
  | .list vs => ofList vs
  | .set vs => ofList (← Value.sort vs)
  | v => pure (.one (← port v))

/-- The term that stands for the ports on the wire. -/
def term : Ports → Value
  | .one n => .int n
  | .span first last => Term.range (.int first) (.int last)
  | .several ns => Term.anonymousSet (ns.map .int)

end Ports

end Nftables
