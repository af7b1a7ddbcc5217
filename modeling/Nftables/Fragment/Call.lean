import Nftables.Call
import Nftables.Fragment
import Nftables.Json.Printer

/-!
# Fragments by name

The constructors of terms and fragments, called by the names they have in scripts.
-/

namespace Nftables

/-- What a constructor makes. -/
inductive Part where
  | term (v : Value)
  | fragment (f : Fragment)

namespace Part

open Parameter (required optional)

/-- An optional text argument: null, or the text of the value. -/
def textOrNull (v : Value) : Except ShapeError Value :=
  if v.isNull then .ok .null else .str <$> v.argumentText

/-- A key of an object given as a value: numbers, truth values and null are written as in JSON. -/
def keyOf : Value → Except ShapeError String
  | .str s => .ok s
  | .list _ | .tuple _ | .set _ | .object _ | .range .. => .error .unsupported
  | v => .ok (Json.showCompact v)

/-- The statements of a set statement; nothing and everything empty is none. -/
def statementsOf (v : Value) : Except ShapeError (List Value) :=
  if v.truthy then v.items else .ok []

def termCall (c : Call) : Except ShapeError (Option Value) := do
  match c.name with
  | "payload" =>
    let [protocol, field] ← c.bind [required "protocol", required "field"] | pure none
    pure (Term.payload (← protocol.argumentText) field)
  | "payload_raw" =>
    let [base, offset, length] ←
      c.bind [required "base", required "offset", required "length"] | pure none
    pure (Term.rawPayload (← base.argumentText) offset length)
  | "meta" =>
    let [key] ← c.bind [required "key"] | pure none
    pure (Term.metaKey key)
  | "ct" =>
    let [key, direction] ← c.bind [required "key", optional "direction"] | pure none
    if direction.isNull then pure (Term.ct key none)
    else pure (Term.ct key (some (← direction.argumentText)))
  | "socket" =>
    let [key] ← c.bind [required "key"] | pure none
    pure (Term.socket key)
  | "osf" =>
    let [key, ttl] ← c.bind [required "key", required "ttl"] | pure none
    pure (Term.fingerprint key (← ttl.argumentText))
  | "tcp_option" =>
    let [name, field] ← c.bind [required "name", required "field"] | pure none
    pure (Term.tcpOption name field)
  | "prefix" =>
    let [address, length] ← c.bind [required "addr", required "length"] | pure none
    pure (Term.addressBlock address length)
  | "range_" =>
    let [low, high] ← c.bind [required "low", required "high"] | pure none
    pure (Term.range low high)
  | "anon_set" =>
    let [values] ← c.bind [required "values"] | pure none
    pure (Term.anonymousSet (← values.items))
  | "bitwise_and" =>
    let [left, mask] ← c.bind [required "expr", required "mask"] | pure none
    pure (Term.bitAnd left mask)
  | "plus" =>
    let [left, n] ← c.bind [required "expr", required "value"] | pure none
    pure (Term.plus left n)
  | "minus" =>
    let [left, n] ← c.bind [required "expr", required "value"] | pure none
    pure (Term.minus left n)
  | "set_ref" =>
    let [name] ← c.bind [required "name"] | pure none
    pure (← Term.setRef? name)
  | _ => pure none

def fragmentCall (c : Call) : Except ShapeError (Option Fragment) := do
  match c.name with
  | "match" =>
    let [left, right, op] ←
      c.bind [required "left", required "right", optional "op" (.str "==")] | pure none
    pure (Fragment.condition left right (← op.argumentText))
  | "ct_count" =>
    let [count, inverted] ← c.bind [required "count", optional "inverted"] | pure none
    pure (Fragment.connectionCount count inverted.truthy)
  | "verdict" =>
    let [name, target] ← c.bind [required "name", optional "target"] | pure none
    pure (Fragment.verdict (← name.argumentText) target)
  | "reject" =>
    let [type, code] ← c.bind [optional "reject_type", optional "expr"] | pure none
    pure (Fragment.reject type code)
  | "statement" =>
    let [key, v] ← c.bind [required "key", optional "value"] | pure none
    pure (Fragment.statement (← keyOf key) v)
  | "counter" =>
    let [name] ← c.bind [optional "name"] | pure none
    pure (Fragment.counter name)
  | "log" =>
    let [label, level, group] ←
      c.bind [optional "prefix", optional "level", optional "group"] | pure none
    pure (Fragment.log label (← textOrNull level) group)
  | "limit" =>
    let [rate, per, burst, rateUnit, inverted] ←
      c.bind [required "rate", required "per", optional "burst", optional "rate_unit",
        optional "inverted"] | pure none
    pure (Fragment.limit rate (← per.argumentText) burst (← textOrNull rateUnit) inverted.truthy)
  | "mangle" =>
    let [key, v] ← c.bind [required "key", required "value"] | pure none
    pure (Fragment.mangle key v)
  | "nat" =>
    let [kind, address, port, family] ←
      c.bind [required "kind", optional "addr", optional "port", optional "family"] | pure none
    pure (Fragment.nat (← keyOf kind) address port (← textOrNull family))
  | "set_statement" =>
    let [op, element, name, statements] ←
      c.bind [required "op", required "elem", required "set_name", optional "stmts"] | pure none
    pure (Fragment.setStatement op element (← Term.setRef? name)
      (← statementsOf statements))
  | _ => pure none

/-- What a constructor makes of its arguments. -/
def ofCall (c : Call) : Except ShapeError Part := do
  match ← termCall c with
  | some v => pure (.term v)
  | none =>
    match ← fragmentCall c with
    | some f => pure (.fragment f)
    | none => throw .noParts

end Part

end Nftables
