import Nftables.Port

/-!
# Actions

What a rule does with a packet: statements, which let the evaluation go on, and verdicts. Arguments
are checked when an action is made into a fragment.
-/

namespace Nftables

/-- Fields of a packet or of its metadata that an action sets to a number. -/
inductive NumberTarget where
  | mark | ctMark | ctZone | ttl | hopLimit
deriving DecidableEq, Repr

namespace NumberTarget

def term : NumberTarget → Value
  | .mark => Term.metaKey (.str "mark")
  | .ctMark => Term.ct (.str "mark")
  | .ctZone => Term.ct (.str "zone")
  | .ttl => Term.payload "ip" (.str "ttl")
  | .hopLimit => Term.payload "ip6" (.str "hoplimit")

def check (t : NumberTarget) (v : Value) : Except ArgumentError Int :=
  match t with
  | .mark | .ctMark => v.bounded "Mark" 0 Value.max32
  | .ctZone => v.bounded "Zone" 0 Value.max16
  | .ttl => v.bounded "TTL" 0 255
  | .hopLimit => v.bounded "Hop limit" 0 255

end NumberTarget

inductive Action where
  | counter (name : Value)
  | log (label level group : Value)
  | limit (rate per burst : Value) (above : Bool)
  | setNumber (t : NumberTarget) (v : Value)
  /-- sets a key of the tracked connection to a value of any kind -/
  | setCt (key : String) (v : Value)
  | saveMark
  | restoreMark
  | setDscp (v : Value)
  | increment (t : NumberTarget)
  | decrement (t : NumberTarget)
  | setMss (v : Value)
  /-- translates addresses in the way of a kind -/
  | translate (kind : String) (address ports : Value)
  /-- redirects to ports, which may not be left out -/
  | redirect (ports : Value)
  /-- a rate limit for each key, kept in a set -/
  | meter (op : String) (key set rate per burst : Value)
  | verdict (v : Verdict) (target : Value)
  | reject (flavor : Value)
  | notrack
  | queue (num : Value) (bypass fanout : Bool)
  | dup (device address : Value)
  | flowOffload (flowtable : Value)
  | synproxy (mss scale : Value) (sackPermitted timestamp : Bool)
  | tproxy (port address family : Value)

namespace Action

/-- A value that may be left out, checked unless it is null. -/
def optionally (check : Value → Except ArgumentError Value) (v : Value) :
    Except ArgumentError Value :=
  if v.isNull then .ok .null else check v

/-- The names of the flags that are set. -/
def flags (fs : List (String × Bool)) : List (String × Value) :=
  match fs.filter (·.2) with
  | [] => []
  | fs => [("flags", .list (fs.map fun f => .str f.1))]

def int (what : String) (low high : Int) (v : Value) : Except ArgumentError Value :=
  .int <$> v.bounded what low high

/-- The term for ports that may be left out. -/
def ports (v : Value) : Except BuildError Value :=
  if v.isNull then .ok .null else Ports.term <$> Ports.ofValue v

def level (v : Value) : Except ArgumentError Value := do
  .ok (.str (Vocabulary.wire (← LogLevel.resolve v)))

def unit (v : Value) : Except ArgumentError String := do
  let u : RateUnit ← Vocabulary.resolve "rate unit" v
  .ok (Vocabulary.wire u)

def family (v : Value) : Except ArgumentError Value := do
  let f : Family ← Vocabulary.resolve "family" v
  .ok (.str (Vocabulary.wire f))

/-- The fragment of an action in an expression of a family. -/
def fragment (f : Family) (a : Action) : Except BuildError Fragment := do
  match a with
  | .counter name => pure (.counter name)
  | .log label lvl group =>
    let lvl ← optionally level lvl
    let group ← optionally (int "Log group" 0 Value.max16) group
    pure (.log label lvl group)
  | .limit rate per burst above =>
    let rate ← int "Rate" 0 Value.max64 rate
    let burst ← optionally (int "Burst" 0 Value.max32) burst
    pure (.limit rate (← unit per) burst .null above)
  | .setNumber t v => pure (.mangle t.term (.int (← t.check v)))
  | .setCt key v => pure (.mangle (Term.ct (.str key)) v)
  | .saveMark => pure (.mangle NumberTarget.ctMark.term NumberTarget.mark.term)
  | .restoreMark => pure (.mangle NumberTarget.mark.term NumberTarget.ctMark.term)
  | .setDscp v =>
    let header := if f = .ip6 then "ip6" else "ip"
    pure (.mangle (Term.payload header (.str "dscp")) (← resolveDscp v))
  | .increment t => pure (.mangle t.term (Term.plus t.term (.int 1)))
  | .decrement t => pure (.mangle t.term (Term.minus t.term (.int 1)))
  | .setMss v =>
    let field := Term.tcpOption (.str "maxseg") (.str "size")
    if v.isText "pmtu" then
      pure (.mangle field (Term.single "rt" (.object [("key", .str "mtu")])))
    else pure (.mangle field (← int "MSS" 1 Value.max16 v))
  | .translate kind address p => pure (.nat kind address (← ports p) .null)
  | .redirect p => pure (.nat "redirect" .null (← Ports.ofValue p).term .null)
  | .meter op key set rate per burst =>
    let u ← unit per
    let rate ← int "Rate" 0 Value.max64 rate
    let limit := Fragment.limit rate u burst .null false
    pure (.setStatement (.str op) key (← Term.setRef? set) [limit.body])
  | .verdict v target => pure (.verdict (Vocabulary.wire v) target)
  | .reject flavor =>
    let r ← RejectFlavor.resolve flavor
    pure (.reject r.typeTerm r.codeTerm)
  | .notrack => pure (.statement "notrack")
  | .queue num bypass fanout =>
    let num ← int "Queue number" 0 Value.max16 num
    pure (.statement "queue"
      (.object (("num", num) :: flags [("bypass", bypass), ("fanout", fanout)])))
  | .dup device address =>
    pure (.statement "dup" (.object (Fragment.given [("addr", address)] ++ [("dev", device)])))
  | .flowOffload flowtable =>
    pure (.statement "flow"
      (.object [("op", .str "add"), ("flowtable", ← Term.setRef? flowtable)]))
  | .synproxy mss scale sackPermitted timestamp =>
    let mss ← optionally (int "MSS" 1 Value.max16) mss
    let scale ← optionally (int "Window scale" 0 14) scale
    pure (.statement "synproxy" (Fragment.orNothing
      (Fragment.given [("mss", mss), ("wscale", scale)] ++
        flags [("timestamp", timestamp), ("sack-perm", sackPermitted)])))
  | .tproxy port address f =>
    let f ← optionally family f
    let port ← Ports.port port
    pure (.statement "tproxy" (.object
      (Fragment.given [("family", f), ("addr", address)] ++ [("port", .int port)])))

end Action

end Nftables
