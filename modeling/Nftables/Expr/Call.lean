import Nftables.Call
import Nftables.Expr

/-!
# Steps by name

The steps that build an expression, called by the names they have in scripts.
-/

namespace Nftables.Expr.Step

open Parameter (required optional)

/-- The relation and the flags that a step has if they are left out. -/
def equality : Parameter := optional "op" (.str "==")
def above : Parameter := optional "op" (.str ">")
def negation : Parameter := optional "negate" (.bool false)

/-- A step with one argument. -/
def unary (c : Call) (name : String) (f : Value → Step) : Except ShapeError Step := do
  let [v] ← c.bind [required name] | throw .unsupported
  pure (f v)

/-- A step without arguments. -/
def nullary (c : Call) (s : Step) : Except ShapeError Step := do
  let [] ← c.bind [] | throw .unsupported
  pure s

/-- A condition on a value that may be negated. -/
def negatable (c : Call) (name : String) (f : Value → Bool → Condition) :
    Except ShapeError Step := do
  let [v, negated] ← c.bind [required name, negation] | throw .unsupported
  pure (.condition (f v negated.truthy))

/-- A condition on the value of a field. -/
def number (c : Call) (name : String) (f : NumberField) : Except ShapeError Step :=
  unary c name fun v => .condition (.number f v (.str "=="))

/-- A condition on a field of the header of GRE. -/
def greField (c : Call) (name : String) (f : NumberField) : Except ShapeError Step :=
  unary c name fun v => .within .gre (.number f v (.str "=="))

/-- A condition on the relation of a field to a value. -/
def comparison (c : Call) (relation : Parameter) (f : Value → Value → Condition) :
    Except ShapeError Step := do
  let [v, r] ← c.bind [required "value", relation] | throw .unsupported
  pure (.condition (f v r))

def fingerprint (c : Call) (name key : String) : Except ShapeError Step := do
  let [v, ttl] ← c.bind [required name, optional "ttl" (.str "loose")] | throw .unsupported
  pure (.condition (.fingerprint key v ttl))

def translation (c : Call) : Except ShapeError Step := do
  let [address, port] ← c.bind [required "address", optional "port"] | throw .unsupported
  pure (.action (.translate c.name address port))

def meter (c : Call) (op : String) : Except ShapeError Step := do
  let [key, set, rate, per, burst] ← c.bind [required "key", required "set_name", required "rate",
    optional "per" (.str "second"), optional "burst" (.int 0)] | throw .unsupported
  pure (.action (.meter op key set rate per burst))

def conditionOfCall? (c : Call) : Except ShapeError (Option Step) := do
  match c.name with
  | "set_protocol" => unary c "proto" .protocol
  | "tcp" | "udp" | "udplite" | "sctp" | "dccp" | "icmp" | "icmpv6" | "gre" | "esp" | "ah" =>
    nullary c (.protocol (.str c.name))
  | "saddr" => negatable c "address" (.address .source)
  | "daddr" => negatable c "address" (.address .destination)
  | "sport" => negatable c "port" (.port .source)
  | "dport" => negatable c "port" (.port .destination)
  | "iifname" | "oifname" => negatable c "name" (.interface c.name)
  | "ether_saddr" => unary c "mac" fun v => .condition (.openField .etherSource v)
  | "ether_daddr" => unary c "mac" fun v => .condition (.openField .etherDestination v)
  | "vlan_id" => number c "vlan_id" .vlanId
  | "vlan_pcp" => number c "pcp" .vlanPcp
  | "ttl" => comparison c equality (.number .ttl)
  | "hoplimit" => comparison c equality (.number .hopLimit)
  | "length" => comparison c equality .length
  | "dscp" => unary c "dscp" fun v => .condition (.dscp v)
  | "fragmented" =>
    let [holds] ← c.bind [optional "is_fragmented" (.bool true)] | throw .unsupported
    pure (some (.condition (.fragmented holds.truthy)))
  | "tcp_flags" =>
    let [flags, mask] ← c.bind [required "flags", optional "mask"] | throw .unsupported
    pure (some (.condition (.tcpFlags flags mask)))
  | "icmp_type" => unary c "icmp_type" fun v => .condition (.icmpType v)
  | "icmp_code" => number c "code" .icmpCode
  | "icmpv6_type" => unary c "icmp_type" fun v => .condition (.icmpv6Type v)
  | "icmpv6_code" => number c "code" .icmpv6Code
  | "ct_state" => unary c "states" fun v => .condition (.ctState v)
  | "ct_status" => unary c "statuses" fun v => .condition (.ctStatus v)
  | "ct_direction" => unary c "direction" fun v => .condition (.ctDirection v)
  | "ct_mark" => number c "mark" .ctMark
  | "ct_label" => unary c "label" fun v => .condition (.openField .ctLabel v)
  | "ct_zone" => number c "zone" .ctZone
  | "ct_helper" => unary c "helper" fun v => .condition (.openField .ctHelper v)
  | "ct_bytes" => comparison c above (.number .ctBytes)
  | "ct_packets" => comparison c above (.number .ctPackets)
  | "ct_original_saddr" => unary c "address" fun v => .condition (.openField .ctOriginalSource v)
  | "ct_original_daddr" =>
    unary c "address" fun v => .condition (.openField .ctOriginalDestination v)
  | "ct_count" =>
    let [count, above] ← c.bind [required "count", optional "over" (.bool true)]
      | throw .unsupported
    pure (some (.condition (.connectionCount count above.truthy)))
  | "mark" => number c "mark" .mark
  | "priority" => comparison c equality (.number .priority)
  | "pkttype" => unary c "pkttype" fun v => .condition (.packetType v)
  | "cgroup" => number c "cgroup_id" .cgroup
  | "skuid" => number c "uid" .userId
  | "skgid" => number c "gid" .groupId
  | "ah_spi" => number c "spi" .ahSpi
  | "esp_spi" => number c "spi" .espSpi
  | "arp_operation" => unary c "operation" fun v => .condition (.arpOperation v)
  | "gre_version" => greField c "version" .greVersion
  | "gre_key" => greField c "key" .greKey
  | "gre_flags" => greField c "flags" .greFlags
  | "socket_transparent" => nullary c (.condition .transparent)
  | "osf_name" => fingerprint c "os_name" "name"
  | "osf_version" => fingerprint c "version" "version"
  | "payload_raw" =>
    let [base, offset, size, v, r] ← c.bind [required "base", required "offset", required "length",
      required "value", equality] | throw .unsupported
    pure (some (.condition (.raw base offset size v r)))
  | "payload_raw_masked" =>
    let [base, offset, size, mask, v] ← c.bind [required "base", required "offset",
      required "length", required "mask", required "value"] | throw .unsupported
    pure (some (.condition (.rawMasked base offset size mask v)))
  | "in_set" =>
    let [name, field, negated] ← c.bind [required "set_name", required "field", negation]
      | throw .unsupported
    pure (some (.condition (.inSet name field negated.truthy)))
  | _ => pure none

def actionOfCall? (c : Call) : Except ShapeError (Option Step) := do
  match c.name with
  | "counter" =>
    let [name] ← c.bind [optional "name"] | throw .unsupported
    pure (some (.action (.counter name)))
  | "log" =>
    let [label, level, group] ← c.bind [optional "prefix", optional "level", optional "group"]
      | throw .unsupported
    pure (some (.action (.log label level group)))
  | "limit" =>
    let [rate, per, burst, above] ← c.bind [required "rate", optional "per" (.str "second"),
      optional "burst", optional "over" (.bool false)] | throw .unsupported
    pure (some (.action (.limit rate per burst above.truthy)))
  | "set_mark" => unary c "mark" fun v => .action (.setNumber .mark v)
  | "set_ct_mark" => unary c "mark" fun v => .action (.setNumber .ctMark v)
  | "set_ct_label" => unary c "label" fun v => .action (.setCt "label" v)
  | "set_ct_helper" => unary c "helper" fun v => .action (.setCt "helper" v)
  | "set_ct_zone" => unary c "zone" fun v => .action (.setNumber .ctZone v)
  | "save_mark" => nullary c (.action .saveMark)
  | "restore_mark" => nullary c (.action .restoreMark)
  | "set_dscp" => unary c "dscp" fun v => .action (.setDscp v)
  | "set_ttl" => unary c "ttl" fun v => .action (.setNumber .ttl v)
  | "set_hoplimit" => unary c "hoplimit" fun v => .action (.setNumber .hopLimit v)
  | "increment_ttl" => nullary c (.action (.increment .ttl))
  | "decrement_ttl" => nullary c (.action (.decrement .ttl))
  | "increment_hoplimit" => nullary c (.action (.increment .hopLimit))
  | "decrement_hoplimit" => nullary c (.action (.decrement .hopLimit))
  | "set_tcp_mss" => unary c "mss" fun v => .action (.setMss v)
  | "snat" | "dnat" => translation c
  | "masquerade" =>
    let [ports] ← c.bind [optional "port_range"] | throw .unsupported
    pure (some (.action (.translate "masquerade" .null ports)))
  | "redirect" => unary c "port" fun v => .action (.redirect v)
  | "meter_update" => meter c "update"
  | "meter_add" => meter c "add"
  | "accept" => nullary c (.action (.verdict .accept .null))
  | "drop" => nullary c (.action (.verdict .drop .null))
  | "continue_" => nullary c (.action (.verdict .pass .null))
  | "return_" => nullary c (.action (.verdict .back .null))
  | "jump" => unary c "chain" fun v => .action (.verdict .jump v)
  | "goto" => unary c "chain" fun v => .action (.verdict .goto v)
  | "reject" =>
    let [flavor] ← c.bind [optional "reject_type" (.str "default")] | throw .unsupported
    pure (some (.action (.reject flavor)))
  | "notrack" => nullary c (.action .notrack)
  | "queue" =>
    let [num, bypass, fanout] ← c.bind [required "num", optional "bypass" (.bool false),
      optional "fanout" (.bool false)] | throw .unsupported
    pure (some (.action (.queue num bypass.truthy fanout.truthy)))
  | "dup" =>
    let [device, address] ← c.bind [required "device", optional "address"] | throw .unsupported
    pure (some (.action (.dup device address)))
  | "flow_offload" => unary c "flowtable" fun v => .action (.flowOffload v)
  | "synproxy" =>
    let [mss, scale, sack, timestamp] ← c.bind [optional "mss", optional "wscale",
      optional "sack_perm" (.bool false), optional "timestamp" (.bool false)] | throw .unsupported
    pure (some (.action (.synproxy mss scale sack.truthy timestamp.truthy)))
  | "tproxy" =>
    let [port, address, family] ← c.bind [required "port", optional "address", optional "family"]
      | throw .unsupported
    pure (some (.action (.tproxy port address family)))
  | _ => pure none

/-- The step that a call names. -/
def ofCall (c : Call) : Except ShapeError Step := do
  if c.name = "with_comment" then return ← unary c "text" .comment
  match ← conditionOfCall? c with
  | some s => pure s
  | none =>
    match ← actionOfCall? c with
    | some s => pure s
    | none => throw .noParts

end Nftables.Expr.Step
