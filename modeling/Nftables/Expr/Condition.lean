import Nftables.Address
import Nftables.Port

/-!
# Conditions

What a rule can ask of a packet. A condition holds its arguments as they were given; they are
checked when the condition is made into a fragment, for the address family and the transport
protocol of an expression.
-/

namespace Nftables

open Text (trim)

/-- The end of the path that a packet comes from or goes to. -/
inductive Endpoint where
  | source | destination
deriving DecidableEq, Repr

namespace Endpoint

def addressField : Endpoint → String
  | .source => "saddr"
  | .destination => "daddr"

def portField : Endpoint → String
  | .source => "sport"
  | .destination => "dport"

end Endpoint

/-! ## Fields -/

/-- Fields that are compared with a value of any kind. -/
inductive OpenField where
  | etherSource | etherDestination | ctLabel | ctHelper | ctOriginalSource | ctOriginalDestination
deriving DecidableEq, Repr

def OpenField.term : OpenField → Value
  | .etherSource => Term.payload "ether" (.str "saddr")
  | .etherDestination => Term.payload "ether" (.str "daddr")
  | .ctLabel => Term.ct (.str "label")
  | .ctHelper => Term.ct (.str "helper")
  | .ctOriginalSource => Term.ct (.str "saddr") (some (Vocabulary.wire ConnDirection.original))
  | .ctOriginalDestination => Term.ct (.str "daddr") (some (Vocabulary.wire ConnDirection.original))

/-- Fields whose value is a number within bounds. -/
inductive NumberField where
  | vlanId | vlanPcp | icmpCode | icmpv6Code | ctMark | ctZone | mark | cgroup | userId | groupId
  | ahSpi | espSpi | greVersion | greKey | greFlags
  | ttl | hopLimit | ctBytes | ctPackets | priority
deriving DecidableEq, Repr

namespace NumberField

def term : NumberField → Value
  | .vlanId => Term.payload "vlan" (.str "id")
  | .vlanPcp => Term.payload "vlan" (.str "pcp")
  | .icmpCode => Term.payload "icmp" (.str "code")
  | .icmpv6Code => Term.payload "icmpv6" (.str "code")
  | .ctMark => Term.ct (.str "mark")
  | .ctZone => Term.ct (.str "zone")
  | .mark => Term.metaKey (.str "mark")
  | .cgroup => Term.metaKey (.str "cgroup")
  | .userId => Term.metaKey (.str "skuid")
  | .groupId => Term.metaKey (.str "skgid")
  | .ahSpi => Term.payload "ah" (.str "spi")
  | .espSpi => Term.payload "esp" (.str "spi")
  | .greVersion => Term.payload "gre" (.str "version")
  | .greKey => Term.payload "gre" (.str "key")
  | .greFlags => Term.payload "gre" (.str "flags")
  | .ttl => Term.payload "ip" (.str "ttl")
  | .hopLimit => Term.payload "ip6" (.str "hoplimit")
  | .ctBytes => Term.ct (.str "bytes")
  | .ctPackets => Term.ct (.str "packets")
  | .priority => Term.metaKey (.str "priority")

/-- The greatest number the field can hold. -/
def max : NumberField → Int
  | .vlanId => 4095
  | .vlanPcp | .greVersion => 7
  | .icmpCode | .icmpv6Code | .ttl | .hopLimit => 255
  | .greFlags => 0x1F
  | .ctZone => Value.max16
  | .ctBytes | .ctPackets => Value.max64
  | _ => Value.max32

/-- The name of the field in messages. -/
def label : NumberField → String
  | .vlanId => "VLAN id"
  | .vlanPcp => "VLAN PCP"
  | .icmpCode => "ICMP code"
  | .icmpv6Code => "ICMPv6 code"
  | .ctMark | .mark => "Mark"
  | .ctZone => "Zone"
  | .cgroup => "cgroup"
  | .userId => "UID"
  | .groupId => "GID"
  | .ahSpi | .espSpi => "SPI"
  | .greVersion => "GRE version"
  | .greKey => "GRE key"
  | .greFlags => "GRE flags"
  | .ttl => "TTL"
  | .hopLimit => "Hop limit"
  | .ctBytes => "Bytes"
  | .ctPackets => "Packets"
  | .priority => "Priority"

def check (f : NumberField) (v : Value) : Except ArgumentError Int :=
  v.bounded f.label 0 f.max

end NumberField

/-! ## Conditions -/

inductive Condition where
  | address (e : Endpoint) (address : Value) (negated : Bool)
  | port (e : Endpoint) (ports : Value) (negated : Bool)
  /-- the interface of a metadata key -/
  | interface (key : String) (name : Value) (negated : Bool)
  | openField (f : OpenField) (v : Value)
  | number (f : NumberField) (v relation : Value)
  | length (v relation : Value)
  | dscp (v : Value)
  | fragmented (holds : Bool)
  /-- a mask of null lets all flags count -/
  | tcpFlags (flags mask : Value)
  | icmpType (v : Value)
  | icmpv6Type (v : Value)
  | arpOperation (v : Value)
  | ctState (states : Value)
  | ctStatus (statuses : Value)
  | ctDirection (direction : Value)
  | packetType (v : Value)
  | connectionCount (count : Value) (above : Bool)
  | transparent
  /-- a key of the fingerprint of the sender's operating system -/
  | fingerprint (key : String) (v ttl : Value)
  /-- `size` bits at a bit offset -/
  | raw (base offset size v relation : Value)
  | rawMasked (base offset size mask v : Value)
  | inSet (name field : Value) (negated : Bool)

namespace Condition

def equal : String := Vocabulary.wire Relation.eq

def contained : String := Vocabulary.wire Relation.isIn

/-- Equality, or inequality if it is negated. -/
def equality (negated : Bool) : String :=
  Vocabulary.wire (if negated then Relation.ne else Relation.eq)

/-- The protocol whose header holds addresses; an address of a version that the family does not
admit is refused. -/
def addressProtocol (family : Family) (version : IpVersion) : Except ArgumentError String :=
  match family, version with
  | .ip6, .v4 => .error (.foreignAddress 4 "ip6")
  | .ip, .v6 => .error (.foreignAddress 6 "ip")
  | _, .v6 => .ok "ip6"
  | _, .v4 => .ok "ip"

/-- The protocol whose header holds the fields of the network layer. -/
def networkProtocol : Family → String
  | .ip6 => "ip6"
  | _ => "ip"

/-- The transport protocol of the context, if it has ports. -/
def portProtocol (field : String) (protocol : Option Protocol) : Except ContextError String :=
  match protocol with
  | none => .error (.noProtocol field)
  | some p =>
    match p with
    | .tcp | .udp | .udplite | .sctp | .dccp => .ok (Vocabulary.wire p)
    | _ => .error (.noPorts field (Vocabulary.wire p))

/-- The text of an argument without the blanks around it, read as a literal. -/
def addressLiteral (v : Value) : Except ArgumentError AddressLiteral :=
  match AddressLiteral.parse? (trim v.text) with
  | some l => .ok l
  | none => .error (.notAnAddress v)

/-- The term for an address, or for a block of them. -/
def addressTerm (l : AddressLiteral) : Value :=
  match l.length with
  | some n => Term.addressBlock (.str (String.ofList (l.writeFirst n))) (.int n)
  | none => .str (String.ofList l.address.write)

/-- The wire texts of several words. -/
def words (α : Type) [Vocabulary α] (what : String) (v : Value) :
    Except ArgumentError (List Value) :=
  v.asList.mapM fun w => do
    let a : α ← Vocabulary.resolve what w
    .ok (.str (Vocabulary.wire a))

/-- The wire text of one word. -/
def word (α : Type) [Vocabulary α] (what : String) (v : Value) : Except ArgumentError String := do
  let a : α ← Vocabulary.resolve what v
  .ok (Vocabulary.wire a)

def relation (v : Value) : Except ArgumentError String := do
  .ok (Vocabulary.wire (← Relation.resolve v))

def rawTerm (base offset size : Value) : Except ArgumentError Value := do
  let b ← PayloadBase.resolve base
  let o ← offset.bounded "Bit offset" 0 Value.max32
  let n ← size.bounded "Bit length" 1 Value.max32
  .ok (Term.rawPayload (Vocabulary.wire b) (.int o) (.int n))

/-- The field of a packet that is looked up in a named set. -/
def setField (family : Family) (protocol : Option Protocol) (field : Value) :
    Except BuildError Value := do
  match field with
  | .str "saddr" | .str "daddr" => pure (Term.payload (networkProtocol family) field)
  | .str "sport" => pure (Term.payload (← portProtocol "sport" protocol) field)
  | .str "dport" => pure (Term.payload (← portProtocol "dport" protocol) field)
  | _ => throw (.argument (.unknownSetField field))

/-- The fragment of a condition in an expression of a family whose context is a protocol. -/
def fragment (family : Family) (protocol : Option Protocol) (c : Condition) :
    Except BuildError Fragment := do
  match c with
  | .address e v negated =>
    let l ← addressLiteral v
    let p ← addressProtocol family l.address.version
    pure (.condition (Term.payload p (.str e.addressField)) (addressTerm l) (equality negated))
  | .port e ports negated =>
    let p ← portProtocol e.portField protocol
    let ports ← Ports.ofValue ports
    pure (.condition (Term.payload p (.str e.portField)) ports.term (equality negated))
  | .interface key name negated =>
    pure (.condition (Term.metaKey (.str key)) name (equality negated))
  | .openField f v => pure (.condition f.term v equal)
  | .number f v r =>
    let n ← f.check v
    pure (.condition f.term (.int n) (← relation r))
  | .length v r =>
    let n ← v.bounded "Length" 0 Value.max16
    let field := if family = .ip6 then "payload_length" else "length"
    pure (.condition (Term.payload (networkProtocol family) (.str field)) (.int n) (← relation r))
  | .dscp v =>
    pure (.condition (Term.payload (networkProtocol family) (.str "dscp")) (← resolveDscp v) equal)
  | .fragmented holds =>
    pure (.condition (Term.bitAnd (Term.payload "ip" (.str "frag-off")) (.int 0x1FFF)) (.int 0)
      (equality holds))
  | .tcpFlags flags mask =>
    let flags ← words TcpFlag "TCP flag" flags
    let field := Term.payload "tcp" (.str "flags")
    if mask.isNull then pure (.condition field (.list flags) equal)
    else
      let mask ← words TcpFlag "TCP flag" mask
      pure (.condition (Term.bitAnd field (.list mask)) (.list flags) equal)
  | .icmpType v =>
    pure (.condition (Term.payload "icmp" (.str "type")) (← resolveIcmpType v) equal)
  | .icmpv6Type v =>
    pure (.condition (Term.payload "icmpv6" (.str "type")) (← resolveIcmpv6Type v) equal)
  | .arpOperation v =>
    pure (.condition (Term.payload "arp" (.str "operation")) (← resolveArpOperation v) equal)
  | .ctState v =>
    pure (.condition (Term.ct (.str "state")) (.list (← words ConnState "conntrack state" v))
      contained)
  | .ctStatus v =>
    pure (.condition (Term.ct (.str "status")) (.list (← words ConnStatus "conntrack status" v))
      contained)
  | .ctDirection v =>
    pure (.condition (Term.ct (.str "direction"))
      (.str (← word ConnDirection "conntrack direction" v)) equal)
  | .packetType v =>
    pure (.condition (Term.metaKey (.str "pkttype")) (.str (← word PacketType "packet type" v))
      equal)
  | .connectionCount v above =>
    let n ← v.bounded "Connection count" 1 Value.max32
    pure (.connectionCount (.int n) !above)
  | .transparent => pure (.condition (Term.socket (.str "transparent")) (.int 1) equal)
  | .fingerprint key v ttl =>
    let ttl ← word FingerprintTtl "OSF ttl" ttl
    pure (.condition (Term.fingerprint (.str key) ttl) v equal)
  | .raw base offset size v r =>
    let left ← rawTerm base offset size
    pure (.condition left v (← relation r))
  | .rawMasked base offset size mask v =>
    let left ← rawTerm base offset size
    pure (.condition (Term.bitAnd left mask) v equal)
  | .inSet name field negated =>
    let left ← setField family protocol field
    let right ← Term.setRef? name
    pure (.condition left right (equality negated))

end Condition

end Nftables
