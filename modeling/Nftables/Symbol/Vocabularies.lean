import Nftables.Symbol

/-!
# The vocabularies of the wire format

Every enumerated word, as a type of its own, and the tables of names whose wire value differs from
them.
-/

namespace Nftables

/-! ## Words -/

/-- Address families a table can belong to. -/
inductive Family where
  | ip | ip6 | inet | arp | bridge | netdev
deriving DecidableEq, Repr

instance : Vocabulary Family where
  members := [.ip, .ip6, .inet, .arp, .bridge, .netdev]
  wire
    | .ip => "ip"
    | .ip6 => "ip6"
    | .inet => "inet"
    | .arp => "arp"
    | .bridge => "bridge"
    | .netdev => "netdev"

/-- Relational operators of a match. -/
inductive Relation where
  | eq | ne | lt | gt | le | ge | isIn
deriving DecidableEq, Repr

instance : Vocabulary Relation where
  members := [.eq, .ne, .lt, .gt, .le, .ge, .isIn]
  wire
    | .eq => "=="
    | .ne => "!="
    | .lt => "<"
    | .gt => ">"
    | .le => "<="
    | .ge => ">="
    | .isIn => "in"
  name
    | .eq => "eq"
    | .ne => "ne"
    | .lt => "lt"
    | .gt => "gt"
    | .le => "le"
    | .ge => "ge"
    | .isIn => "in"

/-- What becomes of a packet, as far as a rule can say. -/
inductive Verdict where
  | accept | drop | pass | back | jump | goto
deriving DecidableEq, Repr

instance : Vocabulary Verdict where
  members := [.accept, .drop, .pass, .back, .jump, .goto]
  wire
    | .accept => "accept"
    | .drop => "drop"
    | .pass => "continue"
    | .back => "return"
    | .jump => "jump"
    | .goto => "goto"

/-- Transport protocols an expression can have as its context. -/
inductive Protocol where
  | tcp | udp | udplite | sctp | dccp | icmp | icmpv6 | gre | esp | ah
deriving DecidableEq, Repr

instance : Vocabulary Protocol where
  members := [.tcp, .udp, .udplite, .sctp, .dccp, .icmp, .icmpv6, .gre, .esp, .ah]
  wire
    | .tcp => "tcp"
    | .udp => "udp"
    | .udplite => "udplite"
    | .sctp => "sctp"
    | .dccp => "dccp"
    | .icmp => "icmp"
    | .icmpv6 => "icmpv6"
    | .gre => "gre"
    | .esp => "esp"
    | .ah => "ah"

/-- Where a raw part of a packet is counted from: the link layer, the network header, the transport
header or the inner header. -/
inductive PayloadBase where
  | ll | nh | th | ih
deriving DecidableEq, Repr

instance : Vocabulary PayloadBase where
  members := [.ll, .nh, .th, .ih]
  wire
    | .ll => "ll"
    | .nh => "nh"
    | .th => "th"
    | .ih => "ih"

/-- Units of time of a rate limit. -/
inductive RateUnit where
  | second | minute | hour | day | week
deriving DecidableEq, Repr

instance : Vocabulary RateUnit where
  members := [.second, .minute, .hour, .day, .week]
  wire
    | .second => "second"
    | .minute => "minute"
    | .hour => "hour"
    | .day => "day"
    | .week => "week"

/-- Flags of a TCP header. -/
inductive TcpFlag where
  | fin | syn | rst | psh | ack | urg | ecn | cwr
deriving DecidableEq, Repr

instance : Vocabulary TcpFlag where
  members := [.fin, .syn, .rst, .psh, .ack, .urg, .ecn, .cwr]
  wire
    | .fin => "fin"
    | .syn => "syn"
    | .rst => "rst"
    | .psh => "psh"
    | .ack => "ack"
    | .urg => "urg"
    | .ecn => "ecn"
    | .cwr => "cwr"

/-- Levels of a log statement. -/
inductive LogLevel where
  | emerg | alert | crit | err | warn | notice | info | debug | audit
deriving DecidableEq, Repr

instance : Vocabulary LogLevel where
  members := [.emerg, .alert, .crit, .err, .warn, .notice, .info, .debug, .audit]
  wire
    | .emerg => "emerg"
    | .alert => "alert"
    | .crit => "crit"
    | .err => "err"
    | .warn => "warn"
    | .notice => "notice"
    | .info => "info"
    | .debug => "debug"
    | .audit => "audit"

/-- States of a tracked connection. -/
inductive ConnState where
  | new | established | related | invalid | untracked
deriving DecidableEq, Repr

instance : Vocabulary ConnState where
  members := [.new, .established, .related, .invalid, .untracked]
  wire
    | .new => "new"
    | .established => "established"
    | .related => "related"
    | .invalid => "invalid"
    | .untracked => "untracked"

/-- Status bits of a tracked connection. -/
inductive ConnStatus where
  | expected | seenReply | assured | confirmed | snat | dnat | dying
deriving DecidableEq, Repr

instance : Vocabulary ConnStatus where
  members := [.expected, .seenReply, .assured, .confirmed, .snat, .dnat, .dying]
  wire
    | .expected => "expected"
    | .seenReply => "seen-reply"
    | .assured => "assured"
    | .confirmed => "confirmed"
    | .snat => "snat"
    | .dnat => "dnat"
    | .dying => "dying"

/-- Directions of a tracked connection. -/
inductive ConnDirection where
  | original | reply
deriving DecidableEq, Repr

instance : Vocabulary ConnDirection where
  members := [.original, .reply]
  wire
    | .original => "original"
    | .reply => "reply"

/-- How a packet is addressed on its link. -/
inductive PacketType where
  | host | unicast | broadcast | multicast | other
deriving DecidableEq, Repr

instance : Vocabulary PacketType where
  members := [.host, .unicast, .broadcast, .multicast, .other]
  wire
    | .host => "host"
    | .unicast => "unicast"
    | .broadcast => "broadcast"
    | .multicast => "multicast"
    | .other => "other"

/-- How strictly the time to live takes part in operating system fingerprints. -/
inductive FingerprintTtl where
  | loose | skip | strict
deriving DecidableEq, Repr

instance : Vocabulary FingerprintTtl where
  members := [.loose, .skip, .strict]
  wire
    | .loose => "loose"
    | .skip => "skip"
    | .strict => "strict"

/-- Types of a base chain. -/
inductive ChainType where
  | filter | nat | route
deriving DecidableEq, Repr

instance : Vocabulary ChainType where
  members := [.filter, .nat, .route]
  wire
    | .filter => "filter"
    | .nat => "nat"
    | .route => "route"

/-- Places in the packet path at which a base chain runs. -/
inductive Hook where
  | prerouting | input | forward | output | postrouting | ingress | egress
deriving DecidableEq, Repr

instance : Vocabulary Hook where
  members := [.prerouting, .input, .forward, .output, .postrouting, .ingress, .egress]
  wire
    | .prerouting => "prerouting"
    | .input => "input"
    | .forward => "forward"
    | .output => "output"
    | .postrouting => "postrouting"
    | .ingress => "ingress"
    | .egress => "egress"

/-- What a base chain does with a packet at its end. -/
inductive ChainPolicy where
  | accept | drop
deriving DecidableEq, Repr

instance : Vocabulary ChainPolicy where
  members := [.accept, .drop]
  wire
    | .accept => "accept"
    | .drop => "drop"

/-- Flags of a set or map. -/
inductive SetFlag where
  | constant | interval | timeout | dynamic
deriving DecidableEq, Repr

instance : Vocabulary SetFlag where
  members := [.constant, .interval, .timeout, .dynamic]
  wire
    | .constant => "constant"
    | .interval => "interval"
    | .timeout => "timeout"
    | .dynamic => "dynamic"

/-! ## Tables -/

/-- Names of ICMP message types. -/
def icmpTypes : List (String × Value) :=
  [("echo_reply", .str "echo-reply"), ("destination_unreachable", .str "destination-unreachable"),
    ("dest_unreachable", .str "destination-unreachable"), ("source_quench", .str "source-quench"),
    ("redirect", .str "redirect"), ("echo_request", .str "echo-request"),
    ("router_advertisement", .str "router-advertisement"),
    ("router_solicitation", .str "router-solicitation"), ("time_exceeded", .str "time-exceeded"),
    ("parameter_problem", .str "parameter-problem"),
    ("timestamp_request", .str "timestamp-request"), ("timestamp_reply", .str "timestamp-reply"),
    ("info_request", .str "info-request"), ("info_reply", .str "info-reply"),
    ("address_mask_request", .str "address-mask-request"),
    ("address_mask_reply", .str "address-mask-reply")]

/-- Names of ICMPv6 message types. -/
def icmpv6Types : List (String × Value) :=
  [("destination_unreachable", .str "destination-unreachable"),
    ("dest_unreachable", .str "destination-unreachable"),
    ("packet_too_big", .str "packet-too-big"), ("time_exceeded", .str "time-exceeded"),
    ("parameter_problem", .str "parameter-problem"), ("param_problem", .str "parameter-problem"),
    ("echo_request", .str "echo-request"), ("echo_reply", .str "echo-reply"),
    ("mld_listener_query", .str "mld-listener-query"),
    ("mld_listener_report", .str "mld-listener-report"),
    ("mld_listener_done", .str "mld-listener-done"),
    ("nd_router_solicit", .str "nd-router-solicit"), ("router_solicit", .str "nd-router-solicit"),
    ("nd_router_advert", .str "nd-router-advert"), ("router_advert", .str "nd-router-advert"),
    ("nd_neighbor_solicit", .str "nd-neighbor-solicit"),
    ("neighbour_solicit", .str "nd-neighbor-solicit"),
    ("nd_neighbor_advert", .str "nd-neighbor-advert"),
    ("neighbour_advert", .str "nd-neighbor-advert"), ("nd_redirect", .str "nd-redirect"),
    ("redirect", .str "nd-redirect"), ("router_renumbering", .str "router-renumbering"),
    ("ind_neighbor_solicit", .str "ind-neighbor-solicit"),
    ("ind_neighbor_advert", .str "ind-neighbor-advert"),
    ("mld2_listener_report", .str "mld2-listener-report")]

/-- Names of differentiated services code points, with their six bits. -/
def dscpClasses : List (String × Value) :=
  [("cs0", .int 0), ("le", .int 1), ("cs1", .int 8), ("af11", .int 10), ("af12", .int 12),
    ("af13", .int 14), ("cs2", .int 16), ("af21", .int 18), ("af22", .int 20), ("af23", .int 22),
    ("cs3", .int 24), ("af31", .int 26), ("af32", .int 28), ("af33", .int 30), ("cs4", .int 32),
    ("af41", .int 34), ("af42", .int 36), ("af43", .int 38), ("cs5", .int 40), ("va", .int 44),
    ("ef", .int 46), ("cs6", .int 48), ("cs7", .int 56)]

/-- Names of ARP operations. -/
def arpOperations : List (String × Value) :=
  [("request", .int 1), ("reply", .int 2), ("rrequest", .int 3), ("rreply", .int 4),
    ("inrequest", .int 8), ("inreply", .int 9), ("nak", .int 10)]

/-- How a packet is rejected: the type of the answer and its code. Without a type the kernel's
default applies. -/
structure RejectFlavor where
  type : Option String
  code : Option String
deriving DecidableEq, Repr

namespace RejectFlavor

/-- A text, or null if there is none. -/
def textOrNull : Option String → Value
  | some s => .str s
  | none => .null

def typeTerm (r : RejectFlavor) : Value := textOrNull r.type
def codeTerm (r : RejectFlavor) : Value := textOrNull r.code

end RejectFlavor

/-- Names of the ways to reject a packet. -/
def rejectFlavors : List (String × RejectFlavor) :=
  [("default", ⟨none, none⟩), ("icmp_port_unreachable", ⟨none, none⟩),
    ("tcp_reset", ⟨some "tcp reset", none⟩),
    ("icmp_net_unreachable", ⟨some "icmp", some "net-unreachable"⟩),
    ("icmp_host_unreachable", ⟨some "icmp", some "host-unreachable"⟩),
    ("icmp_admin_prohibited", ⟨some "icmp", some "admin-prohibited"⟩),
    ("icmpv6_no_route", ⟨some "icmpv6", some "no-route"⟩),
    ("icmpv6_admin_prohibited", ⟨some "icmpv6", some "admin-prohibited"⟩),
    ("icmpv6_port_unreachable", ⟨some "icmpv6", some "port-unreachable"⟩),
    ("icmpx_port_unreachable", ⟨some "icmpx", some "port-unreachable"⟩),
    ("icmpx_host_unreachable", ⟨some "icmpx", some "host-unreachable"⟩),
    ("icmpx_no_route", ⟨some "icmpx", some "no-route"⟩),
    ("icmpx_admin_prohibited", ⟨some "icmpx", some "admin-prohibited"⟩)]

/-! ## Lookup -/

/-- The word that a text names in an alias table, the text being taken in lower case. -/
def aliased? {α : Type} (aliases : List (String × α)) (v : Value) : Option α :=
  match v with
  | .str s => (aliases.find? fun e => e.1.toList = Text.lower s.toList).map (·.2)
  | _ => none

def relationAliases : List (String × Relation) :=
  Vocabulary.members.map fun r => (Vocabulary.name r, r)

/-- A relational operator, by its sign or its name. -/
def Relation.resolve (v : Value) : Except ArgumentError Relation :=
  match aliased? relationAliases v with
  | some r => .ok r
  | none => Vocabulary.resolve "operator" v

def logLevelAliases : List (String × LogLevel) :=
  [("warning", .warn), ("error", .err), ("critical", .crit), ("emergency", .emerg)]

def LogLevel.resolve (v : Value) : Except ArgumentError LogLevel :=
  match aliased? logLevelAliases v with
  | some l => .ok l
  | none => Vocabulary.resolve "log level" v

def payloadBaseAliases : List (String × PayloadBase) :=
  [("link_layer", .ll), ("network_header", .nh), ("transport_header", .th), ("inner_header", .ih)]

/-- A base of raw payloads; its long names are taken in normal form. -/
def PayloadBase.resolve (v : Value) : Except ArgumentError PayloadBase :=
  let long := match v with
    | .str s => (payloadBaseAliases.find? fun e => e.1.toList = Symbol.normal s).map (·.2)
    | _ => none
  match long with
  | some b => .ok b
  | none => Vocabulary.resolve "payload base" v

def resolveDscp (v : Value) : Except ArgumentError Value :=
  (SymbolTable.ofEntries dscpClasses (some 63)).resolve "DSCP class" v

def resolveIcmpType (v : Value) : Except ArgumentError Value :=
  (SymbolTable.ofEntries icmpTypes (some 255)).resolve "ICMP type" v

def resolveIcmpv6Type (v : Value) : Except ArgumentError Value :=
  (SymbolTable.ofEntries icmpv6Types (some 255)).resolve "ICMPv6 type" v

def resolveArpOperation (v : Value) : Except ArgumentError Value :=
  (SymbolTable.ofEntries arpOperations (some 0xFFFF)).resolve "ARP operation" v

/-- Ways to reject are known by name only. -/
def rejectTable : SymbolTable RejectFlavor where
  entries := rejectFlavors
  ofText? _ := none
  ofNumber? _ := none

def RejectFlavor.resolve (v : Value) : Except ArgumentError RejectFlavor :=
  rejectTable.resolve "reject type" v

end Nftables
