import Nftables.Context

/-!
# Attributes

The attributes that an operation has in a document. Identity comes first, then what the verb asks
for. Names are resolved and values are checked in the order in which the attributes are written.
-/

namespace Nftables

open Context (familyName)

/-- An attribute that may be left out. -/
def optionalAttribute (key : String) (check : Value → Except ArgumentError Value) (v : Value) :
    Except ArgumentError Attributes :=
  if v.isNull then .ok [] else do .ok [(key, ← check v)]

def countAttribute (what : String) (v : Value) : Except ArgumentError Value :=
  .int <$> v.count what

def wordAttribute (α : Type) [Vocabulary α] (what : String) (v : Value) :
    Except ArgumentError Value := do
  let a : α ← Vocabulary.resolve what v
  .ok (.str (Vocabulary.wire a))

/-- The type of the elements of a set: a name, or the names of a concatenation. -/
def elementType (v : Value) : Except ArgumentError Value :=
  match v with
  | .list vs | .tuple vs =>
    if vs.isEmpty then .error .emptyType
    else do .ok (.list (← vs.mapM fun w => .str <$> w.nonEmpty "Set type"))
  | v => .str <$> v.nonEmpty "Set type"

/-- The family and the table of an object. -/
def scope (c : Context) (s : Spec) : Except BuildError Attributes := do
  let family ← c.familyOf s
  let table ← c.tableOf s
  pure [("family", .str family), ("table", .str table)]

namespace ChainSpec

def isBase (s : ChainSpec) : Bool :=
  !(s.type.isNull && s.hook.isNull && s.priority.isNull)

/-- Interface names: one, or those of a collection. -/
def deviceValue : Value → Except ShapeError Value
  | .str s => .ok (.str s)
  | v => .list <$> v.items

/-- What a base chain has beside its name. -/
def baseAttributes (s : ChainSpec) : Except BuildError Attributes := do
  let type ← wordAttribute ChainType "chain type" (s.type.orElse (.str "filter"))
  let hook ← wordAttribute Hook "hook" (← s.hook.require "hook" Verb.add.wire)
  let priority ← (s.priority.orNull (.int 0)).priority "Chain"
  let policy ← optionalAttribute "policy" (wordAttribute ChainPolicy "chain policy") s.policy
  let devices ← if s.devices.isNull then pure [] else do pure [("dev", ← deviceValue s.devices)]
  pure ([("type", type), ("hook", hook), ("prio", .int priority)] ++ policy ++ devices)

def attributes (s : ChainSpec) (verb : Verb) (c : Context) : Except BuildError Attributes := do
  let scope ← scope c (.chain s)
  let name ← c.chainName s
  let rest ←
    if verb = .rename then do
      let newName ← s.newName.require "new_name" verb.wire
      pure [("newname", .str (← newName.nonEmpty "New chain name"))]
    else if verb = .add ∧ s.isBase then s.baseAttributes
    else pure []
  pure (scope ++ ("name", .str name) :: rest)

end ChainSpec

namespace RuleSpec

/-- Where a rule is, or goes to: what is changed has a handle, what is inserted an index or one. -/
def position (s : RuleSpec) (verb : Verb) : Except ArgumentError Attributes := do
  match verb with
  | .delete | .replace =>
    let handle ← s.handle.require "handle" verb.wire
    pure [("handle", ← countAttribute "Handle" handle)]
  | .insert =>
    if s.index.isNull && s.handle.isNull then throw .noPosition
    let index ← optionalAttribute "index" (countAttribute "Index") s.index
    let handle ← optionalAttribute "handle" (countAttribute "Handle") s.handle
    pure (index ++ handle)
  | _ => pure []

/-- What a rule says. Its own comment takes precedence over that of its expression. -/
def content (s : RuleSpec) (verb : Verb) : Except ArgumentError Attributes := do
  if s.body.isNull then throw (.missing "expr" verb.wire)
  let statements ← s.body.statements
  let comment := s.comment.orNull s.body.comment
  pure (("expr", .list statements) :: if comment.isNull then [] else [("comment", comment)])

def attributes (s : RuleSpec) (verb : Verb) (c : Context) : Except BuildError Attributes := do
  let scope ← scope c (.rule s)
  let chain ← c.chainOf s
  let position ← s.position verb
  let content ← if verb = .delete then pure [] else s.content verb
  pure (scope ++ ("chain", .str chain) :: (position ++ content))

end RuleSpec

namespace CollectionOptions

def flagValues (vs : List Value) : Except ArgumentError (List Value) :=
  vs.mapM (wordAttribute SetFlag "set flag")

def flagsAttribute (v : Value) : Except BuildError Attributes := do
  if v.truthy then pure [("flags", .list (← flagValues (← v.items)))] else pure []

def attributes (o : CollectionOptions) : Except BuildError Attributes := do
  let flags ← flagsAttribute o.flags
  let timeout ← optionalAttribute "timeout" (countAttribute "Timeout") o.timeout
  let interval ← optionalAttribute "gc-interval" (countAttribute "GC interval") o.gcInterval
  let size ← optionalAttribute "size" (countAttribute "Size") o.size
  pure (flags ++ timeout ++ interval ++ size)

end CollectionOptions

def SetSpec.attributes (s : SetSpec) (verb : Verb) (c : Context) : Except BuildError Attributes := do
  let scope ← scope c (.set s)
  let name ← c.setName s.name
  let rest ←
    if verb = .add then do
      let type ← elementType (← s.type.require "type" verb.wire)
      pure (("type", type) :: (← s.options.attributes))
    else pure []
  pure (scope ++ ("name", .str name) :: rest)

def MapSpec.attributes (s : MapSpec) (verb : Verb) (c : Context) : Except BuildError Attributes := do
  let scope ← scope c (.map s)
  let name ← c.mapName s.name
  let rest ←
    if verb = .add then do
      let type ← elementType (← s.keyType.require "key_type" verb.wire)
      let value ← (← s.valueType.require "value_type" verb.wire).nonEmpty "Map value type"
      pure (("type", type) :: ("map", .str value) :: (← s.options.attributes))
    else pure []
  pure (scope ++ ("name", .str name) :: rest)

namespace ElementSpec

/-- The elements; a pair is written as a list. -/
def elementValues (s : ElementSpec) : Except ArgumentError (List Value) :=
  match s.elements with
  | .list vs | .tuple vs =>
    if vs.isEmpty then .error .emptyElements
    else .ok (vs.map fun v => match v with
      | .tuple ws => .list ws
      | v => v)
  | _ => .error .emptyElements

def attributes (s : ElementSpec) (c : Context) : Except BuildError Attributes := do
  let elements ← s.elementValues
  let scope ← scope c (.element s)
  let name ← c.collectionOf s
  pure (scope ++ [("name", .str name), ("elem", .list elements)])

end ElementSpec

def CounterSpec.attributes (s : CounterSpec) (verb : Verb) (c : Context) :
    Except BuildError Attributes := do
  let scope ← scope c (.counter s)
  let name ← s.name.nonEmpty "Counter name"
  let rest ←
    if verb = .add then do
      let packets ← countAttribute "Packets" s.packets
      let bytes ← countAttribute "Bytes" s.bytes
      pure [("packets", packets), ("bytes", bytes)]
    else pure []
  pure (scope ++ ("name", .str name) :: rest)

def QuotaSpec.attributes (s : QuotaSpec) (verb : Verb) (c : Context) :
    Except BuildError Attributes := do
  let scope ← scope c (.quota s)
  let name ← s.name.nonEmpty "Quota name"
  let rest ←
    if verb = .add then do
      let bytes ← countAttribute "Bytes" s.bytes
      let used ← countAttribute "Used" s.used
      pure [("bytes", bytes), ("used", used), ("over", .bool s.above.truthy)]
    else pure []
  pure (scope ++ ("name", .str name) :: rest)

def LimitSpec.attributes (s : LimitSpec) (verb : Verb) (c : Context) :
    Except BuildError Attributes := do
  let scope ← scope c (.limit s)
  let name ← s.name.nonEmpty "Limit name"
  let rest ←
    if verb = .add then do
      let rate ← countAttribute "Rate" (← s.rate.require "rate" verb.wire)
      let per ← wordAttribute RateUnit "rate unit" (← s.per.require "per" verb.wire)
      let burst ← countAttribute "Burst" s.burst
      pure [("rate", rate), ("per", per), ("burst", burst)]
    else pure []
  pure (scope ++ ("name", .str name) :: rest)

namespace FlowtableSpec

/-- The hook, which has to be the one at which packets come in. -/
def hookValue (s : FlowtableSpec) (verb : Verb) : Except ArgumentError Value := do
  let hook : Hook ← Vocabulary.resolve "hook" (← s.hook.require "hook" verb.wire)
  if hook = .ingress then pure (.str (Vocabulary.wire hook))
  else throw (.flowtableHook (Vocabulary.wire hook))

def nonEmptyNames (vs : List Value) : Except ArgumentError (List Value) :=
  vs.mapM fun v => .str <$> v.nonEmpty "Device name"

/-- The names of the interfaces, of which there is at least one. -/
def deviceNames (s : FlowtableSpec) (verb : Verb) : Except ArgumentError Value := do
  let devices ← s.devices.require "devices" verb.wire
  if (devices matches .str _) || !devices.truthy then throw .flowtableDevices
  pure devices

def flagsAttribute (v : Value) : Except ShapeError Attributes := do
  if v.truthy then
    pure [("flags", .list (← (← v.items).mapM fun f => .str <$> f.argumentText))]
  else pure []

def addAttributes (s : FlowtableSpec) (verb : Verb) : Except BuildError Attributes := do
  let hook ← s.hookValue verb
  let priority ← (← s.priority.require "priority" verb.wire).priority "Flowtable"
  let devices ← nonEmptyNames (← (← s.deviceNames verb).items)
  let flags ← flagsAttribute s.flags
  pure ([("hook", hook), ("prio", .int priority), ("dev", .list devices)] ++ flags)

def attributes (s : FlowtableSpec) (verb : Verb) (c : Context) : Except BuildError Attributes := do
  let scope ← scope c (.flowtable s)
  let name ← s.name.nonEmpty "Flowtable name"
  let rest ← if verb = .add then s.addAttributes verb else pure []
  pure (scope ++ ("name", .str name) :: rest)

end FlowtableSpec

def TableSpec.attributes (s : TableSpec) (c : Context) : Except BuildError Attributes := do
  let family ← c.familyOf (.table s)
  let name ← c.tableName s
  pure [("family", .str family), ("name", .str name)]

/-- The attributes of what a spec describes, for a verb and in a context. -/
def Spec.attributes (s : Spec) (verb : Verb) (c : Context) :
    Except BuildError (Option Attributes) := do
  match s with
  | .ruleset family =>
    if family.isNull then pure none else pure (some [("family", .str (← familyName family))])
  | .table s => some <$> s.attributes c
  | .chain s => some <$> s.attributes verb c
  | .rule s => some <$> s.attributes verb c
  | .set s => some <$> s.attributes verb c
  | .map s => some <$> s.attributes verb c
  | .element s => some <$> s.attributes c
  | .counter s => some <$> s.attributes verb c
  | .quota s => some <$> s.attributes verb c
  | .limit s => some <$> s.attributes verb c
  | .flowtable s => some <$> s.attributes verb c

end Nftables
