import Nftables.Symbol.Vocabularies

/-!
# Fragments

The building blocks of a rule: terms, which are plain values, and fragments, which are complete
elements of a rule. Nothing is checked here; symbolic arguments have been resolved by the caller.
-/

namespace Nftables

/-! ## Terms -/

namespace Term

/-- An object with one entry. -/
def single (key : String) (v : Value) : Value :=
  .object [(key, v)]

/-- A field of a protocol header. -/
def payload (protocol : String) (field : Value) : Value :=
  single "payload" (.object [("protocol", .str protocol), ("field", field)])

/-- A part of a packet by offset and length, both in bits. -/
def rawPayload (base : String) (offset length : Value) : Value :=
  single "payload" (.object [("base", .str base), ("offset", offset), ("len", length)])

/-- A datum that goes with the packet. -/
def metaKey (key : Value) : Value :=
  single "meta" (.object [("key", key)])

/-- A datum of the tracked connection, possibly of one direction of it. -/
def ct (key : Value) (direction : Option String := none) : Value :=
  single "ct" (.object (("key", key) :: (direction.map fun d => ("dir", .str d)).toList))

def socket (key : Value) : Value :=
  single "socket" (.object [("key", key)])

/-- A datum of the fingerprint of the sending operating system. -/
def fingerprint (key : Value) (ttl : String) : Value :=
  single "osf" (.object [("key", key), ("ttl", .str ttl)])

def tcpOption (name field : Value) : Value :=
  single "tcp option" (.object [("name", name), ("field", field)])

def addressBlock (address length : Value) : Value :=
  single "prefix" (.object [("addr", address), ("len", length)])

/-- All values from `low` to `high`, both included. -/
def range (low high : Value) : Value :=
  single "range" (.list [low, high])

def anonymousSet (items : List Value) : Value :=
  single "set" (.list items)

def bitAnd (term mask : Value) : Value := single "&" (.list [term, mask])
def plus (term n : Value) : Value := single "+" (.list [term, n])
def minus (term n : Value) : Value := single "-" (.list [term, n])

/-- The reference to a named set or map: its name after an at sign. -/
def setRef (name : String) : String :=
  if name.toList.head? = some '@' then name else "@" ++ name

/-- The reference to a set named by a value, which has to be a text. -/
def setRef? : Value → Except ShapeError Value
  | .str s => .ok (.str (setRef s))
  | _ => .error .noParts

end Term

/-! ## Fragments -/

inductive FragmentKind where
  | condition | statement | verdict
deriving DecidableEq, Repr

def FragmentKind.wire : FragmentKind → String
  | .condition => "match"
  | .statement => "statement"
  | .verdict => "verdict"

/-- One element of a rule, written on the wire as the object that maps `key` to `value`. -/
structure Fragment where
  kind : FragmentKind
  key : String
  value : Value

/-- The keys of the statements after which the rule says nothing more about the packet. -/
def terminalKeys : List String :=
  ["accept", "drop", "return", "jump", "goto", "reject"]

namespace Fragment

def body (f : Fragment) : Value :=
  Term.single f.key f.value

/-- Does the evaluation of the rule end at this fragment? -/
def terminal (f : Fragment) : Bool :=
  terminalKeys.contains f.key

/-- The condition that `left` is in a relation to `right`. -/
def condition (left right : Value) (relation : String) : Fragment :=
  { kind := .condition, key := "match",
    value := .object [("op", .str relation), ("left", left), ("right", right)] }

/-- The condition that there are at most `count` connections, or more if it is inverted. -/
def connectionCount (count : Value) (inverted : Bool) : Fragment :=
  { kind := .condition, key := "ct count",
    value := .object (("val", count) :: if inverted then [("inv", .bool true)] else []) }

/-- A verdict by its wire name; jumps have a target. -/
def verdict (name : String) (target : Value := .null) : Fragment :=
  { kind := .verdict, key := name,
    value := if name = "jump" ∨ name = "goto" then .object [("target", target)] else .null }

def reject (type code : Value) : Fragment :=
  { kind := .verdict, key := "reject",
    value :=
      if type.isNull then .null
      else .object (("type", type) :: if code.isNull then [] else [("expr", code)]) }

def statement (key : String) (v : Value := .null) : Fragment :=
  { kind := .statement, key := key, value := v }

/-- The entries of an attribute object whose value is given, or null if there is none. -/
def given (entries : List (String × Value)) : List (String × Value) :=
  entries.filter fun e => !e.2.isNull

def orNothing : List (String × Value) → Value
  | [] => .null
  | es => .object es

/-- A reference to a named counter, or a counter of the rule's own. -/
def counter (name : Value) : Fragment :=
  statement "counter"
    (if name.isNull then .object [("packets", .int 0), ("bytes", .int 0)] else name)

def log (label level group : Value) : Fragment :=
  statement "log" (orNothing (given [("prefix", label), ("level", level), ("group", group)]))

/-- A rate limit; an inverted one holds above the rate. -/
def limit (rate : Value) (per : String) (burst rateUnit : Value) (inverted : Bool) : Fragment :=
  statement "limit" (.object
    (("rate", rate) :: ("per", .str per) :: given [("rate_unit", rateUnit), ("burst", burst)] ++
      if inverted then [("inv", .bool true)] else []))

/-- Sets a part of the packet or of its metadata. -/
def mangle (key v : Value) : Fragment :=
  statement "mangle" (.object [("key", key), ("value", v)])

/-- An address translation of the given kind. -/
def nat (kind : String) (address port family : Value) : Fragment :=
  statement kind (orNothing (given [("addr", address), ("port", port), ("family", family)]))

/-- Adds or updates an element of a set from the packet path, with statements of its own. -/
def setStatement (op element reference : Value) (statements : List Value) : Fragment :=
  statement "set" (.object
    (("op", op) :: ("elem", element) :: ("set", reference) ::
      if statements.isEmpty then [] else [("stmt", .list statements)]))

end Fragment

end Nftables
