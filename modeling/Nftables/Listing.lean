import Nftables.Outcome

/-!
# Listings

The records in the answer to a query. A listing is read item by item, and each record has the
attributes of its own item; items of other kinds are passed over. Attributes that an item need not
have are null if it does not.
-/

namespace Nftables

structure TableRecord where
  name : Value
  family : Value
  handle : Value

structure ChainRecord where
  name : Value
  family : Value
  table : Value
  handle : Value
  type : Value
  hook : Value
  priority : Value
  policy : Value

structure RuleRecord where
  family : Value
  table : Value
  chain : Value
  handle : Value
  statements : Value
  comment : Value

/-- A set, or a map if it has a type of values. -/
structure SetRecord where
  name : Value
  family : Value
  table : Value
  handle : Value
  keyType : Value
  keyLength : Value
  flags : Value
  valueType : Value

structure ElementRecord where
  family : Value
  table : Value
  set : Value
  value : Value

/-! ## Ranges -/

namespace Value

/-- The bounds of an integer range as it is written on the wire, both included. -/
def wireRange? : List (String × Value) → Option (Int × Int)
  | [("range", .list [.int low, .int high])] => some (low, high)
  | _ => none

mutual

/-- The value with a range of integers for each written one. -/
def convertRanges : Value → Value
  | .list vs => .list (convertRangesItems vs)
  | .object es =>
    match wireRange? es with
    | some (low, high) => .range low (high + 1) 1
    | none => .object (convertRangesEntries es)
  | v => v

def convertRangesItems : List Value → List Value
  | [] => []
  | v :: vs => convertRanges v :: convertRangesItems vs

def convertRangesEntries : List (String × Value) → List (String × Value)
  | [] => []
  | (k, v) :: es => (k, convertRanges v) :: convertRangesEntries es

end

end Value

/-! ## Items -/

structure Listing where
  tables : List TableRecord := []
  chains : List ChainRecord := []
  rules : List RuleRecord := []
  sets : List SetRecord := []
  elements : List ElementRecord := []

namespace Listing

/-- Nothing listed. -/
def isEmpty (l : Listing) : Bool :=
  l.tables.isEmpty && l.chains.isEmpty && l.rules.isEmpty && l.sets.isEmpty && l.elements.isEmpty

/-- All records of both, kind by kind. -/
def append (l m : Listing) : Listing where
  tables := l.tables ++ m.tables
  chains := l.chains ++ m.chains
  rules := l.rules ++ m.rules
  sets := l.sets ++ m.sets
  elements := l.elements ++ m.elements

instance : Append Listing := ⟨append⟩

/-- An attribute that an item need not have. -/
def attribute? (v : Value) (key : String) : Value :=
  (v.get? key).getD .null

def table (v : Value) : Except ShapeError Listing := do
  let name ← v.get "name"
  let family ← v.get "family"
  pure { tables := [{ name, family, handle := attribute? v "handle" }] }

def chain (v : Value) : Except ShapeError Listing := do
  let name ← v.get "name"
  let family ← v.get "family"
  let table ← v.get "table"
  let record := {
    name, family, table, handle := attribute? v "handle", type := attribute? v "type",
    hook := attribute? v "hook", priority := attribute? v "prio", policy := attribute? v "policy" }
  pure { chains := [record] }

def rule (v : Value) : Except ShapeError Listing := do
  let family ← v.get "family"
  let table ← v.get "table"
  let chain ← v.get "chain"
  let record := {
    family, table, chain, handle := attribute? v "handle",
    statements := ((v.get? "expr").getD (.list [])).convertRanges,
    comment := attribute? v "comment" }
  pure { rules := [record] }

/-- The value of an element, which may be wrapped together with its options. -/
def elementValue (element : Value) : Value :=
  match element.get? "val" with
  | some v => v
  | none =>
    match (element.get? "elem").bind (·.get? "val") with
    | some v => v
    | none => element

/-- A set or map with its elements; one without attributes is passed over. -/
def set (v : Value) : Except ShapeError Listing := do
  if !v.truthy then return {}
  let name ← v.get "name"
  let family ← v.get "family"
  let table ← v.get "table"
  let record := {
    name, family, table, handle := attribute? v "handle", keyType := attribute? v "type",
    keyLength := attribute? v "key_len", flags := attribute? v "flags",
    valueType := attribute? v "map" }
  let elements ← ((attribute? v "elem").orElse (.list [])).items
  pure {
    sets := [record],
    elements := elements.map fun e => { family, table, set := name, value := elementValue e } }

/-- The records of an item. -/
def ofItem (item : Value) : Except ShapeError Listing :=
  if (item.get? "metainfo").isSome then .ok {}
  else match item.get? "table", item.get? "chain", item.get? "rule", item.get? "set",
      item.get? "map" with
    | some v, _, _, _, _ => table v
    | _, some v, _, _, _ => chain v
    | _, _, some v, _, _ => rule v
    | _, _, _, some v, _ => set v
    | _, _, _, _, some v => set v
    | _, _, _, _, _ => .ok {}

/-- The records of items, in their order. -/
def ofItems : List Value → Except ShapeError Listing
  | [] => .ok {}
  | item :: items => do .ok ((← ofItem item) ++ (← ofItems items))

/-- The items of a document: the entry `nftables` of an object, or the document itself. -/
def documentItems (document : Value) : Except ShapeError (List Value) :=
  match document with
  | .object es => ((Value.lookup "nftables" es).getD (.list [])).items
  | v => (v.orElse (.list [])).items

def ofDocument (document : Value) : Except ShapeError Listing := do
  ofItems (← documentItems document)

/-- Why there is no listing: the query has failed, or its answer is no listing. -/
inductive Error where
  | subsystem (e : SubsystemError)
  | shape (e : ShapeError)

/-- The listing in the outcome of a query. A success without data lists nothing. -/
def ofOutcome (o : Outcome) : Except Error Listing :=
  match o.orRaise with
  | .error e => .error (.subsystem e)
  | .ok (.data document) => (ofDocument document).mapError .shape
  | .ok _ => .ok {}

end Listing

end Nftables
