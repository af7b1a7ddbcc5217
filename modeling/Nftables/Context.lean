import Nftables.Spec

/-!
# Ambient context

The identity that consecutive operations share: a family, a table, a chain and a collection, which
is a set or map. What a spec leaves out is taken from here. A spec that says it makes it the context
of the operations after it; a change of the table leaves no chain and no collection behind.
-/

namespace Nftables

/-- The shared identity. Nothing is checked before it is used; null stands for nothing. -/
structure Context where
  family : Value := .str "inet"
  table : Value := .null
  chain : Value := .null
  collection : Value := .null

namespace Context

def familyName (family : Value) : Except ArgumentError String := do
  let f : Family ← Vocabulary.resolve "family" family
  .ok (Vocabulary.wire f)

/-- The family of an object. -/
def familyOf (c : Context) (s : Spec) : Except ArgumentError String :=
  familyName (s.family.orNull c.family)

/-- A name of which nothing and everything empty count as left out. -/
def nameOr (given ambient : Value) (what : String) (missing : ContextError) :
    Except BuildError String := do
  let name := given.orElse ambient
  if name.isNull then throw (.context missing)
  name.nonEmpty what

/-- The table an object is in. -/
def tableOf (c : Context) (s : Spec) : Except BuildError String :=
  nameOr s.table? c.table "Table name" (.noTable s.kind.wire)

def tableName (c : Context) (s : TableSpec) : Except BuildError String :=
  nameOr s.name c.table "Table name" .noTableName

def chainName (c : Context) (s : ChainSpec) : Except BuildError String :=
  nameOr s.name c.chain "Chain name" .noChainName

def chainOf (c : Context) (s : RuleSpec) : Except BuildError String :=
  nameOr s.chain c.chain "Chain name" .noChainOfRule

def setName (c : Context) (name : Value) : Except BuildError String :=
  nameOr name c.collection "Set name" (.noCollectionName "set")

def mapName (c : Context) (name : Value) : Except BuildError String :=
  nameOr name c.collection "Map name" (.noCollectionName "map")

def collectionOf (c : Context) (s : ElementSpec) : Except BuildError String :=
  nameOr s.set c.collection "Set name" .noCollectionOfElements

/-- Takes over the family and the table that a spec says. -/
def enter (c : Context) (s : Spec) : Except ArgumentError Context := do
  let c := { c with table := s.table?.orNull c.table }
  if s.family.isNull then .ok c else .ok { c with family := .str (← familyName s.family) }

/-- The context after an operation with a verb on what a spec describes. -/
def advance (c : Context) (verb : Verb) (s : Spec) : Except BuildError Context := do
  match s with
  | .ruleset _ => pure c
  | .table t =>
    let name ← c.tableName t
    let c ← c.enter s
    if c.table.isText name then pure c
    else pure { c with table := .str name, chain := .null, collection := .null }
  | .chain t =>
    let c ← c.enter s
    if verb = .rename then pure { c with chain := t.newName }
    else pure { c with chain := .str (← c.chainName t) }
  | .rule t =>
    let c ← c.enter s
    pure { c with chain := t.chain.orNull c.chain }
  | .set t =>
    let c ← c.enter s
    pure { c with collection := .str (← c.setName t.name) }
  | .map t =>
    let c ← c.enter s
    pure { c with collection := .str (← c.mapName t.name) }
  | .element t =>
    let c ← c.enter s
    pure { c with collection := t.set.orNull c.collection }
  | _ => c.enter s

end Context

end Nftables
