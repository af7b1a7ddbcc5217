import Nftables.Error
import Nftables.Fragment

/-!
# Operations

The commands a document consists of: a verb, the kind of object it is applied to, and the
attributes of the object.
-/

namespace Nftables

inductive Verb where
  | add | delete | flush | insert | replace | rename | list
deriving DecidableEq, Repr

def Verb.wire : Verb → String
  | .add => "add"
  | .delete => "delete"
  | .flush => "flush"
  | .insert => "insert"
  | .replace => "replace"
  | .rename => "rename"
  | .list => "list"

/-- Kinds of objects; `tables` can be listed only. -/
inductive ObjectKind where
  | ruleset | table | chain | rule | set | map | element | counter | quota | limit | flowtable
  | tables
deriving DecidableEq, Repr

def ObjectKind.wire : ObjectKind → String
  | .ruleset => "ruleset"
  | .table => "table"
  | .chain => "chain"
  | .rule => "rule"
  | .set => "set"
  | .map => "map"
  | .element => "element"
  | .counter => "counter"
  | .quota => "quota"
  | .limit => "limit"
  | .flowtable => "flowtable"
  | .tables => "tables"

/-- The verbs that change objects of a kind, in alphabetical order. -/
def ObjectKind.verbs : ObjectKind → List Verb
  | .ruleset => [.flush]
  | .table => [.add, .delete, .flush]
  | .chain => [.add, .delete, .flush, .rename]
  | .rule => [.add, .delete, .insert, .replace]
  | .set | .map => [.add, .delete, .flush]
  | .element | .counter | .quota | .limit | .flowtable => [.add, .delete]
  | .tables => []

def ObjectKind.admit (k : ObjectKind) (v : Verb) : Except ArgumentError Unit :=
  if v ∈ k.verbs then .ok ()
  else .error (.verbMismatch v.wire k.wire (k.verbs.map Verb.wire))

/-- Attributes in the order in which they are written. -/
abbrev Attributes := List (String × Value)

/-- A command. It has no attributes only if it is about all there is. -/
structure Operation where
  verb : Verb
  kind : ObjectKind
  attributes : Option Attributes

namespace Operation

def attributeValue (o : Operation) : Value :=
  match o.attributes with
  | some es => .object es
  | none => .null

/-- The command as it is written in a document. -/
def toValue (o : Operation) : Value :=
  Term.single o.verb.wire (Term.single o.kind.wire o.attributeValue)

end Operation

/-- The document of commands, in their order. -/
def document (os : List Operation) : Value :=
  Term.single "nftables" (.list (os.map Operation.toValue))

end Nftables
