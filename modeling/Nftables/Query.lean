import Nftables.Call
import Nftables.Context

/-!
# Queries

Operations that ask for what there is. A family restricts an answer to its objects; names are not
checked.
-/

namespace Nftables

namespace Query

/-- The family as an attribute, if there is one. -/
def scope (family : Value) : Except ArgumentError Attributes :=
  if family.isNull then .ok [] else do .ok [("family", .str (← Context.familyName family))]

def operation (kind : ObjectKind) (attributes : Attributes) : Operation :=
  { verb := .list, kind, attributes := some attributes }

def tables (family : Value) : Except ArgumentError Operation := do
  .ok (operation .tables (← scope family))

/-- Everything: tables, chains, rules, sets and elements. -/
def ruleset (family : Value) : Except ArgumentError Operation := do
  .ok (operation .ruleset (← scope family))

def table (name family : Value) : Except ArgumentError Operation := do
  .ok (operation .table ((← scope family) ++ [("name", name)]))

/-- A chain with its rules. -/
def chain (table name family : Value) : Except ArgumentError Operation := do
  .ok (operation .chain ((← scope family) ++ [("table", table), ("name", name)]))

/-- A set with its elements. -/
def set (table name family : Value) : Except ArgumentError Operation := do
  .ok (operation .set ((← scope family) ++ [("table", table), ("name", name)]))

open Parameter (required optional)

/-- The query that a call names. Chains and sets are answered as parts of the ruleset. -/
def ofCall (c : Call) : Except BuildError Operation := do
  let inet := optional "family" (.str "inet")
  match c.name with
  | "list_tables" =>
    let [family] ← c.bind [optional "family"] | throw (.shape .unsupported)
    tables family
  | "list_ruleset" | "list_chains" | "list_sets" =>
    let [family] ← c.bind [optional "family"] | throw (.shape .unsupported)
    ruleset family
  | "list_table" =>
    let [name, family] ← c.bind [required "table", inet] | throw (.shape .unsupported)
    table name family
  | "list_chain" =>
    let [t, name, family] ← c.bind [required "table", required "chain", inet]
      | throw (.shape .unsupported)
    chain t name family
  | "list_set" =>
    let [t, name, family] ← c.bind [required "table", required "name", inet]
      | throw (.shape .unsupported)
    set t name family
  | _ => throw (.shape .noParts)

end Query

end Nftables
