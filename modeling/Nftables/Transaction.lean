import Nftables.Json.Printer
import Nftables.Spec.Attributes

/-!
# Transactions

A transaction is a list of operations together with the context in which the next one is read. An
operation captures the context it is added in; a later change of the context does not touch it.
-/

namespace Nftables

structure Transaction where
  context : Context := {}
  operations : List Operation := []

namespace Transaction

/-- Switches a part of the context. -/
inductive Switch where
  | family (v : Value)
  | table (v : Value)
  | chain (v : Value)
  | collection (v : Value)

/-- A family is checked when it is switched to, all else when it is used. -/
def switch (t : Transaction) : Switch → Except ArgumentError Transaction
  | .family v => do
    .ok { t with context := { t.context with family := .str (← Context.familyName v) } }
  | .table v => .ok { t with context := { t.context with table := v } }
  | .chain v => .ok { t with context := { t.context with chain := v } }
  | .collection v => .ok { t with context := { t.context with collection := v } }

def withContext (t : Transaction) (changes : List Switch) : Except ArgumentError Transaction :=
  changes.foldlM switch t

/-- The specs of single objects that a spec stands for: one for each rule of a batch. -/
def expand (s : Spec) : List Spec :=
  match s with
  | .rule r =>
    match r.body.items? with
    | some bodies => bodies.map fun body => .rule { r with body }
    | none => [s]
  | _ => [s]

/-- The operation with a verb on what a spec describes. -/
def operation (verb : Verb) (c : Context) (s : Spec) : Except BuildError Operation := do
  pure { verb, kind := s.kind, attributes := ← s.attributes verb c }

/-- Adds the operation with a verb on what a spec describes. All rules of a batch are read in the
same context. -/
def apply (t : Transaction) (verb : Verb) (s : Spec) : Except BuildError Transaction := do
  s.kind.admit verb
  let specs := expand s
  if 1 < specs.length ∧ verb ≠ .add ∧ verb ≠ .insert then
    throw (.argument (.batchVerb verb.wire))
  let operations ← specs.mapM (operation verb t.context)
  let context ← t.context.advance verb s
  pure { context, operations := t.operations ++ operations }

def add (t : Transaction) : Spec → Except BuildError Transaction := t.apply .add
def delete (t : Transaction) : Spec → Except BuildError Transaction := t.apply .delete
def flush (t : Transaction) : Spec → Except BuildError Transaction := t.apply .flush
def insert (t : Transaction) : Spec → Except BuildError Transaction := t.apply .insert
def replace (t : Transaction) : Spec → Except BuildError Transaction := t.apply .replace
def rename (t : Transaction) : Spec → Except BuildError Transaction := t.apply .rename

/-- Removes all objects of all families. -/
def flushAll (t : Transaction) : Except BuildError Transaction :=
  t.flush (.ruleset .null)

/-- Adds queries; nothing else is admitted. -/
def list (t : Transaction) (queries : List Operation) : Except ArgumentError Transaction :=
  if queries.all (·.verb = .list) then .ok { t with operations := t.operations ++ queries }
  else .error (.notListQuery none)

/-- The document that the transaction is sent as. -/
def toDocument (t : Transaction) : Value :=
  document t.operations

/-- The text of the document, with room on the stack for so many lists and objects within each
other. -/
def toJson (depth : Nat) (t : Transaction) : Except WriteError (List Char) :=
  Json.write depth t.toDocument

end Transaction

end Nftables
