import Nftables.Json.Printer
import Nftables.Value.Literal

/-!
# Plans

The text that shows what a document will do: a line that counts the operations, then for each
operation a numbered line with its scope, a line for each other attribute and a line for each
statement. All operations are looked at before the first line is written.
-/

namespace Nftables

namespace Plan

open Text (join decimal)

/-- Why a document has no plan: it has not the shape of one, or something in it cannot be written. -/
inductive Error where
  | shape (e : ShapeError)
  | write (e : WriteError)
deriving DecidableEq, Repr

instance : MonadLift (Except ShapeError) (Except Error) := ⟨Except.mapError .shape⟩
instance : MonadLift (Except WriteError) (Except Error) := ⟨Except.mapError .write⟩

/-- What is shown of one operation. -/
structure Step where
  verb : String
  kind : String
  scope : List Char
  details : List (String × Value)
  statements : Value

/-- The attributes that say what an operation is about, in the order in which they are shown. -/
def scopeKeys : List String :=
  ["family", "table", "chain", "name"]

/-- The only entry of an object that has to have one. -/
def single (v : Value) : Except ShapeError (String × Value) :=
  match v with
  | .object [e] => .ok e
  | .object _ => .error .notSingle
  | _ => .error .noParts

/-- The attributes of an operation: an object, or nothing at all. Other collections have no
attributes, and one that mentions a scope key cannot be asked for it. -/
def attributes (v : Value) : Except ShapeError (List (String × Value)) :=
  if !v.truthy then .ok []
  else match v with
    | .object es => .ok es
    | .str s =>
      if scopeKeys.any fun k => Text.occursIn k.toList s.toList then .error .unsupported
      else .error .noParts
    | .list vs | .tuple vs | .set vs =>
      if scopeKeys.any fun k => vs.any (·.isText k) then .error .unsupported else .error .noParts
    | .range .. => .error .noParts
    | _ => .error .unsupported

/-- The scope of an operation: what it is about, by the values of the scope keys it has. -/
def scope (es : List (String × Value)) : Except WriteError (List Char) := do
  .ok (join [' '] (← (scopeKeys.filterMap fun k => Value.lookup k es).mapM Value.text?))

def step (command : Value) : Except Error Step := do
  let (verb, body) ← single command
  let (kind, attrs) ← single body
  let es ← attributes attrs
  let scope ← scope es
  pure {
    verb, kind, scope,
    details := es.filter fun e => !scopeKeys.contains e.1 && e.1 ≠ "expr",
    statements := (Value.lookup "expr" es).getD .null }

/-- A number right-aligned to three places. -/
def rightAligned (n : Nat) : List Char :=
  let ds := decimal n
  List.replicate (3 - ds.length) ' ' ++ ds

def headLine (index : Nat) (s : Step) : List Char :=
  rightAligned index ++ ". ".toList ++ s.verb.toList ++ ' ' :: s.kind.toList ++
    if s.scope.isEmpty then [] else ' ' :: s.scope

def detailLine (depth : Nat) (e : String × Value) : Except WriteError (List Char) := do
  .ok ("       ".toList ++ e.1.toList ++ ": ".toList ++ (← Json.write depth e.2))

def statementLine (depth : Nat) (v : Value) : Except WriteError (List Char) := do
  .ok ("       | ".toList ++ (← Json.write depth v))

def detailLines (depth : Nat) (s : Step) : Except WriteError (List (List Char)) :=
  s.details.mapM (detailLine depth)

/-- The statements that are shown; there may be none at all. -/
def Step.listed (s : Step) : Except ShapeError (List Value) :=
  if s.statements.isNull then .ok [] else s.statements.items

def statementLines (depth : Nat) (vs : List Value) : Except WriteError (List (List Char)) :=
  vs.mapM (statementLine depth)

/-- The lines of the operation with an index, with room on the stack for so many lists and objects
within each other. -/
def stepLines (depth index : Nat) (s : Step) : Except Error (List (List Char)) := do
  let details ← detailLines depth s
  let statements ← statementLines depth (← s.listed)
  pure (headLine index s :: (details ++ statements))

/-- The lines of operations that are numbered from `index` on. -/
def linesFrom (depth index : Nat) : List Step → Except Error (List (List Char))
  | [] => .ok []
  | s :: ss => do .ok ((← stepLines depth index s) ++ (← linesFrom depth (index + 1) ss))

/-- The commands of a document. Anything but an object may only be an empty collection. -/
def commands (document : Value) : Except ShapeError (List Value) :=
  match document with
  | .object es => ((Value.lookup "nftables" es).getD (.list [])).items
  | v => do
    let vs ← v.items
    if vs.isEmpty then .ok [] else .error .noParts

def lines (depth : Nat) (document : Value) : Except Error (List (List Char)) := do
  let steps ← (← commands document).mapM step
  let body ← linesFrom depth 1 steps
  .ok ((decimal steps.length ++ " operation(s)".toList) :: body)

/-- The plan of a document; each line ends with a line feed. -/
def render (depth : Nat) (document : Value) : Except Error (List Char) := do
  .ok ((← lines depth document).flatMap (· ++ ['\n']))

end Plan

end Nftables
