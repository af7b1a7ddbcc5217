import Nftables.Yaml.Node
import Nftables.Yaml.Scalar

/-!
# Loading

The datum of the document in a text. What a merge key names is put in front of the other entries of
a mapping. If a text has several faults, the one on the highest level counts.
-/

namespace Nftables.Yaml

namespace Node

def tag : Node → Tag
  | .scalar t _ | .sequence t _ | .mapping t _ | .enclosing t _ => t

/-- Is a tag one of a collection, which cannot be a key? -/
def isCollection : Tag → Bool
  | .sequence | .mapping | .set | .orderedMapping | .pairs => true
  | _ => false

/-- The text of a scalar, or of the default value of a mapping. -/
def textOf? : Nat → Node → Option String
  | 0, _ => none
  | fuel + 1, n =>
    match n with
    | .scalar _ text => some text
    | .mapping _ es =>
      match es.find? fun e => e.1.tag = .default with
      | some e => textOf? fuel e.2
      | none => none
    | _ => none

/-- The entries of a mapping with those of the mappings that merge keys name. -/
def flatten : Nat → List (Node × Node) → Except Fault (List (Node × Node))
  | 0, _ => .error .malformed
  | fuel + 1, es => do
    let merged ← (es.filter fun e => e.1.tag = .merge).mapM fun e =>
      match e.2 with
      | .mapping _ fs => flatten fuel fs
      | .sequence _ ns => do
        let parts ← ns.mapM fun n =>
          match n with
          | .mapping _ fs => flatten fuel fs
          | _ => .error .malformed
        .ok parts.reverse.flatten
      | _ => .error .malformed
    let own := (es.filter fun e => e.1.tag ≠ .merge).map fun e =>
      match e.1 with
      | .scalar .default text => (Node.scalar .text text, e.2)
      | _ => e
    .ok (merged.flatten ++ own)

/-- The datum of a node that is no collection. -/
def scalarDatum (fuel : Nat) (n : Node) : Except Fault Datum :=
  match textOf? fuel n with
  | some text => scalarOf n.tag text
  | none => .error .malformed

/-- The only entry of a mapping. -/
def singleEntry : Node → Except Fault (Node × Node)
  | .mapping _ [e] => .ok e
  | _ => .error .malformed

/-! ## Faults -/

/-- Looks at a node: a collection is left for later, anything else has to have a datum. -/
def look (n : Node) (fuel : Nat) : Except Fault (List Node) :=
  match n with
  | .enclosing .. => .ok []
  | n =>
    if isCollection n.tag then .ok [n]
    else do
      let _ ← n.scalarDatum fuel
      .ok []

/-- Looks at an entry of a mapping, whose key may be no collection. -/
def lookEntry (fuel : Nat) (e : Node × Node) : Except Fault (List Node) := do
  if isCollection e.1.tag then throw .malformed
  .ok ((← e.1.look fuel) ++ (← e.2.look fuel))

/-- Looks at what a collection holds; the collections in it are left for later. -/
def lookInside (fuel : Nat) (n : Node) : Except Fault (List Node) := do
  match n.tag, n with
  | .sequence, .sequence _ ns => .ok (← ns.mapM (·.look fuel)).flatten
  | .mapping, .mapping _ es | .set, .mapping _ es =>
    .ok (← (← flatten fuel es).mapM (lookEntry fuel)).flatten
  | .orderedMapping, .sequence _ ns | .pairs, .sequence _ ns =>
    let parts ← ns.mapM fun n => do
      let e ← singleEntry n
      .ok ((← e.1.look fuel) ++ (← e.2.look fuel))
    .ok parts.flatten
  | _, _ => .error .malformed

/-- Finds the first fault, level by level. -/
def check (fuel : Nat) : Nat → List Node → Except Fault Unit
  | _, [] => .ok ()
  | 0, _ => .error .malformed
  | levels + 1, ns => do check fuel levels (← ns.mapM (lookInside fuel)).flatten

/-! ## Data -/

/-- The datum of a node. -/
def datum : Nat → Node → Except Fault Datum
  | 0, _ => .error .malformed
  | fuel + 1, n => do
    let entry (e : Node × Node) : Except Fault (Datum × Datum) := do
      .ok (← datum fuel e.1, ← datum fuel e.2)
    let entries (es : List (Node × Node)) : Except Fault (List (Datum × Datum)) := do
      let es ← (← flatten fuel es).mapM entry
      .ok (es.foldl (fun fs e => Datum.insert e.1 e.2 fs) [])
    match n.tag, n with
    | _, .enclosing _ isMapping => .ok (.enclosing isMapping)
    | .sequence, .sequence _ ns => .ok (.list (← ns.mapM (datum fuel)))
    | .mapping, .mapping _ es => .ok (.mapping (← entries es))
    | .set, .mapping _ es => .ok (.set ((← entries es).map (·.1)))
    | .orderedMapping, .sequence _ ns | .pairs, .sequence _ ns =>
      let pairs ← ns.mapM fun n => do
        let (k, d) ← entry (← singleEntry n)
        .ok (.tuple [k, d])
      .ok (.list pairs)
    | _, n => scalarDatum fuel n

end Node

/-- The datum of a text; a text without a document says nothing. -/
def load (text : List Char) : Except Fault Datum := do
  match ← Node.parse text with
  | none => .ok .null
  | some n =>
    let fuel := text.length + 2
    Node.check fuel fuel (← n.look fuel)
    n.datum fuel

end Nftables.Yaml
