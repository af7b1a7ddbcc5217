import Nftables.Expr
import Nftables.Operation

/-!
# Specs

Descriptions of the objects that an operation is applied to, one structure per kind. The fields are
values as they were given: they are checked, and what is left out is taken from the context, when a
spec is resolved. A field that is null counts as left out.
-/

namespace Nftables

/-- The body of a rule, or the bodies of several rules. -/
inductive RuleBody where
  | expr (e : Expr)
  | value (v : Value)
  /-- a sequence in which an expression stands somewhere -/
  | sequence (items : List RuleBody)

instance : Inhabited RuleBody := ⟨.value .null⟩

structure TableSpec where
  name : Value := .null
  family : Value := .null

/-- A chain; a type, hook or priority makes it a base chain. -/
structure ChainSpec where
  name : Value := .null
  table : Value := .null
  family : Value := .null
  type : Value := .null
  hook : Value := .null
  priority : Value := .null
  policy : Value := .null
  devices : Value := .null
  newName : Value := .null

/-- A rule, or a batch of rules which have all but their bodies in common. -/
structure RuleSpec where
  body : RuleBody := .value .null
  table : Value := .null
  chain : Value := .null
  family : Value := .null
  comment : Value := .null
  index : Value := .null
  handle : Value := .null

/-- What limits the elements of a set or map. -/
structure CollectionOptions where
  flags : Value := .null
  timeout : Value := .null
  gcInterval : Value := .null
  size : Value := .null

structure SetSpec where
  name : Value := .null
  table : Value := .null
  family : Value := .null
  type : Value := .null
  options : CollectionOptions := {}

structure MapSpec where
  name : Value := .null
  table : Value := .null
  family : Value := .null
  keyType : Value := .null
  valueType : Value := .null
  options : CollectionOptions := {}

/-- Elements of a set, or pairs of a map. -/
structure ElementSpec where
  elements : Value := .list []
  set : Value := .null
  table : Value := .null
  family : Value := .null

structure CounterSpec where
  name : Value := .null
  table : Value := .null
  family : Value := .null
  packets : Value := .int 0
  bytes : Value := .int 0

structure QuotaSpec where
  name : Value := .null
  table : Value := .null
  family : Value := .null
  bytes : Value := .int 0
  used : Value := .int 0
  above : Value := .bool false

structure LimitSpec where
  name : Value := .null
  table : Value := .null
  family : Value := .null
  rate : Value := .null
  per : Value := .null
  burst : Value := .int 0

structure FlowtableSpec where
  name : Value := .null
  table : Value := .null
  family : Value := .null
  hook : Value := .null
  priority : Value := .null
  devices : Value := .null
  flags : Value := .null

inductive Spec where
  /-- all objects, or those of a family -/
  | ruleset (family : Value)
  | table (s : TableSpec)
  | chain (s : ChainSpec)
  | rule (s : RuleSpec)
  | set (s : SetSpec)
  | map (s : MapSpec)
  | element (s : ElementSpec)
  | counter (s : CounterSpec)
  | quota (s : QuotaSpec)
  | limit (s : LimitSpec)
  | flowtable (s : FlowtableSpec)

namespace Spec

def kind : Spec → ObjectKind
  | .ruleset _ => .ruleset
  | .table _ => .table
  | .chain _ => .chain
  | .rule _ => .rule
  | .set _ => .set
  | .map _ => .map
  | .element _ => .element
  | .counter _ => .counter
  | .quota _ => .quota
  | .limit _ => .limit
  | .flowtable _ => .flowtable

def family : Spec → Value
  | .ruleset family => family
  | .table s => s.family
  | .chain s => s.family
  | .rule s => s.family
  | .set s => s.family
  | .map s => s.family
  | .element s => s.family
  | .counter s => s.family
  | .quota s => s.family
  | .limit s => s.family
  | .flowtable s => s.family

/-- The table the object is in; the ruleset and tables are in none. -/
def table? : Spec → Value
  | .ruleset _ | .table _ => .null
  | .chain s => s.table
  | .rule s => s.table
  | .set s => s.table
  | .map s => s.table
  | .element s => s.table
  | .counter s => s.table
  | .quota s => s.table
  | .limit s => s.table
  | .flowtable s => s.table

end Spec

/-! ## Rule bodies -/

namespace RuleBody

def isNull : RuleBody → Bool
  | .value v => v.isNull
  | _ => false

/-- Can a body be one of several? -/
def isItem : RuleBody → Bool
  | .expr _ | .sequence _ => true
  | .value (.list _) | .value (.tuple _) => true
  | .value _ => false

/-- The bodies in a sequence that is not empty and holds nothing but bodies. -/
def items? (b : RuleBody) : Option (List RuleBody) :=
  let bodies := match b with
    | .sequence bs => bs
    | .value (.list vs) | .value (.tuple vs) => vs.map .value
    | _ => []
  if !bodies.isEmpty && bodies.all isItem then some bodies else none

/-- The statements of one rule. -/
def statements (b : RuleBody) : Except ArgumentError (List Value) :=
  match b with
  | .expr e => .ok e.toList
  | .value v =>
    match v with
    | .list vs | .tuple vs =>
      if vs.all (fun v => v matches .object _) then .ok vs else .error (.ruleBody (some v))
    | _ => .error (.ruleBody (some v))
  | .sequence _ => .error (.ruleBody none)

/-- The comment that comes with an expression. -/
def comment : RuleBody → Value
  | .expr e => e.comment
  | _ => .null

end RuleBody

end Nftables
