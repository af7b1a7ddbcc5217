import Nftables.Value.Literal

/-!
# Errors of rules and batches

Why a rule expression or an operation is refused. Nothing has been sent when one of these arises.
-/

namespace Nftables

/-- A value that is out of range or not known. -/
inductive ArgumentError where
  | unknownChoice (what : String) (given : Value) (choices : List String)
  | unknownSymbol (what : String) (given : Value)
  | numberOutOfTable (what : String) (given : Int)
  | outOfBounds (what : String) (low high : Int) (given : Value)
  | portRange (given : Value)
  | portPair (given : Value)
  | invertedPorts (first last : Value)
  | emptyPortSet
  | notAnAddress (given : Value)
  /-- an address of one version in an expression whose family admits the other one only -/
  | foreignAddress (version : Nat) (family : String)
  | unknownSetField (given : Value)
  | emptyName (what : String) (given : Value)
  | negativeCount (what : String) (given : Value)
  | missing (field verb : String)
  | emptyType
  /-- no rule body; the value is left out if it holds an expression -/
  | ruleBody (given : Option Value)
  | priority (what : String) (given : Value)
  | noPosition
  | emptyElements
  | flowtableHook (hook : String)
  | flowtableDevices
  | verbMismatch (verb kind : String) (valid : List String)
  | batchVerb (verb : String)
  /-- no list query; the value is left out if it is an operation -/
  | notListQuery (given : Option Value)

/-- Something that has to be known before is not. -/
inductive ContextError where
  | matchAfterVerdict
  | noProtocol (field : String)
  | noPorts (field protocol : String)
  | noTable (kind : String)
  | noTableName
  | noChainName
  | noChainOfRule
  | noCollectionName (kind : String)
  | noCollectionOfElements
deriving DecidableEq, Repr

inductive BuildError where
  | argument (e : ArgumentError)
  | context (e : ContextError)
  | shape (e : ShapeError)

instance : Coe ArgumentError BuildError := ⟨.argument⟩
instance : Coe ContextError BuildError := ⟨.context⟩
instance : Coe ShapeError BuildError := ⟨.shape⟩

instance : MonadLift (Except ArgumentError) (Except BuildError) := ⟨Except.mapError .argument⟩
instance : MonadLift (Except ContextError) (Except BuildError) := ⟨Except.mapError .context⟩
instance : MonadLift (Except ShapeError) (Except BuildError) := ⟨Except.mapError .shape⟩

/-- The left-out value in a message. -/
def Value.showOr : Option Value → String
  | some v => v.showLiteral
  | none => "..."

def ArgumentError.message : ArgumentError → String
  | .unknownChoice what v choices =>
    "Unknown " ++ what ++ ": " ++ v.showLiteral ++ " (expected one of: " ++
      ", ".intercalate choices ++ ")"
  | .unknownSymbol what v => "Unknown " ++ what ++ ": " ++ v.showLiteral
  | .numberOutOfTable what n => "Invalid " ++ what ++ ": " ++ Text.showInt n
  | .outOfBounds what low high v =>
    what ++ " must be an integer between " ++ Text.showInt low ++ " and " ++ Text.showInt high ++
      ", got " ++ v.showLiteral
  | .portRange v => "Invalid port range: " ++ v.showLiteral
  | .portPair v => "Port range must be a (first, last) pair, got " ++ v.showLiteral
  | .invertedPorts a b =>
    "Invalid port range: " ++ a.showText ++ "-" ++ b.showText ++ " (first must be <= last)"
  | .emptyPortSet => "Port set must not be empty"
  | .notAnAddress v => "Invalid address: " ++ v.showLiteral
  | .foreignAddress version family =>
    "IPv" ++ Text.showNat version ++ " address used in an " ++ family ++ " family expression"
  | .unknownSetField v => "Invalid set match field: " ++ v.showLiteral
  | .emptyName what v => what ++ " must be a non-empty string, got " ++ v.showLiteral
  | .negativeCount what v => what ++ " must be a non-negative integer, got " ++ v.showLiteral
  | .missing field verb => field ++ " must be given for " ++ verb
  | .emptyType => "Concatenated set type must not be empty"
  | .ruleBody v =>
    "Rule expression must be an Expr or a list of statements, got " ++ Value.showOr v
  | .priority what v => what ++ " priority must be an integer, got " ++ v.showLiteral
  | .noPosition => "insert needs a position: pass index= or handle="
  | .emptyElements => "Elements must be a non-empty list"
  | .flowtableHook hook => "Flowtables only support the ingress hook, got " ++ hook
  | .flowtableDevices => "Flowtable devices must be a non-empty list of interface names"
  | .verbMismatch verb kind valid =>
    verb ++ " is not valid for " ++ kind ++ " (valid: " ++ ", ".intercalate valid ++ ")"
  | .batchVerb verb => "A batch of rules can only be used with add or insert, not " ++ verb
  | .notListQuery v => "Not a list query: " ++ Value.showOr v

/-- The values that the message of a refusal shows. -/
def ArgumentError.shown : ArgumentError → List Value
  | .unknownChoice _ v _ | .unknownSymbol _ v | .outOfBounds _ _ _ v | .portRange v | .portPair v
  | .notAnAddress v | .unknownSetField v | .emptyName _ v | .negativeCount _ v | .priority _ v => [v]
  | .numberOutOfTable _ n => [.int n]
  | .invertedPorts a b => [a, b]
  | .ruleBody v | .notListQuery v => v.toList
  | .emptyPortSet | .foreignAddress .. | .missing .. | .emptyType | .noPosition | .emptyElements
  | .flowtableHook _ | .flowtableDevices | .verbMismatch .. | .batchVerb _ => []

/-- The message of a refusal that is told. If a value in it cannot be written, nobody is told of the
refusal, and what is raised in its place is that an integer has too many digits. -/
def ArgumentError.message? (e : ArgumentError) : Option String :=
  if e.shown.all Value.hasLiteral then some e.message else none

def ContextError.message : ContextError → String
  | .matchAfterVerdict => "Cannot add a match after a terminal verdict"
  | .noProtocol field =>
    field ++ " requires protocol context; call tcp(), udp(), sctp() or dccp() first"
  | .noPorts field protocol =>
    field ++ " requires a protocol with port fields, got " ++ protocol
  | .noTable kind => "No table for " ++ kind ++ ": pass table= or set an ambient table first"
  | .noTableName => "No table name given and no ambient table set"
  | .noChainName => "No chain name given and no ambient chain set"
  | .noChainOfRule => "No chain for rule: pass chain= or set an ambient chain first"
  | .noCollectionName kind => "No " ++ kind ++ " name given and no ambient set or map"
  | .noCollectionOfElements => "No set or map for elements: pass set= or add a set first"

end Nftables
