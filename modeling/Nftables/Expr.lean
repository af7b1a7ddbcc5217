import Nftables.Expr.Action
import Nftables.Expr.Condition

/-!
# Expressions

An expression is the body of a rule under construction: the fragments so far, together with the
address family and the transport protocol that later conditions are about. No condition can be
added after a fragment at which the evaluation of the rule ends.
-/

namespace Nftables

structure Expr where
  family : Family
  protocol : Option Protocol := none
  comment : Value := .null
  fragments : List Fragment := []

namespace Expr

/-- The empty expression of a family, which is given by its name. -/
def begin (family : Value) : Except BuildError Expr := do
  pure { family := ← Vocabulary.resolve "family" family }

/-- Does a fragment of the expression end the evaluation of the rule? -/
def closed (e : Expr) : Bool :=
  e.fragments.any Fragment.terminal

/-- The statements of the rule, as they are written on the wire. -/
def toList (e : Expr) : List Value :=
  e.fragments.map Fragment.body

/-- Adds a fragment at the end; a closed expression admits no conditions. -/
def append (e : Expr) (f : Fragment) : Except BuildError Expr :=
  if f.kind = .condition ∧ e.closed then .error (.context .matchAfterVerdict)
  else .ok { e with fragments := e.fragments ++ [f] }

def withComment (e : Expr) (comment : Value) : Expr :=
  { e with comment }

/-- The condition on the transport protocol. It is read off the header that the family, or else the
protocol, belongs to. -/
def protocolFragment (family : Family) (p : Protocol) : Fragment :=
  let left := if family = .ip6 ∨ p = .icmpv6 then Term.payload "ip6" (.str "nexthdr")
    else Term.payload "ip" (.str "protocol")
  .condition left (.str (Vocabulary.wire p)) Condition.equal

/-- Asks for a transport protocol, which later conditions are then about. -/
def setProtocol (e : Expr) (p : Protocol) : Except BuildError Expr := do
  let e ← e.append (protocolFragment e.family p)
  pure { e with protocol := some p }

/-- Asks for a protocol unless it is the one the expression is about already. -/
def ensureProtocol (e : Expr) (p : Protocol) : Except BuildError Expr :=
  if e.protocol = some p then .ok e else e.setProtocol p

/-- Adds a condition. -/
def require (e : Expr) (c : Condition) : Except BuildError Expr := do
  e.append (← c.fragment e.family e.protocol)

/-- Adds an action. -/
def perform (e : Expr) (a : Action) : Except BuildError Expr := do
  e.append (← a.fragment e.family)

/-! ## Steps -/

/-- One step in the construction of an expression. -/
inductive Step where
  | comment (text : Value)
  | append (f : Fragment)
  /-- a protocol given by its name -/
  | protocol (name : Value)
  /-- a condition on a header of a protocol, which is asked for first if need be -/
  | within (p : Protocol) (c : Condition)
  | condition (c : Condition)
  | action (a : Action)

def apply (e : Expr) : Step → Except BuildError Expr
  | .comment text => .ok (e.withComment text)
  | .append f => e.append f
  | .protocol name => do e.setProtocol (← Vocabulary.resolve "protocol" name)
  | .within p c => do (← e.ensureProtocol p).require c
  | .condition c => e.require c
  | .action a => e.perform a

end Expr

end Nftables
