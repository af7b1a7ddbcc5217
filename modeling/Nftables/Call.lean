import Nftables.Error

/-!
# Calls by name

A call names what to do and gives arguments by position and by name. `Call.bind` puts them in the
order of the parameters; a parameter with a default may be left out.
-/

namespace Nftables

structure Call where
  name : String
  positional : List Value
  named : List (String × Value)
deriving Inhabited

structure Parameter where
  name : String
  default : Option Value

namespace Parameter

def required (name : String) : Parameter := ⟨name, none⟩
def optional (name : String) (default : Value := .null) : Parameter := ⟨name, some default⟩

end Parameter

namespace Call

/-- The arguments in the order of the parameters. Nothing may be missing, left over or given
twice. -/
def assign : List Parameter → List Value → List (String × Value) → Except ShapeError (List Value)
  | [], [], [] => .ok []
  | [], _, _ => .error .unsupported
  | p :: ps, v :: vs, named =>
    if (Value.lookup p.name named).isSome then .error .unsupported
    else (v :: ·) <$> assign ps vs named
  | p :: ps, [], named => do
    let v ← match Value.lookup p.name named, p.default with
      | some v, _ => .ok v
      | none, some v => .ok v
      | none, none => .error .unsupported
    (v :: ·) <$> assign ps [] (named.filter fun e => e.1 ≠ p.name)

def bind (c : Call) (ps : List Parameter) : Except ShapeError (List Value) :=
  assign ps c.positional c.named

end Call

end Nftables
