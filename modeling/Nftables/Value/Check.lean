import Nftables.Error

/-!
# Checks on arguments

The conditions that a single argument has to meet. A truth value is never taken for a number.
-/

namespace Nftables.Value

/-- An integer from `low` to `high`. -/
def bounded (what : String) (low high : Int) (v : Value) : Except ArgumentError Int :=
  match v with
  | .int n =>
    if low ≤ n ∧ n ≤ high then .ok n else .error (.outOfBounds what low high v)
  | _ => .error (.outOfBounds what low high v)

/-- An integer that is not negative. -/
def count (what : String) (v : Value) : Except ArgumentError Int :=
  match v with
  | .int n => if 0 ≤ n then .ok n else .error (.negativeCount what v)
  | _ => .error (.negativeCount what v)

/-- Any integer, as the priority of something. -/
def priority (what : String) (v : Value) : Except ArgumentError Int :=
  match v with
  | .int n => .ok n
  | _ => .error (.priority what v)

/-- A text that is not empty. -/
def nonEmpty (what : String) (v : Value) : Except ArgumentError String :=
  match v with
  | .str s => if s = "" then .error (.emptyName what v) else .ok s
  | _ => .error (.emptyName what v)

/-- A value that may not be left out for a verb. -/
def require (field verb : String) (v : Value) : Except ArgumentError Value :=
  if v.isNull then .error (.missing field verb) else .ok v

/-- The items of a list, tuple or set; any other value is the only item. -/
def asList : Value → List Value
  | .list vs | .tuple vs | .set vs => vs
  | v => [v]

/-- The greatest numbers that fit into 16, 32 and 64 bits. -/
def max16 : Int := 0xFFFF
def max32 : Int := 0xFFFFFFFF
def max64 : Int := 0xFFFFFFFFFFFFFFFF

end Nftables.Value
