import Nftables.Value

/-!
# Equality of values

Whether two values are equal can be computed, along the values.
-/

namespace Nftables.Value

mutual

/-- Are two values equal? -/
def same : Value → Value → Bool
  | .null, .null => true
  | .bool a, .bool b => a == b
  | .int m, .int n => m == n
  | .float x, .float y => decide (x = y)
  | .str s, .str t => s == t
  | .list vs, .list ws => sameItems vs ws
  | .tuple vs, .tuple ws => sameItems vs ws
  | .set vs, .set ws => sameItems vs ws
  | .range a b c, .range a' b' c' => a == a' && b == b' && c == c'
  | .object es, .object fs => sameEntries es fs
  | _, _ => false

def sameItems : List Value → List Value → Bool
  | [], [] => true
  | v :: vs, w :: ws => same v w && sameItems vs ws
  | _, _ => false

def sameEntries : List (String × Value) → List (String × Value) → Bool
  | [], [] => true
  | (k, v) :: es, (l, w) :: fs => k == l && same v w && sameEntries es fs
  | _, _ => false

end

mutual

theorem same_iff (v w : Value) : same v w = true ↔ v = w := by
  cases v with
  | list vs =>
    cases w with
    | list ws => simp [same, sameItems_iff vs ws]
    | _ => simp [same]
  | tuple vs =>
    cases w with
    | tuple ws => simp [same, sameItems_iff vs ws]
    | _ => simp [same]
  | set vs =>
    cases w with
    | set ws => simp [same, sameItems_iff vs ws]
    | _ => simp [same]
  | object es =>
    cases w with
    | object fs => simp [same, sameEntries_iff es fs]
    | _ => simp [same]
  | _ => cases w <;> simp [same, and_assoc]

theorem sameItems_iff (vs ws : List Value) : sameItems vs ws = true ↔ vs = ws := by
  cases vs with
  | nil => cases ws <;> simp [sameItems]
  | cons v vs =>
    cases ws with
    | nil => simp [sameItems]
    | cons w ws => simp [sameItems, same_iff v w, sameItems_iff vs ws]

theorem sameEntries_iff (es fs : List (String × Value)) : sameEntries es fs = true ↔ es = fs := by
  cases es with
  | nil => cases fs <;> simp [sameEntries]
  | cons e es =>
    cases fs with
    | nil => simp [sameEntries]
    | cons f fs => simp [sameEntries, same_iff e.2 f.2, sameEntries_iff es fs, Prod.ext_iff]

end

instance : DecidableEq Value := fun v w ↦ decidable_of_iff _ (same_iff v w)

end Nftables.Value
