import Nftables.Binary64

/-!
# Dynamic values

Documents, arguments and attributes are values of one type: the values of a JSON document, in which
the entries of an object keep their order, and the collections a caller may pass besides.
-/

namespace Nftables

/-- A value. An object lists its entries in order; `Value.insert` keeps its keys apart. -/
inductive Value where
  | null
  | bool (b : Bool)
  | int (n : Int)
  | float (x : Binary64)
  | str (s : String)
  | list (items : List Value)
  | tuple (items : List Value)
  /-- a collection without an order of its own; the items are in the order in which it lists them -/
  | set (items : List Value)
  /-- the integers from `start` by steps of `step`, up to but without `stop` -/
  | range (start stop step : Int)
  | object (entries : List (String × Value))
deriving Inhabited

/-- What goes wrong when a value has not the shape that an operation needs. -/
inductive ShapeError where
  /-- the operation makes no sense for such a value -/
  | unsupported
  /-- a part is asked of a value that has no such parts -/
  | noParts
  /-- an object has not exactly one entry where one is expected -/
  | notSingle
  /-- an object lacks a key -/
  | missingKey (key : String)
  /-- a text is asked of a value that has none, since an integer in it has too many digits -/
  | tooManyDigits
deriving DecidableEq, Repr

/-- Why a value cannot be written as a text. -/
inductive WriteError where
  /-- values of its kind are not written -/
  | noText
  /-- an integer in it has too many digits -/
  | tooManyDigits
  /-- it has more lists and objects within each other than there is room for -/
  | tooDeep
deriving DecidableEq, Repr

/-- The members of an arithmetic progression, as many as there are between the bounds. -/
def rangeSize (start stop step : Int) : Nat :=
  if 0 < step then ((stop - start + step - 1) / step).toNat
  else if step < 0 then ((start - stop - step - 1) / -step).toNat
  else 0

def rangeItems (start stop step : Int) : List Int :=
  (List.range (rangeSize start stop step)).map fun (i : Nat) => start + step * i

namespace Value

def isNull : Value → Bool
  | .null => true
  | _ => false

@[simp] theorem isNull_null : isNull .null = true := rfl

def isText (s : String) : Value → Bool
  | .str t => t = s
  | _ => false

/-- Null, false, zero and everything empty are false; all other values are true. -/
def truthy : Value → Bool
  | .null => false
  | .bool b => b
  | .int n => n ≠ 0
  | .float (.finite _ m _) => m ≠ 0
  | .float _ => true
  | .str s => s ≠ ""
  | .list vs | .tuple vs | .set vs => !vs.isEmpty
  | .range start stop step => rangeSize start stop step ≠ 0
  | .object es => !es.isEmpty

/-- `v` if it is true, else `w`. -/
def orElse (v w : Value) : Value :=
  if v.truthy then v else w

/-- `v` unless it is null, else `w`. -/
def orNull (v w : Value) : Value :=
  if v.isNull then w else v

/-! ## Objects -/

/-- Sets a key: its entry keeps its place, a new one goes to the end. -/
def insert (key : String) (v : Value) : List (String × Value) → List (String × Value)
  | [] => [(key, v)]
  | (k, w) :: es => if k = key then (k, v) :: es else (k, w) :: insert key v es

/-- The value of a key in a list of entries. -/
def lookup (key : String) : List (String × Value) → Option Value
  | [] => none
  | (k, v) :: es => if k = key then some v else lookup key es

/-- The value of a key of an object; nothing for any other value. -/
def get? (v : Value) (key : String) : Option Value :=
  match v with
  | .object es => lookup key es
  | _ => none

/-- The value of a key that an object has to hold. -/
def get (v : Value) (key : String) : Except ShapeError Value :=
  match v with
  | .object es =>
    match lookup key es with
    | some w => .ok w
    | none => .error (.missingKey key)
  | _ => .error .unsupported

/-! ## Collections -/

/-- The items of a collection: an object lists its keys and a text its characters. -/
def items : Value → Except ShapeError (List Value)
  | .list vs | .tuple vs | .set vs => .ok vs
  | .range start stop step => .ok ((rangeItems start stop step).map .int)
  | .str s => .ok (s.toList.map fun c => .str (String.ofList [c]))
  | .object es => .ok (es.map fun e => .str e.1)
  | _ => .error .unsupported

/-- The numeric value of a number or a truth value. -/
def number? : Value → Option Rat
  | .bool b => some (if b then 1 else 0)
  | .int n => some n
  | .float x => x.toRat?
  | _ => none

/-- The values in ascending order. They have to be all numbers or all texts. -/
def sort (vs : List Value) : Except ShapeError (List Value) :=
  if vs.length ≤ 1 then .ok vs
  else if vs.all (fun v => v.number?.isSome) then
    .ok (vs.mergeSort fun v w => v.number?.getD 0 ≤ w.number?.getD 0)
  else if vs.all (fun v => v matches .str _) then
    .ok (vs.mergeSort fun v w => match v, w with
      | .str s, .str t => s ≤ t
      | _, _ => true)
  else .error .unsupported

/-! ## Unordered collections -/

/-- Do two values count as one member? Numbers do if they are equal. -/
def sameMember (v w : Value) : Bool :=
  match v, w with
  | .str s, .str t => s = t
  | .null, .null => true
  | v, w =>
    match v.number?, w.number? with
    | some x, some y => x = y
    | _, _ => false

/-- The number of places of the table that holds `n` members. -/
def tableSize (n : Nat) : Nat :=
  if n ≤ 4 then 8 else if n ≤ 18 then 32 else if n ≤ 76 then 128 else 512

/-- A collection without order, made of the given values. Each member counts once, and integers are
listed by their remainder modulo the size of the table that holds them. -/
def setOf (vs : List Value) : Value :=
  let members := vs.foldl (fun ms v => if ms.any (sameMember v) then ms else ms ++ [v]) []
  let size : Int := tableSize members.length
  .set (members.mergeSort fun v w => match v, w with
    | .int m, .int n => m % size ≤ n % size
    | _, _ => true)

end Value

end Nftables
