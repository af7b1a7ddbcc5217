import Nftables.Json.Printer
import Nftables.Proofs.Success
import Nftables.Proofs.Value.Entries
import Nftables.Value.Literal

/-!
# What can be written

The values that have a text, said without the check that looks at them one after another: their
integers have not too many digits, and for the lists and objects that they have within each other
there is room.
-/

namespace Nftables

namespace Value

variable {v w : Value} {vs : List Value} {es : List (String × Value)} {key : String}

theorem haveLiterals_iff : haveLiterals vs = true ↔ ∀ v ∈ vs, v.hasLiteral = true := by
  induction vs with
  | nil => simp [haveLiterals]
  | cons v vs ih => simp [haveLiterals, ih]

theorem entriesHaveLiterals_iff :
    entriesHaveLiterals es = true ↔ ∀ e ∈ es, e.2.hasLiteral = true := by
  induction es with
  | nil => simp [entriesHaveLiterals]
  | cons e es ih => simp [entriesHaveLiterals, ih]

/-- What has a literal has literals of its entries. -/
theorem hasLiteral_of_get? (hv : v.hasLiteral = true) (h : v.get? key = some w) :
    w.hasLiteral = true := by
  cases v with
  | object es => exact entriesHaveLiterals_iff.mp hv _ (mem_of_lookup h)
  | _ => cases h

end Value

namespace Json

open Text (hasNumeral)

/-- The values that have a text, given room for so many lists and objects within each other. -/
inductive Writable : (depth : Nat) → Value → Prop where
  | null (depth : Nat) : Writable depth .null
  | bool (depth : Nat) (b : Bool) : Writable depth (.bool b)
  | int {depth : Nat} {n : Int} (h : hasNumeral n = true) : Writable depth (.int n)
  | float (depth : Nat) (x : Binary64) : Writable depth (.float x)
  | str (depth : Nat) (s : String) : Writable depth (.str s)
  | list {depth : Nat} {vs : List Value} (h : ∀ v ∈ vs, Writable depth v) :
      Writable (depth + 1) (.list vs)
  | tuple {depth : Nat} {vs : List Value} (h : ∀ v ∈ vs, Writable depth v) :
      Writable (depth + 1) (.tuple vs)
  | object {depth : Nat} {es : List (String × Value)} (h : ∀ e ∈ es, Writable depth e.2) :
      Writable (depth + 1) (.object es)

attribute [simp] Writable.null Writable.bool Writable.float Writable.str

variable {depth depth' : Nat} {v : Value} {vs : List Value} {es : List (String × Value)}

@[simp] theorem writable_int_iff {n : Int} : Writable depth (.int n) ↔ hasNumeral n = true := by
  constructor
  · rintro (_ | _)
    assumption
  · exact .int

@[simp] theorem writable_list_iff :
    Writable (depth + 1) (.list vs) ↔ ∀ v ∈ vs, Writable depth v := by
  constructor
  · rintro (_ | _)
    assumption
  · exact .list

@[simp] theorem writable_object_iff :
    Writable (depth + 1) (.object es) ↔ ∀ e ∈ es, Writable depth e.2 := by
  constructor
  · rintro (_ | _)
    assumption
  · exact .object

/-- More room does no harm. -/
theorem Writable.mono (h : Writable depth v) (hdepth : depth ≤ depth') : Writable depth' v := by
  induction h generalizing depth' with
  | null => exact .null _
  | bool _ b => exact .bool _ b
  | int h => exact .int h
  | float _ x => exact .float _ x
  | str _ s => exact .str _ s
  | list _ ih =>
    obtain ⟨depth', rfl⟩ := Nat.exists_eq_add_one_of_ne_zero (Nat.ne_zero_of_lt hdepth)
    exact .list fun v hv ↦ ih v hv (Nat.le_of_succ_le_succ hdepth)
  | tuple _ ih =>
    obtain ⟨depth', rfl⟩ := Nat.exists_eq_add_one_of_ne_zero (Nat.ne_zero_of_lt hdepth)
    exact .tuple fun v hv ↦ ih v hv (Nat.le_of_succ_le_succ hdepth)
  | object _ ih =>
    obtain ⟨depth', rfl⟩ := Nat.exists_eq_add_one_of_ne_zero (Nat.ne_zero_of_lt hdepth)
    exact .object fun e he ↦ ih e he (Nat.le_of_succ_le_succ hdepth)

/-- What has a text has a literal. -/
theorem Writable.hasLiteral (h : Writable depth v) : v.hasLiteral = true := by
  induction h with
  | null | bool | float | str => rfl
  | int h => exact h
  | list _ ih | tuple _ ih => exact Value.haveLiterals_iff.mpr ih
  | object _ ih => exact Value.entriesHaveLiterals_iff.mpr ih

/-! ## The check -/

mutual

/-- A value passes the check if and only if it has a text. -/
theorem check_ok_iff (depth : Nat) (v : Value) : check depth v = .ok () ↔ Writable depth v := by
  cases v with
  | null | bool | float | str => simp [check]
  | int n => simp [check]
  | set | range =>
    refine iff_of_false ?_ nofun
    simp [check]
  | list vs =>
    cases depth with
    | zero => exact iff_of_false (by simp [check]) nofun
    | succ depth =>
      rw [check, checkItems_ok_iff depth vs, writable_list_iff]
  | tuple vs =>
    cases depth with
    | zero => exact iff_of_false (by simp [check]) nofun
    | succ depth =>
      rw [check, checkItems_ok_iff depth vs]
      exact ⟨.tuple, fun h ↦ by cases h; assumption⟩
  | object es =>
    cases depth with
    | zero => exact iff_of_false (by simp [check]) nofun
    | succ depth =>
      rw [check, checkEntries_ok_iff depth es, writable_object_iff]

theorem checkItems_ok_iff (depth : Nat) (vs : List Value) :
    checkItems depth vs = .ok () ↔ ∀ v ∈ vs, Writable depth v := by
  cases vs with
  | nil => simp [checkItems]
  | cons v vs =>
    rw [checkItems, check_bind_ok_iff, List.forall_mem_cons, check_ok_iff depth v,
      checkItems_ok_iff depth vs]

theorem checkEntries_ok_iff (depth : Nat) (es : List (String × Value)) :
    checkEntries depth es = .ok () ↔ ∀ e ∈ es, Writable depth e.2 := by
  cases es with
  | nil => simp [checkEntries]
  | cons e es =>
    obtain ⟨k, v⟩ := e
    rw [checkEntries, check_bind_ok_iff, List.forall_mem_cons, check_ok_iff depth v,
      checkEntries_ok_iff depth es]

end

instance (depth : Nat) (v : Value) : Decidable (Writable depth v) :=
  decidable_of_iff _ (check_ok_iff depth v)

/-! ## Writing -/

variable {text : List Char}

theorem write_ok_iff : write depth v = .ok text ↔ Writable depth v ∧ compact v = text := by
  rw [write, check_bind_ok_iff, check_ok_iff, Except.ok.injEq]

theorem writeIndented_ok_iff :
    writeIndented depth v = .ok text ↔ Writable depth v ∧ indented 0 v = text := by
  rw [writeIndented, check_bind_ok_iff, check_ok_iff, Except.ok.injEq]

end Json
end Nftables
