import Nftables.Value

/-!
# Plain values

The values that a document without floating-point numbers is made of.
-/

namespace Nftables.Value

/-- Nulls, truth values, integers and texts, and the lists and objects that are made of these.  No
object has a key twice. -/
inductive Plain : Value → Prop where
  | null : Plain .null
  | bool (b : Bool) : Plain (.bool b)
  | int (n : Int) : Plain (.int n)
  | str (s : String) : Plain (.str s)
  | list {vs : List Value} (h : ∀ v ∈ vs, Plain v) : Plain (.list vs)
  | object {es : List (String × Value)} (hkeys : (es.map Prod.fst).Nodup)
      (h : ∀ e ∈ es, Plain e.2) : Plain (.object es)

attribute [simp] Plain.null Plain.bool Plain.int Plain.str

@[simp] theorem plain_list_iff {vs : List Value} : (list vs).Plain ↔ ∀ v ∈ vs, v.Plain := by
  constructor
  · rintro (_ | _)
    assumption
  · exact .list

@[simp] theorem plain_object_iff {es : List (String × Value)} :
    (object es).Plain ↔ (es.map Prod.fst).Nodup ∧ ∀ e ∈ es, e.2.Plain := by
  constructor
  · rintro (_ | _)
    exact ⟨‹_›, ‹_›⟩
  · rintro ⟨hkeys, h⟩
    exact .object hkeys h

end Nftables.Value
