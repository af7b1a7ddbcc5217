import Nftables.Value

/-!
# Entries

Objects are lists of entries.  What is found under a key is the first entry with the key, and a new
key goes to the end.
-/

namespace Nftables.Value

variable {key : String} {v : Value} {es fs : List (String × Value)}

theorem lookup_isSome_iff : (lookup key es).isSome = true ↔ key ∈ es.map Prod.fst := by
  induction es with
  | nil => simp [lookup]
  | cons e es ih =>
    by_cases h : e.1 = key
    · simp [lookup, h]
    · simp only [lookup, if_neg h, ih, List.map_cons, List.mem_cons, Ne.symm h, false_or]

theorem mem_of_lookup (h : lookup key es = some v) : (key, v) ∈ es := by
  induction es with
  | nil => cases h
  | cons e es ih =>
    rw [lookup] at h
    split at h
    case isTrue hk =>
      cases h
      exact hk ▸ List.mem_cons_self
    case isFalse => exact List.mem_cons_of_mem _ (ih h)

/-- An entry is found under its key if it is the only one with the key. -/
theorem lookup_of_mem (hkeys : (es.map Prod.fst).Nodup) (h : (key, v) ∈ es) :
    lookup key es = some v := by
  induction es with
  | nil => cases h
  | cons e es ih =>
    rw [List.map_cons, List.nodup_cons] at hkeys
    rcases List.mem_cons.mp h with rfl | h
    · rw [lookup, if_pos rfl]
    · have hne : e.1 ≠ key := fun hk ↦ hkeys.1 (hk ▸ List.mem_map_of_mem h)
      rw [lookup, if_neg hne, ih hkeys.2 h]

/-- Entries with other keys are passed over. -/
theorem lookup_append_of_notMem (h : key ∉ es.map Prod.fst) :
    lookup key (es ++ fs) = lookup key fs := by
  induction es with
  | nil => rfl
  | cons e es ih =>
    rw [List.map_cons, List.mem_cons, not_or] at h
    rw [List.cons_append, lookup, if_neg (Ne.symm h.1), ih h.2]

theorem insert_of_notMem (h : key ∉ es.map Prod.fst) : insert key v es = es ++ [(key, v)] := by
  induction es with
  | nil => rfl
  | cons e es ih =>
    rw [List.map_cons, List.mem_cons, not_or] at h
    rw [insert, if_neg (Ne.symm h.1), ih h.2, List.cons_append]

/-- What is set is the new value or was there before. -/
theorem mem_of_mem_insert {e : String × Value} (h : e ∈ insert key v es) : e.2 = v ∨ e ∈ es := by
  induction es with
  | nil =>
    rw [insert, List.mem_singleton] at h
    exact .inl (congrArg Prod.snd h)
  | cons e' es ih =>
    obtain ⟨k, w⟩ := e'
    rw [insert] at h
    split at h
    case isTrue =>
      rcases List.mem_cons.mp h with rfl | h
      · exact .inl rfl
      · exact .inr (List.mem_cons_of_mem _ h)
    case isFalse =>
      rcases List.mem_cons.mp h with rfl | h
      · exact .inr List.mem_cons_self
      · exact (ih h).imp_right (List.mem_cons_of_mem _)

end Nftables.Value
