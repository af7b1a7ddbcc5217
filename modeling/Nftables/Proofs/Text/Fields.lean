import Nftables.Text.Fields

/-!
# Splitting and joining

A text is split into the fields that give it when they are joined, and that do not hold the
separator.  There is one such list of fields.  And what occurs in a text is a part of it without
gaps.
-/

namespace Nftables.Text

variable {s : Char} {c : Char} {cs : List Char} {fs gs : List (List Char)}

/-! ## Joining -/

@[simp] theorem join_singleton (separator cs : List Char) : join separator [cs] = cs := rfl

theorem join_cons (separator cs : List Char) (h : fs ≠ []) :
    join separator (cs :: fs) = cs ++ separator ++ join separator fs := by
  cases fs with
  | nil => exact absurd rfl h
  | cons => rfl

theorem join_pair (s : Char) (cs ds : List Char) : join [s] [cs, ds] = cs ++ s :: ds := by
  simp [join]

theorem join_append (separator : List Char) (hfs : fs ≠ []) (hgs : gs ≠ []) :
    join separator (fs ++ gs) = join separator fs ++ separator ++ join separator gs := by
  induction fs with
  | nil => exact absurd rfl hfs
  | cons cs fs ih =>
    rw [List.cons_append, join_cons _ _ (by simp [hgs])]
    by_cases hnil : fs = []
    · simp [hnil]
    · rw [ih hnil, join_cons _ _ hnil]
      simp only [List.append_assoc]

/-- What stands in a joined text stands in one of its parts. -/
theorem mem_join (separator : List Char) (h : c ∈ join separator fs) :
    c ∈ separator ∨ ∃ f ∈ fs, c ∈ f := by
  induction fs with
  | nil => cases h
  | cons cs fs ih =>
    by_cases hnil : fs = []
    · rw [hnil, join_singleton] at h
      exact .inr ⟨cs, List.mem_cons_self, h⟩
    · rw [join_cons _ _ hnil, List.mem_append, List.mem_append] at h
      rcases h with (h | h) | h
      · exact .inr ⟨cs, List.mem_cons_self, h⟩
      · exact .inl h
      · exact (ih h).imp_right fun ⟨f, hf, hc⟩ ↦ ⟨f, List.mem_cons_of_mem _ hf, hc⟩

/-! ## Splitting -/

@[simp] theorem split_ne_nil (s : Char) (cs : List Char) : split s cs ≠ [] := by
  cases cs with
  | nil => exact List.cons_ne_nil _ _
  | cons c cs =>
    rw [split]
    split
    · exact List.cons_ne_nil _ _
    · split <;> exact List.cons_ne_nil _ _

theorem split_cons_self (s : Char) (cs : List Char) : split s (s :: cs) = [] :: split s cs :=
  if_pos rfl

/-- A character that is no separator goes to the first field. -/
theorem split_cons_of_ne (h : c ≠ s) (cs : List Char) :
    ∃ f fs, split s cs = f :: fs ∧ split s (c :: cs) = (c :: f) :: fs := by
  obtain ⟨f, fs, hfs⟩ := List.exists_cons_of_ne_nil (split_ne_nil s cs)
  exact ⟨f, fs, hfs, by rw [split, if_neg h, hfs]⟩

theorem join_split (s : Char) (cs : List Char) : join [s] (split s cs) = cs := by
  induction cs with
  | nil => rfl
  | cons c cs ih =>
    by_cases h : c = s
    · rw [h, split_cons_self, join_cons _ _ (split_ne_nil s cs), ih]
      rfl
    · obtain ⟨f, fs, hfs, hsplit⟩ := split_cons_of_ne h cs
      rw [hsplit]
      rw [hfs] at ih
      cases fs with
      | nil => exact congrArg (c :: ·) ih
      | cons => exact congrArg (c :: ·) ih

theorem notMem_of_mem_split {f : List Char} (hf : f ∈ split s cs) : s ∉ f := by
  induction cs generalizing f with
  | nil =>
    rw [split, List.mem_singleton] at hf
    rw [hf]
    exact List.not_mem_nil
  | cons c cs ih =>
    by_cases h : c = s
    · rw [h, split_cons_self, List.mem_cons] at hf
      rcases hf with rfl | hf
      · exact List.not_mem_nil
      · exact ih hf
    · obtain ⟨g, fs, hfs, hsplit⟩ := split_cons_of_ne h cs
      rw [hfs] at ih
      rw [hsplit, List.mem_cons] at hf
      rcases hf with rfl | hf
      · exact List.not_mem_cons_of_ne_of_not_mem (Ne.symm h) (ih List.mem_cons_self)
      · exact ih (List.mem_cons_of_mem _ hf)

theorem split_of_notMem (h : s ∉ cs) : split s cs = [cs] := by
  induction cs with
  | nil => rfl
  | cons c cs ih =>
    rw [List.mem_cons, not_or] at h
    rw [split, if_neg (Ne.symm h.1), ih h.2]

/-- What stands in front of the first separator is the first field. -/
theorem split_append_cons {f : List Char} (hf : s ∉ f) (cs : List Char) :
    split s (f ++ s :: cs) = f :: split s cs := by
  induction f with
  | nil => exact split_cons_self s cs
  | cons c f ih =>
    rw [List.mem_cons, not_or] at hf
    rw [List.cons_append, split, if_neg (Ne.symm hf.1), ih hf.2]

theorem split_join (hfs : fs ≠ []) (h : ∀ f ∈ fs, s ∉ f) : split s (join [s] fs) = fs := by
  induction fs with
  | nil => exact absurd rfl hfs
  | cons f fs ih =>
    rw [List.forall_mem_cons] at h
    by_cases hnil : fs = []
    · rw [hnil, join_singleton, split_of_notMem h.1]
    · rw [join_cons _ _ hnil, List.append_assoc, List.singleton_append, split_append_cons h.1,
        ih hnil h.2]

/-- The fields of a text are those that give it when they are joined. -/
theorem split_eq_iff :
    split s cs = fs ↔ fs ≠ [] ∧ (∀ f ∈ fs, s ∉ f) ∧ cs = join [s] fs := by
  constructor
  · rintro rfl
    exact ⟨split_ne_nil s cs, fun _ ↦ notMem_of_mem_split, (join_split s cs).symm⟩
  · rintro ⟨hfs, h, rfl⟩
    exact split_join hfs h

theorem split_append (s : Char) (cs ds : List Char) :
    split s (cs ++ s :: ds) = split s cs ++ split s ds := by
  refine split_eq_iff.mpr ⟨by simp, ?_, ?_⟩
  · exact List.forall_mem_append.mpr ⟨fun _ ↦ notMem_of_mem_split, fun _ ↦ notMem_of_mem_split⟩
  · rw [join_append _ (split_ne_nil s cs) (split_ne_nil s ds), join_split, join_split,
      List.append_assoc, List.singleton_append]

theorem mem_of_mem_join (separator : List Char) {f : List Char} (hf : f ∈ fs) (hc : c ∈ f) :
    c ∈ join separator fs := by
  induction fs with
  | nil => cases hf
  | cons g fs ih =>
    by_cases hnil : fs = []
    · subst hnil
      rwa [List.mem_singleton.mp hf] at hc
    · rw [join_cons _ _ hnil, List.mem_append, List.mem_append]
      rcases List.mem_cons.mp hf with rfl | hf
      · exact .inl (.inl hc)
      · exact .inr (ih hf)

/-! ## Occurrences -/

theorem occursIn_iff {part : List Char} : occursIn part cs = true ↔ part <:+: cs := by
  induction cs with
  | nil => simp [occursIn]
  | cons c cs ih =>
    rw [occursIn, Bool.or_eq_true, ih, List.isPrefixOf_iff_prefix, List.infix_cons_iff]

end Nftables.Text
