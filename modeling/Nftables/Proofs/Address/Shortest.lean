import Nftables.Proofs.Address.Version6

/-!
# The shortest texts

The shortest text of eight groups is one of their texts, and eight groups are as good as the bits
that they stand for.
-/

namespace Nftables.Address

open Text (hexadecimal join)

variable {cs : List Char} {ns gs : List Nat} {n : Nat}

/-! ## Writing groups -/

theorem isGroup_hexadecimal (h : n < 0x10000) : IsGroup (hexadecimal n) n :=
  ⟨Text.length_hexadecimal_le (k := 3) h, Text.number?_hexadecimal n⟩

theorem isGroup_map_hexadecimal (h : ∀ g ∈ gs, g < 0x10000) :
    List.Forall₂ IsGroup (gs.map hexadecimal) gs := by
  rw [List.forall₂_map_left_iff, List.forall₂_same]
  exact fun g hg ↦ isGroup_hexadecimal (h g hg)

/-- The zeros in front of a list, and what comes after them. -/
theorem replicate_zeros_append_drop (gs : List Nat) :
    List.replicate (zeros gs) 0 ++ gs.drop (zeros gs) = gs := by
  induction gs with
  | nil => rfl
  | cons g gs ih =>
    by_cases h : g = 0
    · simpa [zeros, h, List.replicate_succ] using ih
    · simp [zeros, h]

/-- The run that is found is there. -/
theorem longestZeros_spec (gs : List Nat) :
    (longestZeros gs).2 = 0 ∨ (longestZeros gs).2 = zeros (gs.drop (longestZeros gs).1) := by
  -- on the way, nothing has been found or a run that is there
  have hfold (is : List Nat) (best : Nat × Nat) (h : best.2 = 0 ∨ best.2 = zeros (gs.drop best.1)) :
      let found := is.foldl (fun best i ↦
        if best.2 < zeros (gs.drop i) then (i, zeros (gs.drop i)) else best) best
      found.2 = 0 ∨ found.2 = zeros (gs.drop found.1) := by
    induction is generalizing best with
    | nil => exact h
    | cons i is ih =>
      refine ih _ ?_
      dsimp only
      split
      · exact .inr rfl
      · exact h
  exact hfold _ (0, 0) (.inl rfl)

theorem groupsText_writeGroups (hlength : gs.length = 8) (h : ∀ g ∈ gs, g < 0x10000) :
    GroupsText (writeGroups gs) gs := by
  have hspec := longestZeros_spec gs
  unfold writeGroups
  generalize longestZeros gs = run at hspec
  obtain ⟨start, count⟩ := run
  dsimp only at hspec ⊢
  split
  case isFalse => exact .full (isGroup_map_hexadecimal h) hlength
  case isTrue hlong =>
    obtain rfl := hspec.resolve_left (Nat.ne_of_gt (Nat.lt_trans Nat.zero_lt_one hlong))
    have hrun : gs.take start ++ List.replicate (zeros (gs.drop start)) 0 ++
        gs.drop (start + zeros (gs.drop start)) = gs := by
      rw [← List.drop_drop, List.append_assoc, replicate_zeros_append_drop, List.take_append_drop]
    have hsum := congrArg List.length hrun
    rw [List.length_append, List.length_append, List.length_replicate, hlength] at hsum
    have htext := GroupsText.gap
      (isGroup_map_hexadecimal fun g hg ↦ h g (List.mem_of_mem_take (i := start) hg))
      (isGroup_map_hexadecimal fun g hg ↦
        h g (List.mem_of_mem_drop (i := start + zeros (gs.drop start)) hg)) (by omega)
    rwa [show 8 - ((gs.take start).length + (gs.drop (start + zeros (gs.drop start))).length) =
      zeros (gs.drop start) by omega, hrun] at htext

/-! ## Groups and bits -/

theorem groups_eq (bits : BitVec 128) : groups bits =
    [bits.toNat / 0x10000000000000000000000000000 % 0x10000,
      bits.toNat / 0x1000000000000000000000000 % 0x10000,
      bits.toNat / 0x100000000000000000000 % 0x10000,
      bits.toNat / 0x10000000000000000 % 0x10000,
      bits.toNat / 0x1000000000000 % 0x10000,
      bits.toNat / 0x100000000 % 0x10000,
      bits.toNat / 0x10000 % 0x10000,
      bits.toNat / 0x1 % 0x10000] := rfl

theorem ofGroups_groups (bits : BitVec 128) : ofGroups (groups bits) = bits := by
  have hlt := bits.isLt
  refine BitVec.eq_of_toNat_eq ?_
  rw [ofGroups, groups_eq, BitVec.toNat_ofNat]
  simp only [List.foldl_cons, List.foldl_nil]
  omega

theorem groups_ofGroups (hlength : gs.length = 8) (h : ∀ g ∈ gs, g < 0x10000) :
    groups (ofGroups gs) = gs := by
  match gs, hlength with
  | [a, b, c, d, e, f, g, i], _ =>
    simp only [List.forall_mem_cons] at h
    rw [groups_eq, ofGroups, BitVec.toNat_ofNat]
    simp only [List.foldl_cons, List.foldl_nil, List.cons.injEq, and_true]
    omega

theorem length_groups (bits : BitVec 128) : (groups bits).length = 8 := rfl

theorem lt_of_mem_groups {bits : BitVec 128} (hn : n ∈ groups bits) : n < 0x10000 := by
  obtain ⟨i, -, rfl⟩ := List.mem_map.mp hn
  exact Nat.mod_lt _ (by decide)

theorem IsGroup.lt (h : IsGroup cs n) : n < 0x10000 :=
  Nat.lt_of_lt_of_le (Text.lt_pow_of_number? h.2) (Nat.pow_le_pow_right (by decide) h.1)

/-- What is spelled by a text are eight groups. -/
theorem GroupsText.groups_ofGroups (h : GroupsText cs ns) : groups (ofGroups ns) = ns := by
  have hlt {fs : List (List Char)} {ns : List Nat} (h : List.Forall₂ IsGroup fs ns) :
      ∀ n ∈ ns, n < 0x10000 := by
    induction h with
    | nil => exact nofun
    | cons hn _ ih => exact List.forall_mem_cons.mpr ⟨hn.lt, ih⟩
  cases h with
  | full hfs hlength => exact Address.groups_ofGroups hlength (hlt hfs)
  | gap hhigh hlow hlength =>
    refine Address.groups_ofGroups ?_ ?_
    · simp only [List.length_append, List.length_replicate]
      omega
    · rw [List.forall_mem_append, List.forall_mem_append]
      refine ⟨⟨hlt hhigh, fun n hn ↦ ?_⟩, hlt hlow⟩
      rw [List.eq_of_mem_replicate hn]
      decide

theorem Version6Text.groups_ofGroups (h : Version6Text cs ns) : groups (ofGroups ns) = ns := by
  cases h with
  | plain h => exact h.groups_ofGroups
  | tail h => exact h.groups_ofGroups

end Nftables.Address
