import Nftables.Binary64

/-!
# Signs of rounded numbers

An integer that is in the range of the format keeps its sign when it is rounded: a positive one is
not rounded down to zero.
-/

namespace Nftables.Binary64

/-- A fraction of at least one is not rounded to zero. -/
theorem roundDiv_pos {num den : Nat} (hd : 0 < den) (h : den ≤ num) : 0 < roundDiv num den := by
  have hq : 0 < num / den := Nat.div_pos h hd
  simp only [roundDiv]
  split
  · exact hq
  · split
    · exact Nat.succ_pos _
    · split
      · exact hq
      · exact Nat.succ_pos _

/-- Divided by a power of two up to its own size, an integer is at least one. -/
theorem scale_le {n : Nat} {e : Int} (hn : n ≠ 0) (he : e ≤ n.log2) :
    0 < (scale n 1 (-e)).2 ∧ (scale n 1 (-e)).2 ≤ (scale n 1 (-e)).1 := by
  simp only [scale]
  split
  case isTrue =>
    exact ⟨Nat.one_pos, Nat.mul_pos (Nat.pos_of_ne_zero hn) (Nat.two_pow_pos _)⟩
  case isFalse h =>
    rw [Int.neg_neg, Nat.one_mul]
    refine ⟨Nat.two_pow_pos _, ?_⟩
    calc 2 ^ e.toNat ≤ 2 ^ n.log2 := Nat.pow_le_pow_right Nat.two_pos (by omega)
      _ ≤ n := Nat.log2_self_le hn

/-- An integer other than zero is rounded to a number of its sign. -/
theorem ofRatio_of_ne_zero (negative : Bool) {n : Nat} (hn : n ≠ 0) :
    ofRatio negative n 1 = .infinite negative ∨
      ∃ m e, m ≠ 0 ∧ ofRatio negative n 1 = .finite negative m e := by
  unfold ofRatio
  rw [if_neg hn]
  extract_lets k
  rcases scale n 1 (-k) with ⟨a, b⟩
  dsimp only
  generalize he : max (if b ≤ a then k - 52 else k - 53) (-1074) = e
  have he : e ≤ n.log2 := by
    simp only [k, show Nat.log2 1 = 0 from rfl] at he
    split at he <;> omega
  obtain ⟨hpos, hle⟩ := scale_le hn he
  have hm := Nat.ne_of_gt (roundDiv_pos hpos hle)
  generalize roundDiv _ _ = m at hm ⊢
  -- a significand that has grown by rounding is halved
  by_cases hgrown : m = Nat.pow 2 53
  · rw [if_pos hgrown]
    dsimp only
    split
    · exact .inl rfl
    · exact .inr ⟨_, _, Nat.ne_of_gt (Nat.two_pow_pos 52), rfl⟩
  · rw [if_neg hgrown]
    dsimp only
    split
    · exact .inl rfl
    · exact .inr ⟨_, _, hm, rfl⟩

/-- The number nearest to an integer is above zero if the integer is. -/
theorem isNonPositive_of_ofInt? {n : Int} {x : Binary64} (h : ofInt? n = some x) :
    x.isNonPositive = true ↔ n ≤ 0 := by
  unfold ofInt? at h
  by_cases hn : n.natAbs = 0
  · obtain rfl : n = 0 := Int.natAbs_eq_zero.mp hn
    cases h
    decide
  · rcases ofRatio_of_ne_zero (decide (n < 0)) hn with hr | ⟨m, e, hm, hr⟩
    · simp [hr] at h
    · simp only [hr, Option.some.injEq] at h
      subst h
      simp only [isNonPositive, hm, decide_false, Bool.or_false, decide_eq_true_eq]
      omega

end Nftables.Binary64
