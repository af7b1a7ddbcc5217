import Mathlib.Data.List.TakeWhile
import Nftables.Text.Blank
import Nftables.Text.Digits

/-!
# Trimmed texts

A text without blanks at its ends is trimmed already, and of a blank text nothing is left.  No digit
is blank.
-/

namespace Nftables.Text

variable {c : Char} {cs : List Char}

theorem trimStart_eq_self (h : ∀ c ∈ cs.head?, isBlank c = false) : trimStart cs = cs := by
  cases cs with
  | nil => rfl
  | cons c cs => simp [trimStart, h c rfl]

theorem trim_eq_self (hhead : ∀ c ∈ cs.head?, isBlank c = false)
    (hlast : ∀ c ∈ cs.getLast?, isBlank c = false) : trim cs = cs := by
  have hend : trimStart cs.reverse = cs.reverse :=
    trimStart_eq_self (by rwa [List.head?_reverse])
  rw [trim, trimStart_eq_self hhead]
  exact (congrArg List.reverse hend).trans (List.reverse_reverse cs)

/-- A text without blanks is trimmed. -/
theorem trim_of_forall (h : ∀ c ∈ cs, isBlank c = false) : trim cs = cs :=
  trim_eq_self (fun c hc ↦ h c (List.mem_of_mem_head? hc))
    (fun c hc ↦ h c (List.mem_of_getLast? hc))

theorem trimStart_eq_nil_iff : trimStart cs = [] ↔ ∀ c ∈ cs, isBlank c = true :=
  List.dropWhile_eq_nil_iff

/-- Nothing is left of a text if and only if it is blank. -/
theorem trim_eq_nil_iff : trim cs = [] ↔ ∀ c ∈ cs, isBlank c = true := by
  have hend : trim cs = [] ↔ trimStart (trimStart cs).reverse = [] := List.reverse_eq_nil_iff
  rw [hend, trimStart_eq_nil_iff]
  constructor
  · intro h
    rw [← trimStart_eq_nil_iff]
    refine Classical.byContradiction fun hne ↦ ?_
    -- what is left begins with a character that is no blank
    have hhead := List.head_dropWhile_not isBlank hne
    exact Bool.false_ne_true (hhead.symm.trans
      (h _ (List.mem_reverse.mpr (List.head_mem hne))))
  · intro h c hc
    exact h c ((List.dropWhile_suffix isBlank).subset (List.mem_reverse.mp hc))

theorem isBlank_of_digitValue? (h : digitValue? c ≠ none) : isBlank c = false := by
  have hbounds : 48 ≤ c.toNat ∧ c.toNat ≤ 102 := by
    unfold digitValue? at h
    simp only [Bool.and_eq_true, decide_eq_true_eq, Char.le_def, UInt32.le_iff_toNat_le] at h
    split at h
    case isTrue hc => exact ⟨hc.1, Nat.le_trans hc.2 (by decide)⟩
    case isFalse =>
      split at h
      case isTrue hc => exact ⟨Nat.le_trans (by decide) hc.1, hc.2⟩
      case isFalse =>
        split at h
        case isTrue hc => exact ⟨Nat.le_trans (by decide) hc.1, Nat.le_trans hc.2 (by decide)⟩
        case isFalse => exact absurd rfl h
  simp only [isBlank, Bool.or_eq_false_iff, Bool.and_eq_false_iff, decide_eq_false_iff_not,
    beq_eq_false_iff_ne]
  omega

end Nftables.Text
