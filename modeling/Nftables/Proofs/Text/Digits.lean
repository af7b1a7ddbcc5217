import Mathlib.Data.List.Basic
import Mathlib.Data.List.Induction
import Nftables.Text.Digits

/-!
# Numerals read back

The digits of a number denote the number, in decimal and, within a width, in hexadecimal.
-/

namespace Nftables.Text

/-! ## Single digits -/

theorem digitValue?_digitChar {d : Nat} (h : d < 16) : digitValue? d.digitChar = some d := by
  have hall : ∀ d < 16, digitValue? d.digitChar = some d := by decide
  exact hall d h

theorem digitValue_digitChar {d : Nat} (h : d < 16) : digitValue d.digitChar = d := by
  rw [digitValue, digitValue?_digitChar h, Option.getD_some]

theorem isDigit_digitChar {d : Nat} (h : d < 10) : isDigit d.digitChar = true := by
  have hall : ∀ d < 10, isDigit d.digitChar = true := by decide
  exact hall d h

theorem digitChar_eq_zero_iff {d : Nat} (h : d < 10) : d.digitChar = '0' ↔ d = 0 := by
  have hall : ∀ d < 10, (d.digitChar = '0' ↔ d = 0) := by decide
  exact hall d h

/-! ## Decimal numerals -/

theorem exists_digitChar_of_mem_decimal {n : Nat} {c : Char} (hc : c ∈ decimal n) :
    ∃ d < 10, d.digitChar = c := by
  induction n using decimal.induct with
  | case1 n h =>
    rw [decimal, if_pos h, List.mem_singleton] at hc
    exact ⟨n, h, hc.symm⟩
  | case2 n h ih =>
    rw [decimal, if_neg h, List.mem_append, List.mem_singleton] at hc
    rcases hc with hc | rfl
    · exact ih hc
    · exact ⟨n % 10, Nat.mod_lt n (by decide), rfl⟩

theorem isDigit_of_mem_decimal {n : Nat} {c : Char} (hc : c ∈ decimal n) : isDigit c = true := by
  obtain ⟨d, hd, rfl⟩ := exists_digitChar_of_mem_decimal hc
  exact isDigit_digitChar hd

theorem ofDigits_append_singleton (base : Nat) (cs : List Char) (c : Char) :
    ofDigits base (cs ++ [c]) = base * ofDigits base cs + digitValue c := by
  simp [ofDigits, List.foldl_append]

theorem ofDigits_decimal (n : Nat) : ofDigits 10 (decimal n) = n := by
  induction n using decimal.induct with
  | case1 n h =>
    rw [decimal, if_pos h]
    simp [ofDigits, digitValue_digitChar (Nat.lt_trans h (by decide))]
  | case2 n h ih =>
    have hlast : n % 10 < 16 := Nat.lt_trans (Nat.mod_lt n (by decide)) (by decide)
    rw [decimal, if_neg h, ofDigits_append_singleton, ih, digitValue_digitChar hlast,
      Nat.div_add_mod]

/-- A numeral starts with a zero only if it is the zero. -/
theorem decimal_eq_cons (n : Nat) :
    n = 0 ∧ decimal n = ['0'] ∨ ∃ c cs, c ≠ '0' ∧ decimal n = c :: cs := by
  induction n using decimal.induct with
  | case1 n h =>
    rw [decimal, if_pos h]
    by_cases hn : n = 0
    · exact .inl ⟨hn, by rw [hn]; rfl⟩
    · exact .inr ⟨_, [], mt (digitChar_eq_zero_iff h).mp hn, rfl⟩
  | case2 n h ih =>
    rw [decimal, if_neg h]
    rcases ih with ⟨hn, -⟩ | ⟨c, cs, hc, heq⟩
    · omega
    · exact .inr ⟨c, cs ++ [_], hc, by rw [heq]; rfl⟩

/-! ## Texts of digits -/

theorem number?_eq_some_iff {base n : Nat} {cs : List Char} :
    number? base cs = some n ↔
      cs ≠ [] ∧ (∀ c ∈ cs, ∃ d, digitValue? c = some d ∧ d < base) ∧ ofDigits base cs = n := by
  unfold number?
  split
  case isTrue h =>
    simp only [Bool.and_eq_true, Bool.not_eq_true', List.isEmpty_eq_false_iff, List.all_eq_true,
      Option.any_eq_true, decide_eq_true_eq] at h
    rw [Option.some.injEq]
    exact ⟨fun hn ↦ ⟨h.1, h.2, hn⟩, fun hn ↦ hn.2.2⟩
  case isFalse h =>
    simp only [Bool.and_eq_true, Bool.not_eq_true', List.isEmpty_eq_false_iff, List.all_eq_true,
      Option.any_eq_true, decide_eq_true_eq] at h
    simp only [reduceCtorEq, false_iff]
    exact fun hn ↦ h ⟨hn.1, hn.2.1⟩

/-- Nothing but digits stands in a number. -/
theorem notMem_of_number? {base n : Nat} {cs : List Char} {c : Char}
    (h : number? base cs = some n) (hc : digitValue? c = none) : c ∉ cs := by
  intro hmem
  obtain ⟨d, hd, -⟩ := (number?_eq_some_iff.mp h).2.1 c hmem
  rw [hc] at hd
  cases hd

/-- A number is below the power of its base that its digits are as many as. -/
theorem lt_pow_of_number? {base n : Nat} {cs : List Char} (h : number? base cs = some n) :
    n < Nat.pow base cs.length := by
  obtain ⟨-, hdigits, rfl⟩ := number?_eq_some_iff.mp h
  clear h
  induction cs using List.reverseRecOn with
  | nil => exact Nat.zero_lt_one
  | append_singleton ds c ih =>
    rw [List.forall_mem_append] at hdigits
    obtain ⟨d, hd, hlt⟩ := hdigits.2 c (List.mem_singleton_self c)
    rw [ofDigits_append_singleton, digitValue, hd, Option.getD_some, List.length_append,
      List.length_singleton]
    calc base * ofDigits base ds + d
        < base * ofDigits base ds + base := Nat.add_lt_add_left hlt _
      _ = base * (ofDigits base ds + 1) := (Nat.mul_succ _ _).symm
      _ ≤ base * Nat.pow base ds.length := Nat.mul_le_mul_left _ (ih hdigits.1)
      _ = Nat.pow base (ds.length + 1) := Nat.mul_comm _ _

theorem mem_decimal {n : Nat} {c : Char} (hc : c ∈ decimal n) :
    ∃ d, digitValue? c = some d ∧ d < 10 := by
  obtain ⟨d, hd, rfl⟩ := exists_digitChar_of_mem_decimal hc
  exact ⟨d, digitValue?_digitChar (Nat.lt_trans hd (by decide)), hd⟩

theorem decimal_ne_nil (n : Nat) : decimal n ≠ [] := by
  rw [decimal]
  split <;> simp

theorem number?_decimal (n : Nat) : number? 10 (decimal n) = some n :=
  number?_eq_some_iff.mpr ⟨decimal_ne_nil n, fun _ ↦ mem_decimal, ofDigits_decimal n⟩

/-- A decimal digit is the one that stands for its value. -/
theorem digitChar_of_digitValue? {c : Char} {d : Nat} (h : digitValue? c = some d) (hd : d < 10) :
    d.digitChar = c := by
  have hdecimal : ∀ n < 58, 48 ≤ n → (n - 48).digitChar = Char.ofNat n := by decide
  unfold digitValue? at h
  simp only [Bool.and_eq_true, decide_eq_true_eq, Char.le_def, UInt32.le_iff_toNat_le] at h
  split at h
  case isTrue hc =>
    obtain rfl := Option.some.inj h
    rw [hdecimal c.toNat (Nat.lt_succ_of_le hc.2) hc.1, Char.ofNat_toNat]
  case isFalse =>
    split at h
    case isTrue hc =>
      have : 97 ≤ c.toNat := hc.1
      obtain rfl := Option.some.inj h
      omega
    case isFalse =>
      split at h
      case isTrue hc =>
        have : 65 ≤ c.toNat := hc.1
        obtain rfl := Option.some.inj h
        omega
      case isFalse => cases h

/-- A text of decimal digits without a leading zero is the numeral of a number that is not zero. -/
theorem decimal_ofDigits {cs : List Char} (hcs : cs ≠ []) (hhead : cs.head? ≠ some '0')
    (h : ∀ c ∈ cs, ∃ d, digitValue? c = some d ∧ d < 10) :
    0 < ofDigits 10 cs ∧ decimal (ofDigits 10 cs) = cs := by
  induction cs using List.reverseRecOn with
  | nil => exact absurd rfl hcs
  | append_singleton ds c ih =>
    rw [List.forall_mem_append] at h
    obtain ⟨d, hd, hlt⟩ := h.2 c (List.mem_singleton_self c)
    have hc := digitChar_of_digitValue? hd hlt
    rw [ofDigits_append_singleton, digitValue, hd, Option.getD_some]
    by_cases hds : ds = []
    · subst hds
      have hzero : d ≠ 0 := by
        rintro rfl
        exact hhead (congrArg some hc.symm)
      rw [ofDigits, List.foldl_nil, Nat.mul_zero, Nat.zero_add, decimal, if_pos hlt, hc]
      exact ⟨Nat.pos_of_ne_zero hzero, rfl⟩
    · rw [List.head?_append_of_ne_nil _ hds] at hhead
      obtain ⟨hpos, hnumeral⟩ := ih hds hhead h.1
      rw [decimal, if_neg (by omega), Nat.mul_add_div (by decide), Nat.div_eq_of_lt hlt,
        Nat.add_zero, Nat.mul_add_mod, Nat.mod_eq_of_lt hlt, hnumeral, hc]
      exact ⟨by omega, rfl⟩

/-- A number below a power of ten has as many digits as the exponent says, or fewer. -/
theorem length_decimal_le {n k : Nat} (h : n < Nat.pow 10 (k + 1)) :
    (decimal n).length ≤ k + 1 := by
  induction k generalizing n with
  | zero =>
    rw [decimal, if_pos (by simpa using h)]
    exact Nat.le_refl 1
  | succ k ih =>
    rw [decimal]
    split
    · exact Nat.le_add_left 1 _
    · have hdiv : n / 10 < Nat.pow 10 (k + 1) :=
        Nat.div_lt_of_lt_mul (Nat.lt_of_lt_of_eq h (Nat.mul_comm _ _))
      rw [List.length_append]
      exact Nat.add_le_add_right (ih hdiv) 1

theorem exists_digitValue? {c : Char} (hc : isDigit c = true) :
    ∃ d, digitValue? c = some d ∧ d < 10 := by
  have hnine : '9'.val.toNat = 57 := rfl
  refine ⟨c.toNat - 48, if_pos hc, ?_⟩
  simp only [isDigit, Bool.and_eq_true, decide_eq_true_eq, Char.le_def, UInt32.le_iff_toNat_le] at hc
  rw [Char.toNat]
  omega

/-- The numeral of the number that digits denote has at most as many digits. -/
theorem length_decimal_ofDigits_le {cs : List Char} (hcs : cs ≠ [])
    (h : ∀ c ∈ cs, isDigit c = true) : (decimal (ofDigits 10 cs)).length ≤ cs.length := by
  obtain ⟨k, hk⟩ : ∃ k, cs.length = k + 1 :=
    Nat.exists_eq_add_one_of_ne_zero (mt List.length_eq_zero_iff.mp hcs)
  have hlt := lt_pow_of_number?
    (number?_eq_some_iff.mpr ⟨hcs, fun c hc ↦ exists_digitValue? (h c hc), rfl⟩)
  rw [hk] at hlt ⊢
  exact length_decimal_le hlt

/-! ## Hexadecimal numerals -/

theorem mem_hexadecimal {n : Nat} {c : Char} (hc : c ∈ hexadecimal n) :
    ∃ d, digitValue? c = some d ∧ d < 16 := by
  induction n using hexadecimal.induct with
  | case1 n h =>
    rw [hexadecimal, if_pos h, List.mem_singleton] at hc
    exact ⟨n, hc ▸ digitValue?_digitChar h, h⟩
  | case2 n h ih =>
    rw [hexadecimal, if_neg h, List.mem_append, List.mem_singleton] at hc
    rcases hc with hc | rfl
    · exact ih hc
    · have hlast : n % 16 < 16 := Nat.mod_lt n (by decide)
      exact ⟨n % 16, digitValue?_digitChar hlast, hlast⟩

theorem ofDigits_hexadecimal (n : Nat) : ofDigits 16 (hexadecimal n) = n := by
  induction n using hexadecimal.induct with
  | case1 n h =>
    rw [hexadecimal, if_pos h]
    simp [ofDigits, digitValue_digitChar h]
  | case2 n h ih =>
    rw [hexadecimal, if_neg h, ofDigits_append_singleton, ih,
      digitValue_digitChar (Nat.mod_lt n (by decide)), Nat.div_add_mod]

theorem number?_hexadecimal (n : Nat) : number? 16 (hexadecimal n) = some n := by
  refine number?_eq_some_iff.mpr ⟨?_, fun c hc ↦ mem_hexadecimal hc, ofDigits_hexadecimal n⟩
  rw [hexadecimal]
  split <;> simp

theorem length_hexadecimal_le {n k : Nat} (h : n < Nat.pow 16 (k + 1)) :
    (hexadecimal n).length ≤ k + 1 := by
  induction k generalizing n with
  | zero =>
    rw [hexadecimal, if_pos (by simpa using h)]
    exact Nat.le_refl 1
  | succ k ih =>
    rw [hexadecimal]
    split
    · exact Nat.le_add_left 1 _
    · have hdiv : n / 16 < Nat.pow 16 (k + 1) :=
        Nat.div_lt_of_lt_mul (Nat.lt_of_lt_of_eq h (Nat.mul_comm _ _))
      rw [List.length_append]
      exact Nat.add_le_add_right (ih hdiv) 1

/-! ## Hexadecimal numerals of four digits -/

theorem hexDigits_four (n : Nat) :
    hexDigits 4 n = [(n / 16 / 16 / 16 % 16).digitChar, (n / 16 / 16 % 16).digitChar,
      (n / 16 % 16).digitChar, (n % 16).digitChar] :=
  rfl

end Nftables.Text
