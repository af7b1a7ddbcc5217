import Nftables.Address
import Nftables.Proofs.Text.Digits
import Nftables.Proofs.Text.Fields

/-!
# Addresses of version 4

An address of version 4 has one text: its four octets in decimal.
-/

namespace Nftables.Address

open Text (decimal join number? split ofDigits digitValue?)

variable {cs : List Char} {bits : BitVec 32} {n : Nat}

/-- An octet is a numeral, of a number up to 255. -/
theorem octet?_eq_some_iff : octet? cs = some n ↔ n ≤ 255 ∧ cs = decimal n := by
  have hzero : decimal 0 = ['0'] := by rw [decimal, if_pos (by decide)]; rfl
  unfold octet?
  constructor
  · intro h
    split at h
    case isFalse => cases h
    case isTrue hcs =>
    simp only [Option.filter_eq_some_iff, decide_eq_true_eq, Text.number?_eq_some_iff] at h
    obtain ⟨⟨hne, hdigits, rfl⟩, hle⟩ := h
    refine ⟨hle, ?_⟩
    rcases hcs.2 with rfl | hhead
    · exact hzero.symm
    · exact (Text.decimal_ofDigits hne hhead hdigits).2.symm
  · rintro ⟨hle, rfl⟩
    have hlength : (decimal n).length ≤ 3 :=
      Text.length_decimal_le (k := 2) (Nat.lt_of_le_of_lt hle (by decide))
    have hhead : decimal n = ['0'] ∨ (decimal n).head? ≠ some '0' := by
      rcases Text.decimal_eq_cons n with ⟨-, h⟩ | ⟨c, cs, hc, h⟩
      · exact .inl h
      · exact .inr (by simpa [h] using hc)
    rw [if_pos ⟨hlength, hhead⟩, Text.number?_decimal, Option.filter_some,
      if_pos (decide_eq_true hle)]

/-- The octets of an address, the most significant one first. -/
def octets (bits : BitVec 32) : List Nat :=
  let n := bits.toNat
  [n / 0x1000000, n / 0x10000 % 0x100, n / 0x100 % 0x100, n % 0x100]

theorem octets_ofNat {a b c d : Nat} (ha : a ≤ 255) (hb : b ≤ 255) (hc : c ≤ 255) (hd : d ≤ 255) :
    octets (BitVec.ofNat 32 (((a * 256 + b) * 256 + c) * 256 + d)) = [a, b, c, d] := by
  simp only [octets, BitVec.toNat_ofNat, List.cons.injEq, and_true]
  omega

theorem dotted_eq (bits : BitVec 32) : dotted bits = join ['.'] ((octets bits).map decimal) := rfl

theorem split_dotted (bits : BitVec 32) : split '.' (dotted bits) = (octets bits).map decimal := by
  refine Text.split_join (List.cons_ne_nil _ _) (List.forall_mem_map.mpr fun n _ ↦ ?_)
  exact Text.notMem_of_number? (Text.number?_decimal n) rfl

theorem dotted?_dotted (bits : BitVec 32) : dotted? (dotted bits) = some bits := by
  have hlt := bits.isLt
  have hoctet {n : Nat} (h : n ≤ 255) : octet? (decimal n) = some n :=
    octet?_eq_some_iff.mpr ⟨h, rfl⟩
  rw [dotted?, split_dotted, octets]
  simp only [List.map_cons, List.map_nil]
  rw [hoctet (by omega), hoctet (by omega), hoctet (by omega), hoctet (by omega)]
  refine congrArg some (BitVec.eq_of_toNat_eq ?_)
  rw [BitVec.toNat_ofNat]
  omega

/-- The text of an address of version 4 is the only one that is read as this address. -/
theorem dotted?_eq_some_iff : dotted? cs = some bits ↔ cs = dotted bits := by
  constructor
  · intro h
    unfold dotted? at h
    split at h
    case h_2 => cases h
    case h_1 a b c d hfields =>
    obtain rfl := Option.some.inj h
    simp only [List.map_eq_cons_iff, List.map_eq_nil_iff, octet?_eq_some_iff] at hfields
    obtain ⟨_, _, hsplit, ⟨ha, rfl⟩, _, _, rfl, ⟨hb, rfl⟩, _, _, rfl, ⟨hc, rfl⟩, _, _, rfl,
      ⟨hd, rfl⟩, rfl⟩ := hfields
    rw [(Text.split_eq_iff.mp hsplit).2.2, dotted_eq, octets_ofNat ha hb hc hd]
    rfl
  · rintro rfl
    exact dotted?_dotted bits

/-! ## The characters of the text -/

theorem mem_dotted {c : Char} (hc : c ∈ dotted bits) : c = '.' ∨ digitValue? c ≠ none := by
  rw [dotted_eq] at hc
  rcases Text.mem_join _ hc with hc | ⟨f, hf, hc⟩
  · exact .inl (List.mem_singleton.mp hc)
  · obtain ⟨n, -, rfl⟩ := List.mem_map.mp hf
    exact .inr fun hnone ↦ Text.notMem_of_number? (Text.number?_decimal n) hnone hc

theorem notMem_dotted {c : Char} (hpoint : c ≠ '.') (hdigit : digitValue? c = none) :
    c ∉ dotted bits :=
  fun hc ↦ (mem_dotted hc).elim hpoint fun hd ↦ hd hdigit

theorem point_mem_dotted (bits : BitVec 32) : '.' ∈ dotted bits := by
  by_contra h
  have hsplit := (Text.split_of_notMem h).symm.trans (split_dotted bits)
  simpa [octets] using congrArg List.length hsplit

end Nftables.Address
