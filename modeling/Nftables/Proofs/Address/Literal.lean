import Nftables.Proofs.Address.Shortest
import Nftables.Proofs.Text.Blank

/-!
# Address literals

The texts that are read as literals, said without the reader: an address of either version, possibly
in a zone, and after a slash the number of bits that the addresses of a block share.
-/

namespace Nftables

open Text (number? split)

/-! ## Bits -/

namespace Address

variable {w n m i : Nat} {a : Address}

/-- A bit of an address, counted from the most significant one. -/
def bit (a : Address) (i : Nat) : Bool :=
  a.bits.getMsbD i

/-- Ones in the first `n` places, and zeros in the others. -/
def leadingOnes (w n : Nat) : BitVec w :=
  ~~~(BitVec.allOnes w >>> n)

theorem getMsbD_leadingOnes : (leadingOnes w n).getMsbD i = (decide (i < w) && decide (i < n)) := by
  by_cases hw : i < w <;> by_cases hn : i < n <;>
    simp [leadingOnes, hw, hn]
  omega

theorem bit_truncate : (a.truncate n).bit i = (decide (i < n) && a.bit i) := by
  change (a.bits &&& leadingOnes a.version.width n).getMsbD i = _
  rw [BitVec.getMsbD_and, getMsbD_leadingOnes, bit]
  by_cases hi : i < a.version.width
  · simp [hi, Bool.and_comm]
  · simp [hi, BitVec.getMsbD_of_ge _ _ (Nat.le_of_not_lt hi)]

theorem truncate_truncate (a : Address) (n : Nat) : (a.truncate n).truncate n = a.truncate n := by
  have hbits : a.bits &&& leadingOnes a.version.width n &&& leadingOnes a.version.width n =
      a.bits &&& leadingOnes a.version.width n := by
    rw [BitVec.and_assoc, BitVec.and_self]
  exact congrArg (Address.mk a.version) hbits

theorem leadingOnes_inj (hn : n ≤ w) (hm : m ≤ w) (h : leadingOnes w n = leadingOnes w m) :
    n = m := by
  have hbit (i : Nat) (hi : i < w) : i < n ↔ i < m := by
    simpa [getMsbD_leadingOnes, hi] using congrArg (BitVec.getMsbD · i) h
  rcases Nat.lt_trichotomy n m with hlt | heq | hgt
  · exact absurd ((hbit n (by omega)).mpr hlt) (Nat.lt_irrefl n)
  · exact heq
  · exact absurd ((hbit m (by omega)).mp hgt) (Nat.lt_irrefl m)

/-- Zeros in front of ones are no ones in front of zeros, unless there are only zeros or ones. -/
theorem not_leadingOnes_ne (hn : 0 < n) (hw : n < w) : ~~~leadingOnes w n ≠ leadingOnes w m := by
  intro h
  have hbit (i : Nat) (hi : i < w) : ¬ i < n ↔ i < m := by
    simpa [getMsbD_leadingOnes, hi] using Bool.eq_iff_iff.mp (congrArg (BitVec.getMsbD · i) h)
  have hlast := (hbit (w - 1) (by omega)).mp (by omega)
  exact absurd hn ((hbit 0 (by omega)).mpr (by omega))

theorem not_leadingOnes_zero : ~~~leadingOnes w 0 = leadingOnes w w := by
  refine BitVec.eq_of_getMsbD_eq fun i hi ↦ ?_
  simp [getMsbD_leadingOnes, hi]

theorem not_leadingOnes_width : ~~~leadingOnes w w = leadingOnes w 0 := by
  rw [← not_leadingOnes_zero, BitVec.not_not]

end Address

/-! ## Texts of addresses -/

open Address (Version6Text dotted groups leadingOnes)

/-- The texts of an address: without a zone, or of version 6 and in a zone after a percent sign. -/
inductive AddressText : List Char → Address → Option (List Char) → Prop where
  | v4 (bits : BitVec 32) : AddressText (dotted bits) ⟨.v4, bits⟩ none
  | v6 {cs : List Char} {bits : BitVec 128} : Version6Text cs (groups bits) →
      AddressText cs ⟨.v6, bits⟩ none
  | zoned {cs zone : List Char} {bits : BitVec 128} : Version6Text cs (groups bits) → zone ≠ [] →
      '%' ∉ zone → '/' ∉ zone → AddressText (cs ++ '%' :: zone) ⟨.v6, bits⟩ (some zone)

/-- The texts of the number of bits that the addresses of a block share: the number, in not too many
digits, or for version 4 the mask of these bits or, if there are both, of the other ones. -/
inductive LengthText : IpVersion → List Char → Nat → Prop where
  | number {v : IpVersion} {cs : List Char} {n : Nat} : number? 10 cs = some n →
      cs.length ≤ Text.maxDigits → n ≤ v.width → LengthText v cs n
  | netmask {n : Nat} : n ≤ 32 → LengthText .v4 (dotted (leadingOnes 32 n)) n
  | hostmask {n : Nat} : 0 < n → n < 32 → LengthText .v4 (dotted (~~~leadingOnes 32 n)) n

/-- The texts of a literal. -/
inductive LiteralText : List Char → AddressLiteral → Prop where
  | address {cs : List Char} {address : Address} {zone : Option (List Char)} :
      AddressText cs address zone → LiteralText cs { address, zone, length := none }
  | block {cs ms : List Char} {address : Address} {zone : Option (List Char)} {n : Nat} :
      AddressText cs address zone → LengthText address.version ms n →
      LiteralText (cs ++ '/' :: ms) { address, zone, length := some n }

theorem AddressText.slash_notMem {cs : List Char} {a : Address} {zone : Option (List Char)}
    (h : AddressText cs a zone) : '/' ∉ cs := by
  cases h with
  | v4 bits => exact Address.notMem_dotted (by decide) rfl
  | v6 htext => exact htext.notMem (by decide) (by decide) rfl
  | zoned htext _ _ hzone =>
    have hslash := htext.notMem (c := '/') (by decide) (by decide) rfl
    simp [hslash, hzone]

theorem LengthText.slash_notMem {v : IpVersion} {cs : List Char} {n : Nat} (h : LengthText v cs n) :
    '/' ∉ cs := by
  cases h with
  | number hnumber => exact Text.notMem_of_number? hnumber rfl
  | netmask | hostmask => exact Address.notMem_dotted (by decide) rfl

/-! ## Reading literals -/

namespace AddressLiteral

open Address (dotted? dotted?_eq_some_iff dotted?_dotted)

variable {cs ms : List Char} {mask : BitVec 32} {n : Nat} {v : IpVersion} {a : Address}
  {zone : Option (List Char)} {l : AddressLiteral}

theorem ones?_eq_some_iff : ones? mask = some n ↔ n ≤ 32 ∧ mask = leadingOnes 32 n := by
  simp only [ones?, List.find?_range_eq_some, beq_iff_eq, List.mem_range, Nat.lt_succ_iff]
  constructor
  · rintro ⟨h, hn, -⟩
    exact ⟨hn, h⟩
  · rintro ⟨hn, rfl⟩
    refine ⟨rfl, hn, fun m hm ↦ ?_⟩
    have hne : leadingOnes 32 n ≠ leadingOnes 32 m := fun h ↦
      absurd (Address.leadingOnes_inj hn (by omega) h) (Nat.ne_of_gt hm)
    rw [Bool.not_eq_true', beq_eq_false_iff_ne]
    exact hne

/-- A mask gives the number of its leading ones, or if there are zeros in front of ones of these
zeros. -/
theorem ones?_or_eq_some_iff : (ones? mask).or (ones? (~~~mask)) = some n ↔
    n ≤ 32 ∧ mask = leadingOnes 32 n ∨ 0 < n ∧ n < 32 ∧ mask = ~~~leadingOnes 32 n := by
  have hnone {m : Nat} (h : ones? mask = none) (hm : m ≤ 32) : mask ≠ leadingOnes 32 m := by
    intro he
    rw [ones?_eq_some_iff.mpr ⟨hm, he⟩] at h
    cases h
  -- the masks that are both are those without ones and without zeros, and the first reading wins
  rw [Option.or_eq_some_iff, ones?_eq_some_iff, ones?_eq_some_iff]
  refine or_congr_right ⟨?_, ?_⟩
  · rintro ⟨h, hn, hmask⟩
    have hmask' : mask = ~~~leadingOnes 32 n := by rw [← hmask, BitVec.not_not]
    refine ⟨Nat.pos_of_ne_zero ?_, Nat.lt_of_le_of_ne hn ?_, hmask'⟩
    · rintro rfl
      exact hnone h (Nat.le_refl 32) (hmask'.trans Address.not_leadingOnes_zero)
    · rintro rfl
      exact hnone h (Nat.zero_le 32) (hmask'.trans Address.not_leadingOnes_width)
  · rintro ⟨hpos, hlt, rfl⟩
    refine ⟨Option.eq_none_iff_forall_ne_some.mpr fun m h ↦ ?_, Nat.le_of_lt hlt,
      BitVec.not_not⟩
    exact Address.not_leadingOnes_ne hpos hlt (ones?_eq_some_iff.mp h).2

theorem blockLength?_eq_some_iff : blockLength? v ms = some n ↔ LengthText v ms n := by
  constructor
  · intro h
    unfold blockLength? at h
    split at h
    case h_1 m hm =>
      obtain rfl := Option.some.inj h
      simp only [Option.filter_eq_some_iff, Bool.and_eq_true, decide_eq_true_eq] at hm
      exact .number hm.1 hm.2.1 hm.2.2
    case h_2 =>
      simp only [Option.bind_eq_bind, Option.bind_eq_some_iff, dotted?_eq_some_iff,
        Option.orElse_eq_orElse, Option.orElse_eq_or, ones?_or_eq_some_iff] at h
      obtain ⟨mask, rfl, ⟨hn, rfl⟩ | ⟨hpos, hlt, rfl⟩⟩ := h
      · exact .netmask hn
      · exact .hostmask hpos hlt
    case h_3 => cases h
  · intro h
    have hmask {mask : BitVec 32} (h : (ones? mask).or (ones? (~~~mask)) = some n) :
        blockLength? .v4 (dotted mask) = some n := by
      have hnumber : number? 10 (dotted mask) = none :=
        Option.eq_none_iff_forall_ne_some.mpr fun m hm ↦
          Text.notMem_of_number? hm rfl (Address.point_mem_dotted mask)
      simpa [blockLength?, hnumber, dotted?_dotted] using h
    cases h with
    | number hnumber hdigits hn =>
      have hfilter : (number? 10 ms).filter (fun n ↦ ms.length ≤ Text.maxDigits && n ≤ v.width) =
          some n :=
        Option.filter_eq_some_iff.mpr ⟨hnumber, by simp [hdigits, hn]⟩
      simp only [blockLength?, hfilter]
    | netmask hn => exact hmask (ones?_or_eq_some_iff.mpr (.inl ⟨hn, rfl⟩))
    | hostmask hpos hlt => exact hmask (ones?_or_eq_some_iff.mpr (.inr ⟨hpos, hlt, rfl⟩))

theorem addressOf?_eq_some_iff (hslash : '/' ∉ cs) :
    addressOf? cs = some (a, zone) ↔ AddressText cs a zone := by
  constructor
  · intro h
    unfold addressOf? at h
    split at h
    case h_1 bits hbits =>
      cases h
      obtain rfl := dotted?_eq_some_iff.mp hbits
      exact .v4 bits
    case h_2 =>
    split at h
    case h_1 ds hsplit =>
      simp only [Option.bind_eq_bind, Option.bind_eq_some_iff, Address.groups?_eq_some_iff,
        Option.some.injEq, Prod.mk.injEq] at h
      obtain ⟨ns, hns, rfl, rfl⟩ := h
      obtain rfl : cs = ds := (Text.split_eq_iff.mp hsplit).2.2
      rw [← hns.groups_ofGroups] at hns
      exact .v6 hns
    case h_2 ds z hsplit =>
      obtain ⟨-, hpercent, rfl⟩ := Text.split_eq_iff.mp hsplit
      split at h
      case isTrue => cases h
      case isFalse hzone =>
      simp only [Option.bind_eq_bind, Option.bind_eq_some_iff, Address.groups?_eq_some_iff,
        Option.some.injEq, Prod.mk.injEq] at h
      obtain ⟨ns, hns, rfl, rfl⟩ := h
      rw [← hns.groups_ofGroups] at hns
      rw [Text.join_pair] at hslash ⊢
      exact .zoned hns (by simpa using hzone) (hpercent z (by simp)) fun hz ↦ hslash (by simp [hz])
    case h_3 => cases h
  · intro h
    have hnone {cs : List Char} (hcolon : ':' ∈ cs) : dotted? cs = none := by
      refine Option.eq_none_iff_forall_ne_some.mpr fun bits h ↦ ?_
      obtain rfl := dotted?_eq_some_iff.mp h
      exact Address.notMem_dotted (by decide) rfl hcolon
    have hpercent {cs : List Char} {ns : List Nat} (h : Version6Text cs ns) : '%' ∉ cs :=
      h.notMem (by decide) (by decide) rfl
    cases h with
    | v4 bits => simp [addressOf?, dotted?_dotted]
    | v6 htext =>
      simp [addressOf?, hnone htext.colon_mem, Text.split_of_notMem (hpercent htext),
        Address.groups?_of_version6Text htext, Address.ofGroups_groups]
    | @zoned _ zone _ htext hzone hzoned =>
      have hcolon := List.mem_append_left ('%' :: zone) htext.colon_mem
      simp [addressOf?, hnone hcolon, Text.split_append_cons (hpercent htext),
        Text.split_of_notMem hzoned, hzone, Address.groups?_of_version6Text htext,
        Address.ofGroups_groups]

theorem parse?_eq_some_iff : parse? cs = some l ↔ LiteralText cs l := by
  constructor
  · intro h
    unfold parse? at h
    split at h
    case h_1 ds hsplit =>
      obtain ⟨-, hslash, rfl⟩ := Text.split_eq_iff.mp hsplit
      simp only [Option.bind_eq_bind, Option.bind_eq_some_iff, Option.some.injEq] at h
      obtain ⟨⟨a, zone⟩, ha, rfl⟩ := h
      exact .address ((addressOf?_eq_some_iff (by simpa using hslash)).mp ha)
    case h_2 ds ms hsplit =>
      obtain ⟨-, hslash, rfl⟩ := Text.split_eq_iff.mp hsplit
      simp only [Option.bind_eq_bind, Option.bind_eq_some_iff, Option.some.injEq] at h
      obtain ⟨⟨a, zone⟩, ha, n, hn, rfl⟩ := h
      rw [Text.join_pair]
      exact .block ((addressOf?_eq_some_iff (hslash ds (by simp))).mp ha)
        (blockLength?_eq_some_iff.mp hn)
    case h_3 => cases h
  · intro h
    cases h with
    | address htext =>
      have hslash := htext.slash_notMem
      simp [parse?, Text.split_of_notMem hslash, (addressOf?_eq_some_iff hslash).mpr htext]
    | block htext hlength =>
      have hslash := htext.slash_notMem
      simp [parse?, Text.split_append_cons hslash, Text.split_of_notMem hlength.slash_notMem,
        (addressOf?_eq_some_iff hslash).mpr htext, blockLength?_eq_some_iff.mpr hlength]

end AddressLiteral

/-- A text has one meaning as a literal at most. -/
theorem LiteralText.unique {cs : List Char} {l l' : AddressLiteral} (h : LiteralText cs l)
    (h' : LiteralText cs l') : l = l' :=
  Option.some.inj ((AddressLiteral.parse?_eq_some_iff.mpr h).symm.trans
    (AddressLiteral.parse?_eq_some_iff.mpr h'))

/-! ## Writing literals -/

namespace AddressText

variable {cs z : List Char} {a : Address} {zone : Option (List Char)} {c : Char}

/-- An address is written as one of its texts. -/
theorem write (a : Address) : AddressText a.write a none := by
  obtain ⟨version, bits⟩ := a
  cases version with
  | v4 => exact .v4 bits
  | v6 =>
    exact .v6 (.plain (Address.groupsText_writeGroups (Address.length_groups bits)
      fun _ ↦ Address.lt_of_mem_groups))

/-- The zone of an address can follow the text that is written for it. -/
theorem write_zone (h : AddressText cs a (some z)) :
    AddressText (a.write ++ '%' :: z) a (some z) := by
  cases h with
  | zoned _ hne hpercent hslash =>
    exact .zoned (.plain (Address.groupsText_writeGroups (Address.length_groups _)
      fun _ ↦ Address.lt_of_mem_groups)) hne hpercent hslash

theorem ne_nil (h : AddressText cs a zone) : cs ≠ [] := by
  cases h with
  | v4 bits => exact List.ne_nil_of_mem (Address.point_mem_dotted bits)
  | v6 htext => exact List.ne_nil_of_mem htext.colon_mem
  | zoned => simp

/-- Without a zone there are no blanks in the text of an address. -/
theorem isBlank_eq_false (h : AddressText cs a none) (hc : c ∈ cs) : Text.isBlank c = false := by
  cases h with
  | v4 bits =>
    rcases Address.mem_dotted hc with rfl | hdigit
    · rfl
    · exact Text.isBlank_of_digitValue? hdigit
  | v6 htext =>
    rcases htext.mem hc with rfl | rfl | hdigit
    · rfl
    · rfl
    · exact Text.isBlank_of_digitValue? hdigit

end AddressText

theorem LengthText.decimal {v : IpVersion} {n : Nat} (hn : n ≤ v.width) :
    LengthText v (Text.decimal n) n := by
  have hwidth : v.width < Nat.pow 10 (2 + 1) := by cases v <;> decide
  have hdigits := Text.length_decimal_le (Nat.lt_of_le_of_lt hn hwidth)
  exact .number (Text.number?_decimal n) (Nat.le_trans hdigits (by decide)) hn

theorem LengthText.le_width {v : IpVersion} {cs : List Char} {n : Nat} (h : LengthText v cs n) :
    n ≤ v.width := by
  cases h with
  | number _ _ hn => exact hn
  | netmask hn => exact hn
  | hostmask _ hn => exact Nat.le_of_lt hn

namespace LiteralText

variable {cs : List Char} {l : AddressLiteral} {n : Nat}

theorem addressText (h : LiteralText cs l) : ∃ ds, AddressText ds l.address l.zone := by
  cases h with
  | address htext | block htext => exact ⟨_, htext⟩

theorem le_width (h : LiteralText cs l) (hn : l.length = some n) : n ≤ l.address.version.width := by
  cases h with
  | address => cases hn
  | block _ hlength =>
    cases hn
    exact hlength.le_width

end LiteralText

namespace AddressLiteral

/-- The literal of a block, for its first address.  The zone is kept if the address is. -/
def canonical (l : AddressLiteral) (n : Nat) : AddressLiteral where
  address := l.address.truncate n
  zone := if l.address.truncate n = l.address then l.zone else none
  length := some n

variable {cs : List Char} {l : AddressLiteral} {n : Nat}

/-- What is written for a block is a text of its first address. -/
theorem addressText_writeFirst (h : AddressText cs l.address l.zone) (n : Nat) :
    AddressText (l.writeFirst n) (l.canonical n).address (l.canonical n).zone := by
  obtain ⟨a, zone, length⟩ := l
  dsimp only [writeFirst, canonical] at h ⊢
  by_cases hfirst : a.truncate n = a
  · rw [if_pos hfirst, hfirst]
    cases zone with
    | none => exact .write a
    | some z =>
      dsimp only
      rw [if_pos rfl]
      exact h.write_zone
  · rw [if_neg hfirst]
    cases zone with
    | none => exact .write _
    | some z =>
      dsimp only
      rw [if_neg hfirst]
      exact .write _

/-- The first address of a block is written for itself. -/
theorem writeFirst_canonical (l : AddressLiteral) (n : Nat) :
    (l.canonical n).writeFirst n = l.writeFirst n := by
  obtain ⟨a, zone, length⟩ := l
  dsimp only [writeFirst, canonical]
  rw [Address.truncate_truncate]
  by_cases hfirst : a.truncate n = a
  · rw [if_pos hfirst]
    cases zone with
    | none => rfl
    | some z => simp only [hfirst]
  · rw [if_neg hfirst]
    cases zone with
    | none => rfl
    | some z => simp only [hfirst, if_false]

end AddressLiteral
end Nftables
