import Mathlib.Data.List.Forall2
import Mathlib.Data.List.Nodup
import Nftables.Proofs.Address.Version4

/-!
# Addresses of version 6

An address of version 6 has many texts: groups of up to four hexadecimal digits of either case, two
colons for a run of zero groups, and an address of version 4 for the last two groups.
-/

namespace Nftables.Address

open Text (digitValue? hexadecimal join number? split)

variable {cs f : List Char} {fs : List (List Char)} {ns : List Nat} {bits : BitVec 32} {n i : Nat}

/-! ## Texts of groups -/

/-- One to four hexadecimal digits write a group. -/
def IsGroup (cs : List Char) (n : Nat) : Prop :=
  cs.length ≤ 4 ∧ number? 16 cs = some n

/-- The texts of eight groups: all of them between colons, or those before and those after a run of
zero groups, for which two colons stand. -/
inductive GroupsText : List Char → List Nat → Prop where
  | full {fs : List (List Char)} {ns : List Nat} : List.Forall₂ IsGroup fs ns → ns.length = 8 →
      GroupsText (join [':'] fs) ns
  | gap {hs ls : List (List Char)} {high low : List Nat} : List.Forall₂ IsGroup hs high →
      List.Forall₂ IsGroup ls low → high.length + low.length < 8 →
      GroupsText (join [':'] hs ++ ':' :: ':' :: join [':'] ls)
        (high ++ List.replicate (8 - (high.length + low.length)) 0 ++ low)

/-- The two groups that have the bits of an address of version 4. -/
def tailGroups (bits : BitVec 32) : List (List Char) :=
  [hexadecimal (bits.toNat / 0x10000), hexadecimal (bits.toNat % 0x10000)]

/-- The texts of eight groups, the last two possibly as an address of version 4. -/
inductive Version6Text : List Char → List Nat → Prop where
  | plain {cs : List Char} {ns : List Nat} : GroupsText cs ns → Version6Text cs ns
  | tail {cs : List Char} {bits : BitVec 32} {ns : List Nat} :
      GroupsText (cs ++ ':' :: join [':'] (tailGroups bits)) ns →
      Version6Text (cs ++ ':' :: dotted bits) ns

/-! ## Reading fields -/

theorem group?_eq_some_iff : group? cs = some n ↔ IsGroup cs n := by
  rw [group?, IsGroup]
  split
  case isTrue h => simp [h]
  case isFalse h => simp [h]

theorem mapM_group?_eq_some_iff : fs.mapM group? = some ns ↔ List.Forall₂ IsGroup fs ns := by
  induction fs generalizing ns with
  | nil => simp [eq_comm]
  | cons f fs ih =>
    simp only [List.mapM_cons, Option.bind_eq_bind, Option.bind_eq_some_iff, group?_eq_some_iff, ih,
      Option.pure_def, Option.some.injEq]
    constructor
    · rintro ⟨n, hn, ns, hns, rfl⟩
      exact .cons hn hns
    · rintro (_ | ⟨hn, hns⟩)
      exact ⟨_, hn, _, hns, rfl⟩

namespace IsGroup

theorem ne_nil (h : IsGroup cs n) : cs ≠ [] :=
  (Text.number?_eq_some_iff.mp h.2).1

theorem notMem {c : Char} (h : IsGroup cs n) (hc : digitValue? c = none) : c ∉ cs :=
  Text.notMem_of_number? h.2 hc

end IsGroup

theorem forall_mem_of_groups {P : List Char → Prop} (h : List.Forall₂ IsGroup fs ns)
    (hP : ∀ f n, IsGroup f n → P f) : ∀ f ∈ fs, P f := by
  induction h with
  | nil => exact nofun
  | cons hn _ ih => exact List.forall_mem_cons.mpr ⟨hP _ _ hn, ih⟩

/-! ## The gap -/

/-- The fields that stand on one side of a gap, with an empty one if there are none. -/
def sideFields (fs : List (List Char)) : List (List Char) :=
  if fs = [] then [[]] else fs

theorem sideFields_ne_nil (fs : List (List Char)) : sideFields fs ≠ [] := by
  unfold sideFields
  split
  · exact List.cons_ne_nil _ _
  · assumption

theorem mem_sideFields (hf : f ∈ sideFields fs) : f = [] ∨ f ∈ fs := by
  unfold sideFields at hf
  split at hf
  · exact .inl (List.mem_singleton.mp hf)
  · exact .inr hf

theorem join_sideFields (fs : List (List Char)) : join [':'] (sideFields fs) = join [':'] fs := by
  unfold sideFields
  split
  case isTrue h => rw [h]; rfl
  case isFalse => rfl

theorem join_besideGap (fs : List (List Char)) : join [':'] (besideGap fs) = join [':'] fs := by
  unfold besideGap
  split
  case isTrue h => rw [h]; rfl
  case isFalse => rfl

theorem besideGap_sideFields (h : ∀ f ∈ fs, f ≠ []) : besideGap (sideFields fs) = fs := by
  unfold sideFields
  split
  case isTrue hnil => rw [hnil]; rfl
  case isFalse =>
    refine if_neg ?_
    rintro rfl
    exact h [] (List.mem_singleton_self _) rfl

theorem join_gap (hfs : fs ≠ []) {ls : List (List Char)} (hls : ls ≠ []) :
    join [':'] (fs ++ [] :: ls) = join [':'] fs ++ ':' :: ':' :: join [':'] ls := by
  rw [Text.join_append _ hfs (List.cons_ne_nil _ _), Text.join_cons _ _ hls]
  simp

/-- Is the field at a place empty, and neither the first nor the last one? -/
def IsGap (fs : List (List Char)) (i : Nat) : Prop :=
  0 < i ∧ i + 1 < fs.length ∧ fs[i]? = some []

theorem mem_gaps : i ∈ gaps fs ↔ IsGap fs i := by
  simp only [gaps, IsGap, List.mem_filter, List.mem_range, Bool.and_eq_true, decide_eq_true_eq,
    beq_iff_eq, and_assoc]
  exact and_iff_right_of_imp fun h ↦ Nat.lt_of_succ_lt h.2.1

theorem nodup_gaps : (gaps fs).Nodup :=
  List.Nodup.filter _ List.nodup_range

theorem gap?_eq_some_none_iff : gap? fs = some none ↔ ∀ i, ¬ IsGap fs i := by
  simp only [← mem_gaps, ← List.eq_nil_iff_forall_not_mem]
  unfold gap?
  split <;> simp_all

theorem gap?_eq_some_some_iff : gap? fs = some (some i) ↔ ∀ j, IsGap fs j ↔ j = i := by
  have hgaps : (∀ j, IsGap fs j ↔ j = i) ↔ gaps fs = [i] := by
    rw [← List.perm_singleton, List.perm_ext_iff_of_nodup nodup_gaps (List.nodup_singleton i)]
    simp only [mem_gaps, List.mem_singleton]
  rw [hgaps]
  unfold gap?
  split <;> simp_all

/-- Of the fields on one side of a gap, the only one can be empty. -/
theorem eq_zero_of_sideFields (h : ∀ f ∈ fs, f ≠ []) (hi : (sideFields fs)[i]? = some []) :
    i = 0 ∧ (sideFields fs).length = 1 := by
  unfold sideFields at *
  split at hi
  case isTrue hnil =>
    cases i with
    | zero => exact ⟨rfl, by rw [if_pos hnil]; rfl⟩
    | succ i => cases hi
  case isFalse => exact absurd rfl (h [] (List.mem_of_getElem? hi))

theorem isGap_sideFields_iff {hs ls : List (List Char)} {j : Nat} (hhs : ∀ f ∈ hs, f ≠ [])
    (hls : ∀ f ∈ ls, f ≠ []) :
    IsGap (sideFields hs ++ [] :: sideFields ls) j ↔ j = (sideFields hs).length := by
  have hpos := List.length_pos_iff.mpr (sideFields_ne_nil hs)
  have hpos' := List.length_pos_iff.mpr (sideFields_ne_nil ls)
  rw [IsGap, List.length_append, List.length_cons]
  constructor
  · rintro ⟨hj, hlast, hempty⟩
    rcases Nat.lt_trichotomy j (sideFields hs).length with hlt | heq | hgt
    · rw [List.getElem?_append_left hlt] at hempty
      have := (eq_zero_of_sideFields hhs hempty).1
      omega
    · exact heq
    · obtain ⟨k, rfl⟩ := Nat.exists_eq_add_of_lt hgt
      rw [List.getElem?_append_right (by omega), Nat.add_assoc, Nat.add_sub_cancel_left,
        List.getElem?_cons_succ] at hempty
      obtain ⟨rfl, hone⟩ := eq_zero_of_sideFields hls hempty
      omega
  · rintro rfl
    exact ⟨hpos, by omega, by simp⟩

/-! ## Eight groups -/

theorem groupsText_of_fieldGroups? (h : fieldGroups? fs = some ns) :
    GroupsText (join [':'] fs) ns := by
  simp only [fieldGroups?, Option.bind_eq_bind, Option.bind_eq_some_iff] at h
  obtain ⟨gap, hgap, h⟩ := h
  cases gap with
  | none =>
    simp only [Option.bind_eq_some_iff, mapM_group?_eq_some_iff] at h
    obtain ⟨ms, hms, h⟩ := h
    split at h
    case isFalse => cases h
    case isTrue hlength =>
    obtain rfl := Option.some.inj h
    exact .full hms hlength
  | some i =>
    simp only [Option.bind_eq_some_iff, mapM_group?_eq_some_iff] at h
    obtain ⟨high, hhigh, low, hlow, h⟩ := h
    split at h
    case isFalse => cases h
    case isTrue hlength =>
    obtain rfl := Option.some.inj h
    obtain ⟨hi, hlast, hempty⟩ := (gap?_eq_some_some_iff.mp hgap i).mpr rfl
    obtain ⟨hlt, hget⟩ := List.getElem?_eq_some_iff.mp hempty
    -- there are fields on both sides of the empty one, so that it accounts for two colons
    have hfields : fs = fs.take i ++ [] :: fs.drop (i + 1) := by
      rw [← hget, ← List.drop_eq_getElem_cons, List.take_append_drop]
    have hhs : fs.take i ≠ [] := by
      rw [← List.length_pos_iff, List.length_take]
      omega
    have hls : fs.drop (i + 1) ≠ [] := by
      rw [← List.length_pos_iff, List.length_drop]
      omega
    rw [hfields, join_gap hhs hls, ← join_besideGap (fs.take i),
      ← join_besideGap (fs.drop (i + 1))]
    exact .gap hhigh hlow hlength

/-- The fields of a text of eight groups stand for these groups. -/
theorem fieldGroups?_of_groupsText (h : GroupsText cs ns) :
    fieldGroups? (split ':' cs) = some ns := by
  have hcolon (f : List Char) (n : Nat) (hf : IsGroup f n) : ':' ∉ f := hf.notMem rfl
  have hempty (f : List Char) (n : Nat) (hf : IsGroup f n) : f ≠ [] := hf.ne_nil
  cases h with
  | @full fs _ hfs hlength =>
    have hne : fs ≠ [] := by
      rw [← List.length_pos_iff, hfs.length_eq, hlength]
      decide
    have hgap : gap? fs = some none := by
      refine gap?_eq_some_none_iff.mpr fun i hi ↦ ?_
      exact forall_mem_of_groups hfs hempty [] (List.mem_of_getElem? hi.2.2) rfl
    rw [Text.split_join hne (forall_mem_of_groups hfs hcolon)]
    simp [fieldGroups?, hgap, mapM_group?_eq_some_iff.mpr hfs, hlength]
  | @gap hs ls high low hhigh hlow hlength =>
    have hhs := forall_mem_of_groups hhigh hempty
    have hls := forall_mem_of_groups hlow hempty
    have hgap := gap?_eq_some_some_iff.mpr fun j ↦ isGap_sideFields_iff (j := j) hhs hls
    have hside {fs : List (List Char)} {ns : List Nat} (h : List.Forall₂ IsGroup fs ns) :
        ∀ f ∈ sideFields fs, ':' ∉ f := fun f hf ↦ by
      rcases mem_sideFields hf with rfl | hf
      · exact List.not_mem_nil
      · exact forall_mem_of_groups h hcolon f hf
    have hfields : ∀ f ∈ sideFields hs ++ [] :: sideFields ls, ':' ∉ f :=
      List.forall_mem_append.mpr
        ⟨hside hhigh, List.forall_mem_cons.mpr ⟨List.not_mem_nil, hside hlow⟩⟩
    rw [← join_sideFields hs, ← join_sideFields ls,
      ← join_gap (sideFields_ne_nil hs) (sideFields_ne_nil ls), Text.split_join (by simp) hfields]
    simp [fieldGroups?, hgap, besideGap_sideFields hhs, besideGap_sideFields hls,
      mapM_group?_eq_some_iff.mpr hhigh, mapM_group?_eq_some_iff.mpr hlow, hlength]

/-! ## Addresses of version 4 at the end -/

theorem mem_groupsText {c : Char} (h : GroupsText cs ns) (hc : c ∈ cs) :
    c = ':' ∨ digitValue? c ≠ none := by
  have hjoin {fs : List (List Char)} {ns : List Nat} (hfs : List.Forall₂ IsGroup fs ns)
      (hc : c ∈ join [':'] fs) : c = ':' ∨ digitValue? c ≠ none := by
    rcases Text.mem_join _ hc with hc | ⟨f, hf, hc⟩
    · exact .inl (List.mem_singleton.mp hc)
    · exact .inr fun hnone ↦ forall_mem_of_groups hfs (fun _ _ hg ↦ hg.notMem hnone) f hf hc
  cases h with
  | full hfs => exact hjoin hfs hc
  | gap hhigh hlow =>
    simp only [List.mem_append, List.mem_cons] at hc
    rcases hc with hc | hc | hc | hc
    · exact hjoin hhigh hc
    · exact .inl hc
    · exact .inl hc
    · exact hjoin hlow hc

theorem tailGroups_ne_nil (bits : BitVec 32) : tailGroups bits ≠ [] :=
  List.cons_ne_nil _ _

theorem colon_notMem_tailGroups (bits : BitVec 32) : ∀ f ∈ tailGroups bits, ':' ∉ f := by
  have hcolon (n : Nat) : ':' ∉ hexadecimal n :=
    Text.notMem_of_number? (Text.number?_hexadecimal n) rfl
  simp [tailGroups, hcolon]

/-- Two fields are too few for eight groups. -/
theorem fieldGroups?_tailGroups (bits : BitVec 32) : fieldGroups? (tailGroups bits) = none := by
  have hgap : gap? (tailGroups bits) = some none := by
    refine gap?_eq_some_none_iff.mpr fun i hi ↦ ?_
    have hlast : i + 1 < 2 := hi.2.1
    exact absurd hi.1 (by omega)
  refine Option.eq_none_iff_forall_ne_some.mpr fun ns h ↦ ?_
  simp only [fieldGroups?, hgap, Option.bind_eq_bind, Option.bind_some, Option.bind_eq_some_iff,
    mapM_group?_eq_some_iff] at h
  obtain ⟨ms, hms, h⟩ := h
  have hlength : 2 = ms.length := hms.length_eq
  rw [← hlength] at h
  cases h

theorem withoutTail?_append_singleton (fs : List (List Char)) (f : List Char) :
    withoutTail? (fs ++ [f]) =
      if '.' ∈ f then (dotted? f).map fun bits ↦ fs ++ tailGroups bits else some (fs ++ [f]) := by
  simp only [withoutTail?, List.getLast?_append, List.getLast?_singleton, Option.some_or,
    List.contains_iff_mem, List.dropLast_concat]
  split
  · cases dotted? f <;> rfl
  · rfl

/-- There is a last field. -/
theorem exists_split_eq_append_singleton (cs : List Char) :
    ∃ init last, split ':' cs = init ++ [last] :=
  (List.eq_nil_or_concat' _).resolve_left (Text.split_ne_nil ':' cs)

theorem version6Text_of_groups? (h : groups? cs = some ns) : Version6Text cs ns := by
  obtain ⟨fields, hfields, h⟩ := Option.bind_eq_some_iff.mp h
  have htext := groupsText_of_fieldGroups? h
  obtain ⟨init, last, hsplit⟩ := exists_split_eq_append_singleton cs
  have hcs : cs = join [':'] (init ++ [last]) := by rw [← hsplit, Text.join_split]
  rw [hsplit, withoutTail?_append_singleton] at hfields
  split at hfields
  case isFalse =>
    cases hfields
    rw [← hcs] at htext
    exact .plain htext
  case isTrue =>
    obtain ⟨bits, hbits, rfl⟩ := Option.map_eq_some_iff.mp hfields
    obtain rfl := dotted?_eq_some_iff.mp hbits
    by_cases hinit : init = []
    · -- an address of version 4 alone has only two groups
      rw [hinit, List.nil_append, fieldGroups?_tailGroups] at h
      cases h
    · rw [Text.join_append _ hinit (tailGroups_ne_nil bits), List.append_assoc,
        List.singleton_append] at htext
      rw [hcs, Text.join_append _ hinit (List.cons_ne_nil _ _), Text.join_singleton,
        List.append_assoc, List.singleton_append]
      exact .tail htext

theorem groups?_of_version6Text (h : Version6Text cs ns) : groups? cs = some ns := by
  refine Option.bind_eq_some_iff.mpr ?_
  cases h with
  | plain h =>
    have hpoint : '.' ∉ cs := fun hc ↦ (mem_groupsText h hc).elim (by decide) (absurd rfl)
    refine ⟨_, ?_, fieldGroups?_of_groupsText h⟩
    obtain ⟨init, last, hsplit⟩ := exists_split_eq_append_singleton cs
    have hlast : '.' ∉ last := fun hc ↦ by
      rw [← Text.join_split ':' cs, hsplit] at hpoint
      exact hpoint (Text.mem_of_mem_join _ (by simp) hc)
    rw [hsplit, withoutTail?_append_singleton, if_neg hlast]
  | @tail init bits _ h =>
    have hgroups := fieldGroups?_of_groupsText h
    rw [Text.split_append, Text.split_join (tailGroups_ne_nil bits) (colon_notMem_tailGroups bits)]
      at hgroups
    refine ⟨_, ?_, hgroups⟩
    rw [Text.split_append, Text.split_of_notMem (notMem_dotted (by decide) rfl),
      withoutTail?_append_singleton,
      if_pos (point_mem_dotted bits), dotted?_dotted]
    rfl

/-- The text of eight groups is read as these groups, and nothing else is. -/
theorem groups?_eq_some_iff : groups? cs = some ns ↔ Version6Text cs ns :=
  ⟨version6Text_of_groups?, groups?_of_version6Text⟩

namespace Version6Text

variable {c : Char}

theorem mem (h : Version6Text cs ns) (hc : c ∈ cs) : c = ':' ∨ c = '.' ∨ digitValue? c ≠ none := by
  cases h with
  | plain h => exact (mem_groupsText h hc).imp_right .inr
  | tail h =>
    rw [List.mem_append, List.mem_cons] at hc
    rcases hc with hc | hc | hc
    · exact (mem_groupsText h (List.mem_append_left _ hc)).imp_right .inr
    · exact .inl hc
    · exact .inr (mem_dotted hc)

theorem notMem (h : Version6Text cs ns) (hcolon : c ≠ ':') (hpoint : c ≠ '.')
    (hdigit : digitValue? c = none) : c ∉ cs := by
  intro hc
  rcases h.mem hc with rfl | rfl | hd
  · exact hcolon rfl
  · exact hpoint rfl
  · exact hd hdigit

theorem colon_mem (h : Version6Text cs ns) : ':' ∈ cs := by
  cases h with
  | tail h => simp
  | plain h =>
    cases h with
    | gap => simp
    | @full fs _ hfs hlength =>
      match fs, hfs.length_eq.trans hlength with
      | f :: g :: fs, _ => simp [Text.join_cons]

end Version6Text
end Nftables.Address
