import Mathlib.Data.List.Find
import Mathlib.Tactic.IntervalCases
import Nftables.Proofs.Spec.Details
import Nftables.Proofs.Text.Blank

/-!
# Spellings

A name is looked up in its normal form.  Two spellings that have the same one are names of the same
word, or both of none, and what a name stands for can be looked up again and stands for itself.

The long names of log levels are an exception: they are compared in lower case, but with whatever
blanks there are around them.
-/

namespace Nftables

open Text (isBlank lower lowerChar trim)
open Nftables.Symbol

/-! ## Normal forms -/

namespace Text

variable {c : Char} {cs : List Char}

/-- No blank is a capital. -/
theorem lowerChar_of_isBlank (h : isBlank c = true) : lowerChar c = [c] := by
  rw [← Char.ofNat_toNat c]
  simp only [isBlank, Bool.or_eq_true, Bool.and_eq_true, decide_eq_true_eq, beq_iff_eq] at h
  generalize c.toNat = n at h
  rcases h with ((((((((((⟨h₁, h₂⟩ | ⟨h₁, h₂⟩) | rfl) | rfl) | rfl) | ⟨h₁, h₂⟩) | rfl) | rfl) |
    rfl) | rfl) | rfl)
  all_goals
    first
    | decide
    | interval_cases n <;> decide

/-- A text without blanks in lower case has none around it. -/
theorem trim_of_lower (h : ∀ c ∈ lower cs, isBlank c = false) : trim cs = cs := by
  refine trim_of_forall fun c hc ↦ ?_
  cases hblank : isBlank c with
  | false => rfl
  | true =>
    have hmem : c ∈ lower cs := List.mem_flatMap.mpr ⟨c, hc, by simp [lowerChar_of_isBlank hblank]⟩
    exact hblank.symm.trans (h c hmem)

end Text

namespace Symbol

variable {s : String} {w : List Char}

/-- A text that is a single word: nothing in it is a blank, or joins words. -/
def Undivided (w : List Char) : Prop :=
  ∀ c ∈ w, isBlank c = false ∧ c ≠ '-' ∧ c ≠ '_'

instance : DecidablePred Undivided := fun w ↦ List.decidableBAll _ w

/-- There are no blanks around a text. -/
def Trimmed (s : String) : Prop :=
  trim s.toList = s.toList

instance : DecidablePred Trimmed := fun s ↦ inferInstanceAs (Decidable (trim s.toList = s.toList))

theorem map_joint (h : ∀ c ∈ w, joint c = c) : w.map joint = w :=
  (List.map_congr_left h).trans w.map_id

/-- A text is a single word in lower case if that is its normal form and no blanks are around it. -/
theorem lower_eq_iff (hw : Undivided w) :
    lower s.toList = w ↔ normal s = w ∧ Trimmed s := by
  constructor
  · rintro rfl
    have htrim : Trimmed s := Text.trim_of_lower fun c hc ↦ (hw c hc).1
    have hjoint : ∀ c ∈ lower s.toList, joint c = c := by
      intro c hc
      obtain ⟨hblank, hdash, -⟩ := hw c hc
      refine if_neg (not_or.mpr ⟨hdash, ?_⟩)
      rintro rfl
      exact absurd hblank (by decide)
    exact ⟨by rw [normal, htrim, map_joint hjoint], htrim⟩
  · rintro ⟨hnormal, htrim⟩
    rw [normal, htrim] at hnormal
    -- what is joined leaves a mark, and there is none
    have hjoint : ∀ c ∈ lower s.toList, joint c = c := by
      intro c hc
      have hmark : joint c ≠ '_' := (hw _ (hnormal ▸ List.mem_map_of_mem hc)).2.2
      exact if_neg fun h ↦ hmark (if_pos h)
    rw [← hnormal, map_joint hjoint]

end Symbol

/-! ## Lookups in general -/

/-- What is made of a text depends on its normal form only. -/
def BySpelling {ε β : Type} (r : Value → Except ε β) : Prop :=
  ∃ f : List Char → Option β, ∀ s, (r (.str s)).toOption = f (normal s)

/-- What comes out stays as it is when it is given back. -/
def Settles {ε : Type} (r : Value → Except ε Value) : Prop :=
  ∀ v w, r v = .ok w → r w = .ok w

section General

variable {ε β γ : Type} {r : Value → Except ε β}

theorem toOption_map (x : Except ε β) (g : β → γ) : (x.map g).toOption = x.toOption.map g := by
  cases x <;> rfl

theorem BySpelling.map (h : BySpelling r) (g : β → γ) : BySpelling fun v ↦ (r v).map g := by
  obtain ⟨f, hf⟩ := h
  exact ⟨fun n ↦ (f n).map g, fun s ↦ by rw [toOption_map, hf]⟩

theorem BySpelling.eq (h : BySpelling r) {s t : String} (hst : normal s = normal t) :
    (r (.str s)).toOption = (r (.str t)).toOption := by
  obtain ⟨f, hf⟩ := h
  rw [hf, hf, hst]

theorem toOption_eq_of_ok_iff {x : Except ε β} {o : Option β}
    (h : ∀ b, x = .ok b ↔ o = some b) : x.toOption = o := by
  refine Option.ext fun b ↦ ?_
  rw [← h]
  cases x <;> simp [Except.toOption]

theorem ok_of_toOption {x : Except ε β} {b : β} (h : x.toOption = some b) : x = .ok b := by
  cases x with
  | error e => cases h
  | ok a => exact congrArg Except.ok (Option.some.inj h)

theorem settles_of_write {write : β → Value} (h : ∀ v a, r v = .ok a → r (write a) = .ok a) :
    Settles fun v ↦ (r v).map write := by
  intro v w hw
  obtain ⟨a, ha, rfl⟩ := map_ok_iff.mp hw
  exact map_ok_iff.mpr ⟨a, h v a ha, rfl⟩

end General

/-! ## Words -/

namespace Vocabulary

variable {α : Type} [Vocabulary α] {what : String} {s : String} {a : α}

theorem toOption_resolve (what s : String) :
    (resolve what (.str s) : Except ArgumentError α).toOption = find? s :=
  toOption_eq_of_ok_iff fun a ↦ by simp [resolve_ok_iff, Value.Names]

/-- The wire texts and the names of words, each with the wire text that it stands for. -/
def names (α : Type) [Vocabulary α] : List (String × Value) :=
  (members : List α).flatMap fun a ↦ [(wire a, .str (wire a)), (name a, .str (wire a))]

/-- The names of words are known if each leads to its own word. -/
theorem map_of_mem_names {r : Value → Except ArgumentError α}
    (hr : ∀ a ∈ (members : List α),
      (r (.str (wire a))).toOption = some a ∧ (r (.str (name a))).toOption = some a) :
    ∀ e ∈ names α, ((r (.str e.1)).map fun a ↦ .str (wire a)) = .ok e.2 := by
  intro e he
  obtain ⟨a, ha, he⟩ := List.mem_flatMap.mp he
  obtain ⟨hwire, hname⟩ := hr a ha
  simp only [List.mem_cons, List.not_mem_nil, or_false] at he
  rcases he with rfl | rfl
  · exact map_ok_iff.mpr ⟨a, ok_of_toOption hwire, rfl⟩
  · exact map_ok_iff.mpr ⟨a, ok_of_toOption hname, rfl⟩

/-- The wire text and the name of each word, in normal form, lead back to the word. -/
class LeadsBack (α : Type) [Vocabulary α] : Prop where
  find?_wire : ∀ a ∈ (members : List α), members.find? (answers (normal (wire a))) = some a
  find?_name : ∀ a ∈ (members : List α), members.find? (answers (normal (name a))) = some a

instance : LeadsBack Family := ⟨by decide, by decide⟩
instance : LeadsBack Relation := ⟨by decide, by decide⟩
instance : LeadsBack Verdict := ⟨by decide, by decide⟩
instance : LeadsBack Protocol := ⟨by decide, by decide⟩
instance : LeadsBack PayloadBase := ⟨by decide, by decide⟩
instance : LeadsBack RateUnit := ⟨by decide, by decide⟩
instance : LeadsBack TcpFlag := ⟨by decide, by decide⟩
instance : LeadsBack LogLevel := ⟨by decide, by decide⟩
instance : LeadsBack ConnState := ⟨by decide, by decide⟩
instance : LeadsBack ConnStatus := ⟨by decide, by decide⟩
instance : LeadsBack ConnDirection := ⟨by decide, by decide⟩
instance : LeadsBack PacketType := ⟨by decide, by decide⟩
instance : LeadsBack FingerprintTtl := ⟨by decide, by decide⟩
instance : LeadsBack ChainType := ⟨by decide, by decide⟩
instance : LeadsBack Hook := ⟨by decide, by decide⟩
instance : LeadsBack ChainPolicy := ⟨by decide, by decide⟩
instance : LeadsBack SetFlag := ⟨by decide, by decide⟩

variable [LeadsBack α]

/-- That a wire text is looked for first makes no difference. -/
theorem find?_eq (s : String) : find? s = (members : List α).find? (answers (normal s)) := by
  unfold find?
  split
  case h_1 a ha =>
    obtain rfl : wire a = s := by simpa using List.find?_some ha
    exact (LeadsBack.find?_wire a (List.mem_of_find?_eq_some ha)).symm
  case h_2 => rfl

theorem find?_wire_of_find? (h : find? s = some a) : find? (wire a) = some a := by
  rw [find?_eq] at h ⊢
  exact LeadsBack.find?_wire a (List.mem_of_find?_eq_some h)

theorem resolve_of_mem_names (what : String) : ∀ e ∈ names α,
    ((resolve what (.str e.1) : Except ArgumentError α).map fun a ↦ .str (wire a)) = .ok e.2 := by
  refine map_of_mem_names fun a ha ↦ ?_
  rw [toOption_resolve, toOption_resolve, find?_eq, find?_eq]
  exact ⟨LeadsBack.find?_wire a ha, LeadsBack.find?_name a ha⟩

theorem bySpelling (α : Type) [Vocabulary α] [LeadsBack α] (what : String) :
    BySpelling (resolve what : Value → Except ArgumentError α) :=
  ⟨(members : List α).find? ∘ answers, fun s ↦ by rw [toOption_resolve, find?_eq]; rfl⟩

theorem settles (α : Type) [Vocabulary α] [LeadsBack α] (what : String) :
    Settles fun v ↦ (resolve what v : Except ArgumentError α).map fun a ↦ .str (wire a) := by
  refine settles_of_write fun v a h ↦ ?_
  obtain ⟨s, rfl, hs⟩ := resolve_ok_iff.mp h
  exact resolve_ok_iff.mpr ⟨_, rfl, find?_wire_of_find? hs⟩

end Vocabulary

/-! ## Tables -/

namespace SymbolTable

/-- The value of a name in normal form. -/
def named? {α : Type} (entries : List (String × α)) (n : List Char) : Option α :=
  (entries.find? fun e ↦ e.1.toList = n).map (·.2)

section Named

variable {α : Type} {t : SymbolTable α}

theorem exists_of_named? {entries : List (String × α)} {n : List Char} {a : α}
    (h : named? entries n = some a) : ∃ e ∈ entries, e.1.toList = n ∧ e.2 = a := by
  obtain ⟨e, he, ha⟩ := Option.map_eq_some_iff.mp h
  exact ⟨e, List.mem_of_find?_eq_some he, by simpa using List.find?_some he, ha⟩

/-- The names of a table are different normal forms. -/
def Canonical (entries : List (String × α)) : Prop :=
  (entries.map Prod.fst).Nodup ∧ ∀ e ∈ entries, normal e.1 = e.1.toList

instance (entries : List (String × α)) : Decidable (Canonical entries) :=
  inferInstanceAs (Decidable (_ ∧ ∀ e ∈ entries, normal e.1 = e.1.toList))

theorem Canonical.named? {entries : List (String × α)} (h : Canonical entries) {e : String × α}
    (he : e ∈ entries) : named? entries (normal e.1) = some e.2 := by
  rw [h.2 e he]
  replace h := h.1
  induction entries with
  | nil => cases he
  | cons f fs ih =>
    rw [List.map_cons, List.nodup_cons] at h
    rcases List.mem_cons.mp he with rfl | he
    · simp [SymbolTable.named?]
    · have hne : f.1.toList ≠ e.1.toList := fun hf ↦
        h.1 (String.toList_inj.mp hf ▸ List.mem_map_of_mem he)
      rw [← ih he h.2, SymbolTable.named?, SymbolTable.named?,
        List.find?_cons_of_neg (by simpa using hne)]

/-- No text is admitted beside the names, if those that are have a name as their normal form. -/
theorem find?_eq (h : ∀ s a, t.ofText? s = some a → named? t.entries (normal s) = some a)
    (s : String) : t.find? s = named? t.entries (normal s) := by
  unfold find?
  split
  case h_1 e he => rw [named?, he]; rfl
  case h_2 he =>
    cases ht : t.ofText? s with
    | none => rw [named?, he]; rfl
    | some a => exact (h s a ht).symm

theorem resolve_str_ok_iff {what s : String} {a : α} :
    t.resolve what (.str s) = .ok a ↔ t.find? s = some a := by
  simp only [resolve]
  split <;> simp_all

theorem resolve_int_ok_iff {what : String} {n : Int} {a : α} :
    t.resolve what (.int n) = .ok a ↔ t.ofNumber? n = some a := by
  simp only [resolve]
  split <;> simp_all

theorem bySpelling (h : ∀ s a, t.ofText? s = some a → named? t.entries (normal s) = some a)
    (what : String) : BySpelling (t.resolve what) :=
  ⟨named? t.entries, fun s ↦ toOption_eq_of_ok_iff fun a ↦ by rw [resolve_str_ok_iff, find?_eq h]⟩

theorem resolve_of_mem_entries (h : Canonical t.entries) (what : String) :
    ∀ e ∈ t.entries, t.resolve what (.str e.1) = .ok e.2 := by
  intro e he
  obtain ⟨f, hf, hvalue⟩ := Option.map_eq_some_iff.mp (h.named? he)
  rw [resolve_str_ok_iff, find?, hf]
  exact congrArg some hvalue

end Named

section OfEntries

variable {entries : List (String × Value)} {max : Option Nat} {v w : Value}

/-- A value stands for itself: a text by its normal form, and a number if it is admitted. -/
def standsForItself (entries : List (String × Value)) (max : Option Nat) : Value → Bool
  | .str s => (named? entries (normal s)).any (·.isText s)
  | .int n => max.any fun m ↦ 0 ≤ n ∧ n ≤ m
  | _ => false

/-- All values of a table stand for themselves. -/
def LeadsBack (entries : List (String × Value)) (max : Option Nat) : Prop :=
  ∀ e ∈ entries, standsForItself entries max e.2 = true

instance : Decidable (LeadsBack entries max) :=
  inferInstanceAs (Decidable (∀ e ∈ entries, standsForItself entries max e.2 = true))

theorem standsForItself_str_iff {s : String} :
    standsForItself entries max (.str s) = true ↔ named? entries (normal s) = some (.str s) := by
  simp [standsForItself, Option.any_eq_true, Value.isText_iff]

theorem ofNumber?_ofEntries_iff {n : Int} : (ofEntries entries max).ofNumber? n = some w ↔
    standsForItself entries max (.int n) = true ∧ .int n = w := by
  cases max <;> simp [ofEntries, standsForItself]

theorem ofText?_ofEntries (h : LeadsBack entries max) (s : String) (v : Value)
    (hv : (ofEntries entries max).ofText? s = some v) : named? entries (normal s) = some v := by
  simp only [ofEntries, Option.ite_none_right_eq_some, Option.some.injEq] at hv
  obtain ⟨hany, rfl⟩ := hv
  obtain ⟨e, he, hs⟩ := List.any_eq_true.mp hany
  exact standsForItself_str_iff.mp (Value.isText_iff.mp hs ▸ h e he)

theorem standsForItself_of_resolve (h : LeadsBack entries max) {what : String}
    (hw : (ofEntries entries max).resolve what v = .ok w) :
    standsForItself entries max w = true := by
  cases v with
  | int n =>
    obtain ⟨hn, rfl⟩ := ofNumber?_ofEntries_iff.mp (resolve_int_ok_iff.mp hw)
    exact hn
  | str s =>
    rw [resolve_str_ok_iff, find?_eq (ofText?_ofEntries h)] at hw
    obtain ⟨e, he, -, rfl⟩ := exists_of_named? hw
    exact h e he
  | _ => cases hw

theorem settles_ofEntries (h : LeadsBack entries max) (what : String) :
    Settles ((ofEntries entries max).resolve what) := by
  intro v w hw
  have hself := standsForItself_of_resolve h hw
  cases w with
  | int n => exact resolve_int_ok_iff.mpr (ofNumber?_ofEntries_iff.mpr ⟨hself, rfl⟩)
  | str s =>
    rw [resolve_str_ok_iff, find?_eq (ofText?_ofEntries h)]
    exact standsForItself_str_iff.mp hself
  | _ => cases hself

theorem resolve_of_mem_ofEntries (h : Canonical entries) (what : String) :
    ∀ e ∈ entries, (ofEntries entries max).resolve what (.str e.1) = .ok e.2 :=
  resolve_of_mem_entries (t := ofEntries entries max) h what

end OfEntries

theorem leadsBack_icmpTypes : LeadsBack icmpTypes (some 255) := by decide

theorem leadsBack_icmpv6Types : LeadsBack icmpv6Types (some 255) := by decide

theorem leadsBack_dscpClasses : LeadsBack dscpClasses (some 63) := by decide

theorem leadsBack_arpOperations : LeadsBack arpOperations (some 0xFFFF) := by decide

theorem canonical_icmpTypes : Canonical icmpTypes := by decide

theorem canonical_icmpv6Types : Canonical icmpv6Types := by decide

theorem canonical_dscpClasses : Canonical dscpClasses := by decide

theorem canonical_arpOperations : Canonical arpOperations := by decide

theorem canonical_rejectFlavors : Canonical rejectFlavors := by decide

end SymbolTable

/-! ## Aliases -/

open SymbolTable (named?)

/-- An alias that is a single word is found by the normal form of a text without blanks around it,
and is not found by any other text. -/
theorem aliased?_str {α : Type} {aliases : List (String × α)}
    (h : ∀ e ∈ aliases, Undivided e.1.toList) (s : String) :
    aliased? aliases (.str s) =
      if Trimmed s then named? aliases (normal s) else none := by
  have hfind : aliases.find? (fun e ↦ e.1.toList = lower s.toList) =
      aliases.find? fun e ↦ e.1.toList = normal s ∧ Trimmed s := by
    refine List.find?_congr fun e he ↦ ?_
    rw [decide_eq_decide, eq_comm, lower_eq_iff (h e he), eq_comm]
  simp only [aliased?, named?, hfind]
  split
  case isTrue htrim => simp [htrim]
  case isFalse htrim => simp [htrim]

/-- Other names of words, each with the wire text that it stands for. -/
def aliasNames {α : Type} [Vocabulary α] (aliases : List (String × α)) : List (String × Value) :=
  aliases.map fun e ↦ (e.1, .str (Vocabulary.wire e.2))

/-- The names of the words and their aliases are known if each leads to its own word. -/
theorem map_of_mem_aliasNames {α : Type} [Vocabulary α] {aliases : List (String × α)}
    {r : Value → Except ArgumentError α}
    (hwords : ∀ a ∈ (Vocabulary.members : List α),
      (r (.str (Vocabulary.wire a))).toOption = some a ∧
        (r (.str (Vocabulary.name a))).toOption = some a)
    (haliases : ∀ e ∈ aliases, (r (.str e.1)).toOption = some e.2) :
    ∀ e ∈ Vocabulary.names α ++ aliasNames aliases,
      ((r (.str e.1)).map fun a ↦ .str (Vocabulary.wire a)) = .ok e.2 := by
  intro e he
  rcases List.mem_append.mp he with he | he
  · exact Vocabulary.map_of_mem_names hwords e he
  · obtain ⟨f, hf, rfl⟩ := List.mem_map.mp he
    exact map_ok_iff.mpr ⟨f.2, ok_of_toOption (haliases f hf), rfl⟩

namespace Relation

theorem undivided_aliases : ∀ e ∈ relationAliases, Undivided e.1.toList := by
  decide

/-- The aliases of the operators are names that they have anyway. -/
theorem resolve_eq (v : Value) : resolve v = Vocabulary.resolve "operator" v := by
  have hnames : ∀ e ∈ relationAliases,
      Vocabulary.members.find? (Vocabulary.answers e.1.toList) = some e.2 := by decide
  unfold resolve
  split
  case h_2 => rfl
  case h_1 r hr =>
    cases v with
    | str s =>
      rw [aliased?_str undivided_aliases, Option.ite_none_right_eq_some] at hr
      obtain ⟨e, he, hname, rfl⟩ := SymbolTable.exists_of_named? hr.2
      have hfind : Vocabulary.find? s = some e.2 := by
        rw [Vocabulary.find?_eq, ← hname, hnames e he]
      exact (Vocabulary.resolve_ok_iff.mpr ⟨s, rfl, hfind⟩).symm
    | _ => cases hr

theorem resolve_of_mem_names : ∀ e ∈ Vocabulary.names Relation ++ aliasNames relationAliases,
    ((resolve (.str e.1)).map fun r ↦ .str (Vocabulary.wire r)) = .ok e.2 :=
  map_of_mem_aliasNames (by decide) (by decide)

end Relation

namespace PayloadBase

/-- The long names are looked up in normal form. -/
theorem bySpelling : BySpelling resolve := by
  refine ⟨fun n ↦ (named? payloadBaseAliases n).or
    (Vocabulary.members.find? (Vocabulary.answers n)), fun s ↦ ?_⟩
  beta_reduce
  rw [← Vocabulary.find?_eq, ← Vocabulary.toOption_resolve "payload base"]
  have hresolve : resolve (.str s) = match named? payloadBaseAliases (normal s) with
    | some b => .ok b
    | none => Vocabulary.resolve "payload base" (.str s) := rfl
  rw [hresolve]
  cases named? payloadBaseAliases (normal s) <;> rfl

theorem settles : Settles fun v ↦ (resolve v).map fun b ↦ .str (Vocabulary.wire b) :=
  settles_of_write fun _ b _ ↦ by cases b <;> rfl

theorem resolve_of_mem_names : ∀ e ∈ Vocabulary.names PayloadBase ++ aliasNames payloadBaseAliases,
    ((resolve (.str e.1)).map fun b ↦ .str (Vocabulary.wire b)) = .ok e.2 :=
  map_of_mem_aliasNames (by decide) (by decide)

end PayloadBase

namespace LogLevel

variable {s t : String}

theorem undivided_aliases : ∀ e ∈ logLevelAliases, Undivided e.1.toList := by
  decide

/-- The long names are looked up in normal form, but not with blanks around them. -/
theorem toOption_resolve (s : String) : (resolve (.str s)).toOption =
    (if Trimmed s then named? logLevelAliases (normal s) else none).or
      (Vocabulary.members.find? (Vocabulary.answers (normal s))) := by
  rw [← Vocabulary.find?_eq, ← Vocabulary.toOption_resolve "log level",
    ← aliased?_str undivided_aliases, resolve]
  cases aliased? logLevelAliases (.str s) <;> rfl

/-- The normal form of a long name. -/
def IsLongName (n : List Char) : Prop :=
  n ∈ logLevelAliases.map fun e ↦ e.1.toList

theorem named?_of_isLongName {n : List Char} (h : IsLongName n) :
    (∃ l, named? logLevelAliases n = some l) ∧
      Vocabulary.members.find? (Vocabulary.answers (α := LogLevel) n) = none := by
  have hall : ∀ e ∈ logLevelAliases, named? logLevelAliases e.1.toList = some e.2 ∧
      Vocabulary.members.find? (Vocabulary.answers (α := LogLevel) e.1.toList) = none := by
    decide
  obtain ⟨e, he, rfl⟩ := List.mem_map.mp h
  exact ⟨⟨e.2, (hall e he).1⟩, (hall e he).2⟩

theorem named?_of_not_isLongName {n : List Char} (h : ¬ IsLongName n) :
    named? logLevelAliases n = none := by
  refine Option.eq_none_iff_forall_ne_some.mpr fun l hl ↦ h ?_
  obtain ⟨e, he, hname, -⟩ := SymbolTable.exists_of_named? hl
  exact List.mem_map.mpr ⟨e, he, hname⟩

/-- Two spellings of a long name make a difference if there are blanks around one of them only. -/
theorem same_iff (h : normal s = normal t) :
    (resolve (.str s)).toOption = (resolve (.str t)).toOption ↔
      (IsLongName (normal s) → (Trimmed s ↔ Trimmed t)) := by
  rw [toOption_resolve, toOption_resolve, ← h]
  by_cases hn : IsLongName (normal s)
  · obtain ⟨⟨l, hl⟩, hnone⟩ := named?_of_isLongName hn
    by_cases hs : Trimmed s <;> by_cases ht : Trimmed t <;> simp [hn, hl, hnone, hs, ht]
  · simp [hn, named?_of_not_isLongName hn]

theorem settles : Settles fun v ↦ (resolve v).map fun b ↦ .str (Vocabulary.wire b) :=
  settles_of_write fun _ b _ ↦ by cases b <;> rfl

theorem resolve_of_mem_names : ∀ e ∈ Vocabulary.names LogLevel ++ aliasNames logLevelAliases,
    ((resolve (.str e.1)).map fun b ↦ .str (Vocabulary.wire b)) = .ok e.2 :=
  map_of_mem_aliasNames (by decide) (by decide)

end LogLevel

/-! ## The lookups -/

/-- What a name can be looked up as: a word, a value of a table, or in one of the ways that have
names of their own beside these. -/
inductive Lookup where
  | family | relation | verdict | protocol | payloadBase | rateUnit | tcpFlag | logLevel
  | connState | connStatus | connDirection | packetType | fingerprintTtl
  | chainType | hook | chainPolicy | setFlag
  | icmpType | icmpv6Type | dscpClass | arpOperation | rejectType
  | operator | logLevelByName | dscp | payloadBaseByName

namespace Lookup

/-- The wire text of a word. -/
def word (α : Type) [Vocabulary α] (what : String) (v : Value) : Except ArgumentError Value :=
  (Vocabulary.resolve what v : Except ArgumentError α).map fun a ↦ .str (Vocabulary.wire a)

/-- The value that is found; `what` says in the messages what was looked for. -/
def resolve (what : String) : Lookup → Value → Except ArgumentError Value
  | .family => word Family what
  | .relation => word Relation what
  | .verdict => word Verdict what
  | .protocol => word Protocol what
  | .payloadBase => word PayloadBase what
  | .rateUnit => word RateUnit what
  | .tcpFlag => word TcpFlag what
  | .logLevel => word LogLevel what
  | .connState => word ConnState what
  | .connStatus => word ConnStatus what
  | .connDirection => word ConnDirection what
  | .packetType => word PacketType what
  | .fingerprintTtl => word FingerprintTtl what
  | .chainType => word ChainType what
  | .hook => word Hook what
  | .chainPolicy => word ChainPolicy what
  | .setFlag => word SetFlag what
  | .icmpType => (SymbolTable.ofEntries icmpTypes (some 255)).resolve what
  | .icmpv6Type => (SymbolTable.ofEntries icmpv6Types (some 255)).resolve what
  | .dscpClass => (SymbolTable.ofEntries dscpClasses (some 63)).resolve what
  | .arpOperation => (SymbolTable.ofEntries arpOperations (some 0xFFFF)).resolve what
  | .rejectType => fun v ↦ (rejectTable.resolve what v).map fun r ↦ .tuple [r.typeTerm, r.codeTerm]
  | .operator => fun v ↦ (Relation.resolve v).map fun r ↦ .str (Vocabulary.wire r)
  | .logLevelByName => fun v ↦ (LogLevel.resolve v).map fun l ↦ .str (Vocabulary.wire l)
  | .dscp => resolveDscp
  | .payloadBaseByName => fun v ↦ (PayloadBase.resolve v).map fun b ↦ .str (Vocabulary.wire b)

/-- The names that are known, each with the value that it stands for. -/
def names : Lookup → List (String × Value)
  | .family => Vocabulary.names Family
  | .relation => Vocabulary.names Relation
  | .verdict => Vocabulary.names Verdict
  | .protocol => Vocabulary.names Protocol
  | .payloadBase => Vocabulary.names PayloadBase
  | .rateUnit => Vocabulary.names RateUnit
  | .tcpFlag => Vocabulary.names TcpFlag
  | .logLevel => Vocabulary.names LogLevel
  | .connState => Vocabulary.names ConnState
  | .connStatus => Vocabulary.names ConnStatus
  | .connDirection => Vocabulary.names ConnDirection
  | .packetType => Vocabulary.names PacketType
  | .fingerprintTtl => Vocabulary.names FingerprintTtl
  | .chainType => Vocabulary.names ChainType
  | .hook => Vocabulary.names Hook
  | .chainPolicy => Vocabulary.names ChainPolicy
  | .setFlag => Vocabulary.names SetFlag
  | .icmpType => icmpTypes
  | .icmpv6Type => icmpv6Types
  | .dscpClass => dscpClasses
  | .arpOperation => arpOperations
  | .rejectType => rejectFlavors.map fun e ↦ (e.1, .tuple [e.2.typeTerm, e.2.codeTerm])
  | .operator => Vocabulary.names Relation ++ aliasNames relationAliases
  | .logLevelByName => Vocabulary.names LogLevel ++ aliasNames logLevelAliases
  | .dscp => dscpClasses
  | .payloadBaseByName => Vocabulary.names PayloadBase ++ aliasNames payloadBaseAliases

variable {l : Lookup} {what : String} {s t : String}

theorem bySpelling (hl : l ≠ .logLevelByName) : BySpelling (l.resolve what) := by
  have htable {entries : List (String × Value)} {max : Option Nat} (what : String)
      (h : SymbolTable.LeadsBack entries max) :
      BySpelling ((SymbolTable.ofEntries entries max).resolve what) :=
    SymbolTable.bySpelling (SymbolTable.ofText?_ofEntries h) what
  cases l with
  | icmpType => exact htable what SymbolTable.leadsBack_icmpTypes
  | icmpv6Type => exact htable what SymbolTable.leadsBack_icmpv6Types
  | dscpClass => exact htable what SymbolTable.leadsBack_dscpClasses
  | dscp => exact htable "DSCP class" SymbolTable.leadsBack_dscpClasses
  | arpOperation => exact htable what SymbolTable.leadsBack_arpOperations
  | rejectType => exact (SymbolTable.bySpelling (by simp [rejectTable]) what).map _
  | operator =>
    simp only [resolve, Relation.resolve_eq]
    exact (Vocabulary.bySpelling Relation "operator").map _
  | payloadBaseByName => exact PayloadBase.bySpelling.map _
  | logLevelByName => exact absurd rfl hl
  | _ => exact (Vocabulary.bySpelling _ what).map _

theorem settles (hl : l ≠ .rejectType) : Settles (l.resolve what) := by
  cases l with
  | icmpType => exact SymbolTable.settles_ofEntries SymbolTable.leadsBack_icmpTypes what
  | icmpv6Type => exact SymbolTable.settles_ofEntries SymbolTable.leadsBack_icmpv6Types what
  | dscpClass => exact SymbolTable.settles_ofEntries SymbolTable.leadsBack_dscpClasses what
  | dscp => exact SymbolTable.settles_ofEntries SymbolTable.leadsBack_dscpClasses "DSCP class"
  | arpOperation => exact SymbolTable.settles_ofEntries SymbolTable.leadsBack_arpOperations what
  | rejectType => exact absurd rfl hl
  | operator =>
    simp only [resolve, Relation.resolve_eq]
    exact Vocabulary.settles Relation "operator"
  | payloadBaseByName => exact PayloadBase.settles
  | logLevelByName => exact LogLevel.settles
  | _ => exact Vocabulary.settles _ what

theorem resolve_of_mem_names : ∀ e ∈ l.names, l.resolve what (.str e.1) = .ok e.2 := by
  cases l with
  | icmpType => exact SymbolTable.resolve_of_mem_ofEntries SymbolTable.canonical_icmpTypes what
  | icmpv6Type => exact SymbolTable.resolve_of_mem_ofEntries SymbolTable.canonical_icmpv6Types what
  | dscpClass => exact SymbolTable.resolve_of_mem_ofEntries SymbolTable.canonical_dscpClasses what
  | dscp =>
    exact SymbolTable.resolve_of_mem_ofEntries SymbolTable.canonical_dscpClasses "DSCP class"
  | arpOperation =>
    exact SymbolTable.resolve_of_mem_ofEntries SymbolTable.canonical_arpOperations what
  | rejectType =>
    intro e he
    obtain ⟨f, hf, rfl⟩ := List.mem_map.mp he
    exact map_ok_iff.mpr
      ⟨f.2, SymbolTable.resolve_of_mem_entries SymbolTable.canonical_rejectFlavors what f hf, rfl⟩
  | operator => exact Relation.resolve_of_mem_names
  | payloadBaseByName => exact PayloadBase.resolve_of_mem_names
  | logLevelByName => exact LogLevel.resolve_of_mem_names
  | _ => exact Vocabulary.resolve_of_mem_names what

/-- **Spellings do not matter.**  Texts of one normal form stand for the same value, or both for
none, in every lookup but that of log levels: there, and only if what is spelled is a long name, it
makes a difference to have blanks around it.  Every name stands for its own value, and that,
unless it is a way to reject, stands for itself. -/
theorem spelling_irrelevant (l : Lookup) (what : String) :
    (∀ s t, normal s = normal t →
      ((l.resolve what (.str s)).toOption = (l.resolve what (.str t)).toOption ↔
        (l = .logLevelByName → LogLevel.IsLongName (normal s) →
          (Trimmed s ↔ Trimmed t)))) ∧
    (∀ e ∈ l.names, l.resolve what (.str e.1) = .ok e.2) ∧
    (l ≠ .rejectType → ∀ v w, l.resolve what v = .ok w → l.resolve what w = .ok w) := by
  refine ⟨fun s t h ↦ ?_, resolve_of_mem_names, settles⟩
  by_cases hl : l = .logLevelByName
  · subst hl
    have hwrite : Function.Injective fun a : LogLevel ↦ Value.str (Vocabulary.wire a) := by
      intro a b hab
      cases a <;> cases b <;> first | rfl | simp [Vocabulary.wire] at hab
    rw [resolve, toOption_map, toOption_map, (Option.map_injective hwrite).eq_iff,
      LogLevel.same_iff h]
    exact ⟨fun hsame _ ↦ hsame, fun hsame ↦ hsame rfl⟩
  · simp [hl, (bySpelling hl).eq h]

/-- A status with a hyphen is found by other spellings, and they make no difference. -/
theorem spelling_irrelevant_seenReply :
    normal "\tSeen Reply" = normal "SEEN_REPLY" ∧
      (connStatus.resolve "status" (.str "\tSeen Reply")).toOption =
        (connStatus.resolve "status" (.str "SEEN_REPLY")).toOption ∧
      connStatus.resolve "status" (.str "\tSeen Reply") = .ok (.str "seen-reply") ∧
      connStatus.resolve "status" (.str "seen-reply") = .ok (.str "seen-reply") := by
  have hnormal : normal "\tSeen Reply" = normal "SEEN_REPLY" := by decide
  have hfind : Vocabulary.find? "\tSeen Reply" = some ConnStatus.seenReply := by decide
  have hresolve : connStatus.resolve "status" (.str "\tSeen Reply") = .ok (.str "seen-reply") :=
    map_ok_iff.mpr ⟨.seenReply, Vocabulary.resolve_ok_iff.mpr ⟨_, rfl, hfind⟩, rfl⟩
  obtain ⟨hsame, -, hsettles⟩ := spelling_irrelevant connStatus "status"
  exact ⟨hnormal, (hsame _ _ hnormal).mpr (by simp), hresolve, hsettles (by simp) _ _ hresolve⟩

end Lookup

/-- A long name of a log level is known, and is unknown with a blank in front of it. -/
theorem LogLevel.padded_name_is_unknown :
    normal " warning" = normal "warning" ∧
      (resolve (.str "warning")).toOption = some .warn ∧
      (resolve (.str " warning")).toOption = none := by
  decide

end Nftables
