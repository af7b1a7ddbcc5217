import Nftables.Proofs.Json.Scalar
import Nftables.Proofs.Text.Ascii
import Nftables.Proofs.Value.Plain

/-!
# Compact texts

What the compact text of a value is made of: the texts of its parts, with printable ASCII characters
alone.
-/

namespace Nftables.Json

open Text (isDigit decimal integer PrintableAscii)

variable {v : Value} {vs : List Value} {es : List (String × Value)} {c : Char} {cs : List Char}

/-! ## Texts of values -/

@[simp] theorem compact_object (es : List (String × Value)) :
    compact (.object es) = '\x7b' :: (compactEntries es ++ ['\x7d']) := by
  simp [compact]

theorem compactItems_cons_cons (v w : Value) (vs : List Value) :
    compactItems (v :: w :: vs) = compact v ++ ',' :: compactItems (w :: vs) := by
  simp [compactItems]

theorem compactEntries_cons_cons (k : String) (v : Value) (e : String × Value)
    (es : List (String × Value)) :
    compactEntries ((k, v) :: e :: es) =
      quote k ++ ':' :: (compact v ++ ',' :: compactEntries (e :: es)) := by
  simp [compactEntries]

/-! ## Characters of texts -/

theorem printableAscii_digitChar {d : Nat} (h : d < 16) : PrintableAscii d.digitChar := by
  have hall : ∀ d < 16, 32 ≤ d.digitChar.toNat ∧ d.digitChar.toNat < 127 := by decide
  exact hall d h

theorem printableAscii_of_mem_hexDigits {width n : Nat} (hc : c ∈ Text.hexDigits width n) :
    PrintableAscii c := by
  induction width generalizing n with
  | zero => cases hc
  | succ width ih =>
    rw [Text.hexDigits, List.mem_append, List.mem_singleton] at hc
    rcases hc with hc | rfl
    · exact ih hc
    · exact printableAscii_digitChar (Nat.mod_lt n (by decide))

theorem printableAscii_of_mem_escapeUnit {n : Nat} (hc : c ∈ escapeUnit n) : PrintableAscii c := by
  rw [escapeUnit, List.mem_cons, List.mem_cons] at hc
  rcases hc with rfl | rfl | hc
  · decide
  · decide
  · exact printableAscii_of_mem_hexDigits hc

/-- Two characters, of which the first is a backslash. -/
theorem printableAscii_of_mem_pair {d : Char} (hd : PrintableAscii d) (hc : c ∈ ['\\', d]) :
    PrintableAscii c := by
  rw [List.mem_cons, List.mem_singleton] at hc
  rcases hc with rfl | rfl
  · decide
  · exact hd

theorem printableAscii_of_mem_escape {d : Char} (hc : c ∈ escape d) : PrintableAscii c := by
  unfold escape at hc
  split_ifs at hc with hquote hslash hn hr ht hb hf hplain hunit
  · exact printableAscii_of_mem_pair (by decide) hc
  · exact printableAscii_of_mem_pair (by decide) hc
  · exact printableAscii_of_mem_pair (by decide) hc
  · exact printableAscii_of_mem_pair (by decide) hc
  · exact printableAscii_of_mem_pair (by decide) hc
  · exact printableAscii_of_mem_pair (by decide) hc
  · exact printableAscii_of_mem_pair (by decide) hc
  · rw [List.mem_singleton] at hc
    exact hc ▸ hplain
  · exact printableAscii_of_mem_escapeUnit hc
  · rw [List.mem_append] at hc
    exact hc.elim printableAscii_of_mem_escapeUnit printableAscii_of_mem_escapeUnit

theorem printableAscii_of_mem_quote {s : String} (hc : c ∈ quote s) : PrintableAscii c := by
  have hquote : PrintableAscii '"' := by decide
  rw [quote, List.mem_cons, List.mem_append, List.mem_singleton] at hc
  rcases hc with rfl | hc | rfl
  · exact hquote
  · obtain ⟨d, -, hc⟩ := List.mem_flatMap.mp hc
    exact printableAscii_of_mem_escape hc
  · exact hquote

theorem printableAscii_of_isDigit (hc : isDigit c = true) : PrintableAscii c := by
  simp only [isDigit, Bool.and_eq_true, decide_eq_true_eq, Char.le_def, UInt32.le_iff_toNat_le] at hc
  have hzero : '0'.val.toNat = 48 := rfl
  have hnine : '9'.val.toNat = 57 := rfl
  rw [PrintableAscii, Char.toNat]
  omega

theorem printableAscii_of_mem_integer {n : Int} (hc : c ∈ integer n) : PrintableAscii c := by
  have hdecimal (hc : c ∈ decimal n.natAbs) : PrintableAscii c :=
    printableAscii_of_isDigit (Text.isDigit_of_mem_decimal hc)
  unfold integer at hc
  split at hc
  · rcases List.mem_cons.mp hc with rfl | hc
    · decide
    · exact hdecimal hc
  · exact hdecimal hc

/-! ## Characters of numbers -/

section Numbers

open Binary64 (Decimal)

variable {d : Decimal}

theorem printableAscii_of_mem_decimal {n : Nat} (hc : c ∈ decimal n) : PrintableAscii c :=
  printableAscii_of_isDigit (Text.isDigit_of_mem_decimal hc)

theorem printableAscii_of_mem_shortest {m : Nat} {e : Int}
    (hc : c ∈ (Binary64.shortest m e).digits) : PrintableAscii c := by
  have hc := List.dropWhile_subset _ (List.mem_reverse.mp hc)
  exact printableAscii_of_mem_decimal (List.mem_reverse.mp hc)

theorem printableAscii_of_mem_replicate {n : Nat} (hc : c ∈ List.replicate n '0') :
    PrintableAscii c := by
  rw [List.eq_of_mem_replicate hc]
  decide

theorem printableAscii_of_mem_positional (hd : ∀ c ∈ d.digits, PrintableAscii c) :
    ∀ c ∈ Binary64.Format.write.positional d, PrintableAscii c := by
  have hplaces : ∀ c ∈ ['.', '0'], PrintableAscii c := Text.printableAscii_of_all (by decide)
  unfold Binary64.Format.write.positional
  split
  · simp only [List.forall_mem_cons, List.forall_mem_append]
    exact ⟨by decide, by decide, fun _ ↦ printableAscii_of_mem_replicate, hd⟩
  · extract_lets n
    split
    · simp only [List.forall_mem_append]
      exact ⟨⟨hd, fun _ ↦ printableAscii_of_mem_replicate⟩, hplaces⟩
    · simp only [List.forall_mem_append, List.forall_mem_cons]
      exact ⟨fun c hc ↦ hd c (List.mem_of_mem_take hc), by decide,
        fun c hc ↦ hd c (List.mem_of_mem_drop hc)⟩

theorem printableAscii_of_mem_scientific (hd : ∀ c ∈ d.digits, PrintableAscii c) :
    ∀ c ∈ Binary64.Format.write.scientific d, PrintableAscii c := by
  unfold Binary64.Format.write.scientific
  extract_lets x ds mantissa
  have hds : ∀ c ∈ ds, PrintableAscii c := fun _ ↦ printableAscii_of_mem_decimal
  have hmantissa : ∀ c ∈ mantissa, PrintableAscii c := by
    simp only [mantissa]
    split
    case h_1 c c' cs heq =>
      rw [heq] at hd
      simp only [List.forall_mem_cons] at hd ⊢
      exact ⟨hd.1, by decide, hd.2⟩
    case h_2 => exact hd
  have hsign : PrintableAscii (if x < 0 then '-' else '+') := by split <;> decide
  have hexponent : ∀ c ∈ (if ds.length < 2 then '0' :: ds else ds), PrintableAscii c := by
    split
    · exact List.forall_mem_cons.mpr ⟨by decide, hds⟩
    · exact hds
  simp only [List.forall_mem_append, List.forall_mem_cons]
  exact ⟨hmantissa, by decide, hsign, hexponent⟩

theorem printableAscii_of_mem_document (x : Binary64) :
    ∀ c ∈ Binary64.document.write x, PrintableAscii c := by
  have hsign (s : Bool) : ∀ c ∈ Binary64.Format.write.sign s, PrintableAscii c := by
    cases s <;> exact Text.printableAscii_of_all (by decide)
  unfold Binary64.Format.write
  split
  case h_1 => exact Text.printableAscii_of_all (by decide)
  case h_2 s =>
    exact List.forall_mem_append.mpr ⟨hsign s, Text.printableAscii_of_all (by decide)⟩
  case h_3 s _ =>
    exact List.forall_mem_append.mpr ⟨hsign s, Text.printableAscii_of_all (by decide)⟩
  case h_4 s m e _ =>
    have hd : ∀ c ∈ (Binary64.shortest m e).digits, PrintableAscii c :=
      fun _ ↦ printableAscii_of_mem_shortest
    refine List.forall_mem_append.mpr ⟨hsign s, ?_⟩
    split
    · exact printableAscii_of_mem_positional hd
    · exact printableAscii_of_mem_scientific hd

end Numbers

/-! ## Characters of values -/

theorem printableAscii_of_mem_scalar (v : Value) : ∀ c ∈ scalar v, PrintableAscii c := by
  unfold scalar
  split
  case h_1 | h_2 | h_3 => exact Text.printableAscii_of_all (by decide)
  case h_4 n => exact fun _ ↦ printableAscii_of_mem_integer
  case h_5 x => exact printableAscii_of_mem_document x
  case h_6 s => exact fun _ ↦ printableAscii_of_mem_quote
  case h_7 => nofun

theorem printableAscii_of_mem_enclosed {first last : Char} (hfirst : PrintableAscii first)
    (hlast : PrintableAscii last) (hcs : ∀ c ∈ cs, PrintableAscii c) :
    ∀ c ∈ first :: (cs ++ [last]), PrintableAscii c := by
  simpa [or_imp, forall_and] using ⟨hfirst, hcs, hlast⟩

mutual

/-- The text of a value is printable ASCII, whatever is in its strings. -/
theorem printableAscii_of_mem_compact (v : Value) : ∀ c ∈ compact v, PrintableAscii c := by
  cases v with
  | list vs | tuple vs =>
    rw [compact]
    exact printableAscii_of_mem_enclosed (by decide) (by decide) (printableAscii_of_mem_items vs)
  | object es =>
    rw [compact_object]
    exact printableAscii_of_mem_enclosed (by decide) (by decide) (printableAscii_of_mem_entries es)
  | null | bool | int | float | str | set | range =>
    rw [compact]
    · exact printableAscii_of_mem_scalar _
    all_goals nofun

theorem printableAscii_of_mem_items (vs : List Value) :
    ∀ c ∈ compactItems vs, PrintableAscii c := by
  cases vs with
  | nil => nofun
  | cons v ws =>
    cases ws with
    | nil => exact printableAscii_of_mem_compact v
    | cons w ws =>
      rw [compactItems_cons_cons, List.forall_mem_append, List.forall_mem_cons]
      exact ⟨printableAscii_of_mem_compact v, by decide, printableAscii_of_mem_items (w :: ws)⟩

theorem printableAscii_of_mem_entries (es : List (String × Value)) :
    ∀ c ∈ compactEntries es, PrintableAscii c := by
  cases es with
  | nil => nofun
  | cons e fs =>
    obtain ⟨k, v⟩ := e
    cases fs with
    | nil =>
      rw [compactEntries, List.forall_mem_append, List.forall_mem_cons]
      exact ⟨fun _ ↦ printableAscii_of_mem_quote, by decide, printableAscii_of_mem_compact v⟩
    | cons f fs =>
      rw [compactEntries_cons_cons]
      simp only [List.forall_mem_append, List.forall_mem_cons]
      exact ⟨fun _ ↦ printableAscii_of_mem_quote, by decide, printableAscii_of_mem_compact v,
        by decide, printableAscii_of_mem_entries (f :: fs)⟩

end

end Nftables.Json
