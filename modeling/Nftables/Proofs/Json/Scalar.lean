import Nftables.Json.Printer
import Nftables.Proofs.Json.Grammar
import Nftables.Proofs.Text.Digits

/-!
# Strings and integers read back

The text of a string or an integer is read as that string or integer, whatever follows it; an integer
may not have too many digits, and after it there may be nothing that would go on with the number.
-/

namespace Nftables.Json

open Text (isDigit decimal hasNumeral hexDigits integer maxDigits ofDigits)

/-! ## Characters -/

theorem hex4?_hexDigits {n : Nat} (h : n < 0x10000) (rest : List Char) :
    hex4? (hexDigits 4 n ++ rest) = some (n, rest) := by
  have hdigit (m : Nat) : m % 16 < 16 := Nat.mod_lt m (by decide)
  have hn : 16 * (16 * (16 * (n / 16 / 16 / 16 % 16) + n / 16 / 16 % 16) + n / 16 % 16) + n % 16 =
      n := by
    omega
  simp [Text.hexDigits_four, hex4?, Text.digitValue?_digitChar (hdigit _), ofDigits,
    Text.digitValue_digitChar (hdigit _), hn]

variable {c : Char} {rest : List Char}

theorem toNat_lt (c : Char) : c.toNat < 0x110000 := by
  have h := c.valid
  rw [UInt32.isValidChar, Nat.isValidChar] at h
  rw [Char.toNat]
  omega

/-- No character is a surrogate. -/
theorem not_surrogate (c : Char) : ¬(0xD800 ≤ c.toNat ∧ c.toNat ≤ 0xDFFF) := by
  have h := c.valid
  rw [UInt32.isValidChar, Nat.isValidChar] at h
  rw [Char.toNat]
  omega

theorem isHighSurrogate_iff {n : Nat} : isHighSurrogate n = true ↔ 0xD800 ≤ n ∧ n ≤ 0xDBFF := by
  rw [isHighSurrogate, Bool.and_eq_true, decide_eq_true_iff, decide_eq_true_iff]

theorem isLowSurrogate_iff {n : Nat} : isLowSurrogate n = true ↔ 0xDC00 ≤ n ∧ n ≤ 0xDFFF := by
  rw [isLowSurrogate, Bool.and_eq_true, decide_eq_true_iff, decide_eq_true_iff]

/-- A character of the first plane is read off its code unit. -/
theorem unicodeEscape_unit (start : List Char) (hc : c.toNat < 0x10000) (hrest : rest ≠ []) :
    unicodeEscape start (hexDigits 4 c.toNat ++ rest) = .ok (c, rest) := by
  have hsurrogate := not_surrogate c
  have hhigh : isHighSurrogate c.toNat = false := by
    rw [← Bool.not_eq_true, isHighSurrogate_iff]
    omega
  have hunit : unitChar c.toNat = c := by
    rw [unitChar, if_neg hsurrogate, Char.ofNat_toNat]
  rw [unicodeEscape, hex4?_hexDigits hc]
  cases rest with
  | nil => exact absurd rfl hrest
  | cons d ds => simp [hhigh, hunit]

/-- A pair of surrogates is read as one character. -/
theorem unicodeEscape_pair (start : List Char) {high low : Nat}
    (hhigh : isHighSurrogate high = true) (hlow : isLowSurrogate low = true) (hrest : rest ≠ []) :
    unicodeEscape start (hexDigits 4 high ++ (escapeUnit low ++ rest)) =
      .ok (Char.ofNat (joinSurrogates high low), rest) := by
  have hhigh' : high < 0x10000 := by
    have := isHighSurrogate_iff.mp hhigh
    omega
  have hlow' : low < 0x10000 := by
    have := isLowSurrogate_iff.mp hlow
    omega
  rw [unicodeEscape, hex4?_hexDigits hhigh', escapeUnit]
  simp [hhigh, hlow, hex4?_hexDigits hlow', hrest]

/-- What is beyond the first plane has a pair of surrogates. -/
theorem joinSurrogates_of_lt {m : Nat} (hm : m < 0x100000) :
    isHighSurrogate (0xD800 + m / 0x400) = true ∧ isLowSurrogate (0xDC00 + m % 0x400) = true ∧
      joinSurrogates (0xD800 + m / 0x400) (0xDC00 + m % 0x400) = 0x10000 + m := by
  refine ⟨isHighSurrogate_iff.mpr ?_, isLowSurrogate_iff.mpr ?_, ?_⟩
  · omega
  · omega
  · unfold joinSurrogates
    omega

theorem chars_escapeUnit (opening : List Char) (fuel : Nat) (hc : c.toNat < 0x10000)
    (hrest : rest ≠ []) :
    chars opening (fuel + 1) (escapeUnit c.toNat ++ rest) =
      (do let (cs, rest) ← chars opening fuel rest; .ok (c :: cs, rest)) := by
  simp [chars, escapeUnit, unicodeEscape_unit _ hc hrest, bind, Except.bind]

theorem chars_escapeUnits (opening : List Char) (fuel : Nat) {high low : Nat}
    (hhigh : isHighSurrogate high = true) (hlow : isLowSurrogate low = true)
    (hjoin : joinSurrogates high low = c.toNat) (hrest : rest ≠ []) :
    chars opening (fuel + 1) (escapeUnit high ++ escapeUnit low ++ rest) =
      (do let (cs, rest) ← chars opening fuel rest; .ok (c :: cs, rest)) := by
  rw [List.append_assoc, escapeUnit]
  simp [chars, unicodeEscape_pair _ hhigh hlow hrest, hjoin, bind, Except.bind]

/-- A character inside quotes is read as itself. -/
theorem chars_escape (opening : List Char) (fuel : Nat) (hrest : rest ≠ []) :
    chars opening (fuel + 1) (escape c ++ rest) =
      (do let (cs, rest) ← chars opening fuel rest; .ok (c :: cs, rest)) := by
  unfold escape
  split_ifs with hquote hslash hn hr ht hb hf hplain hunit
  · simp [chars, simpleEscape?, hquote]
  · simp [chars, simpleEscape?, hslash]
  · simp [chars, simpleEscape?, hn]
  · simp [chars, simpleEscape?, hr]
  · simp [chars, simpleEscape?, ht]
  · simp [chars, simpleEscape?, hb]
  · simp [chars, simpleEscape?, hf]
  · have hcontrol : ¬c.toNat < 32 := by omega
    simp [chars, hquote, hslash, hcontrol]
  · exact chars_escapeUnit opening fuel hunit hrest
  · have hlt := toNat_lt c
    obtain ⟨hhigh, hlow, hjoin⟩ := joinSurrogates_of_lt (m := c.toNat - 0x10000) (by omega)
    exact chars_escapeUnits opening fuel hhigh hlow (hjoin.trans (by omega)) hrest

/-! ## Strings -/

theorem chars_flatMap_escape (opening rest cs : List Char) {fuel : Nat} (h : cs.length < fuel) :
    chars opening fuel (cs.flatMap escape ++ '"' :: rest) = .ok (cs, rest) := by
  induction cs generalizing fuel with
  | nil =>
    obtain ⟨fuel, rfl⟩ := Nat.exists_eq_add_of_lt h
    simp [chars]
  | cons c cs ih =>
    obtain ⟨fuel, rfl⟩ : ∃ n, fuel = n + 1 := ⟨fuel - 1, by omega⟩
    rw [List.length_cons, Nat.add_lt_add_iff_right] at h
    rw [List.flatMap_cons, List.append_assoc, chars_escape opening fuel (by simp), ih h]
    rfl

theorem escape_ne_nil (c : Char) : escape c ≠ [] := by
  unfold escape
  split_ifs <;> simp [escapeUnit]

theorem length_le_length_flatMap_escape (cs : List Char) :
    cs.length ≤ (cs.flatMap escape).length := by
  induction cs with
  | nil => exact Nat.le_refl 0
  | cons c cs ih =>
    have hc := List.length_pos_iff.mpr (escape_ne_nil c)
    rw [List.length_cons, List.flatMap_cons, List.length_append]
    omega

/-- A text in quotes is read as the text. -/
theorem string_quote (s : String) (rest : List Char) :
    string (quote s ++ rest) = .ok (s, rest) := by
  have hlength := length_le_length_flatMap_escape s.toList
  have hfuel : s.toList.length < (quote s ++ rest).length := by
    simp only [quote, List.length_append, List.length_cons]
    omega
  have hdrop : (quote s ++ rest).drop 1 = s.toList.flatMap escape ++ '"' :: rest := by
    simp [quote]
  rw [string, hdrop, chars_flatMap_escape _ _ _ hfuel]
  simp [bind, Except.bind]

/-! ## Integers -/

/-- Nothing stands at the start of a text that would go on with an integer. -/
def EndsInteger (rest : List Char) : Prop :=
  ∀ c ∈ rest.head?, isDigit c = false ∧ c ≠ '.' ∧ c ≠ 'e' ∧ c ≠ 'E'

theorem takeWhile_isDigit {cs : List Char} (hcs : ∀ c ∈ cs, isDigit c = true)
    (hrest : ∀ c ∈ rest.head?, isDigit c = false) :
    (cs ++ rest).takeWhile isDigit = cs ∧ (cs ++ rest).dropWhile isDigit = rest := by
  have hstop : rest.takeWhile isDigit = [] ∧ rest.dropWhile isDigit = rest := by
    cases rest with
    | nil => exact ⟨rfl, rfl⟩
    | cons c rest =>
      have hc := hrest c rfl
      simp [hc]
  rw [List.takeWhile_append_of_pos hcs, List.dropWhile_append_of_pos hcs, hstop.1, hstop.2,
    List.append_nil]
  exact ⟨rfl, rfl⟩

theorem integerPart_of_integerText {cs : List Char} (h : IntegerText cs)
    (hrest : ∀ c ∈ rest.head?, isDigit c = false) :
    integerPart (cs ++ rest) = some (cs, rest) := by
  cases h with
  | zero => rfl
  | digits hzero h =>
    obtain ⟨hc, hcs⟩ := List.forall_mem_cons.mp h.2
    obtain ⟨htake, hdrop⟩ := takeWhile_isDigit hcs hrest
    rw [List.cons_append]
    unfold integerPart
    split
    case h_1 hcons =>
      cases hcons
      exact absurd rfl hzero
    case h_2 hcons =>
      cases hcons
      simp [hc, htake, hdrop]
    case h_3 hcons => cases hcons

theorem integerText_decimal (n : Nat) : IntegerText (decimal n) := by
  rcases Text.decimal_eq_cons n with ⟨-, heq⟩ | ⟨c, cs, hc, heq⟩
  · rw [heq]
    exact .zero
  · rw [heq]
    exact .digits hc ⟨by simp, fun d hd ↦ Text.isDigit_of_mem_decimal (heq ▸ hd)⟩

theorem fractionPart_of_ne_point (hrest : ∀ c ∈ rest.head?, c ≠ '.') :
    fractionPart rest = ([], rest) := by
  unfold fractionPart
  split
  case h_1 => exact absurd rfl (hrest '.' rfl)
  case h_2 => rfl

theorem exponentPart_of_endsInteger (hrest : EndsInteger rest) : exponentPart rest = none := by
  cases rest with
  | nil => rfl
  | cons c rest =>
    obtain ⟨-, -, he, hE⟩ := hrest c rfl
    simp [exponentPart, he, hE]

theorem hasNumeral_iff {n : Int} : hasNumeral n = true ↔ (decimal n.natAbs).length ≤ maxDigits := by
  rw [hasNumeral, decide_eq_true_iff]

theorem integerOf_decimal (negative : Bool) {n : Nat} (h : (decimal n).length ≤ maxDigits) :
    integerOf negative (decimal n) = .ok (.int (if negative then -(n : Int) else n)) := by
  rw [integerOf, if_neg (Nat.not_lt_of_le h), Text.ofDigits_decimal]

theorem unsigned_decimal (negative : Bool) {n : Nat} (h : (decimal n).length ≤ maxDigits)
    (hrest : EndsInteger rest) :
    unsigned negative (decimal n ++ rest) =
      .ok (.int (if negative then -(n : Int) else n), rest) := by
  have hwhole := integerPart_of_integerText (integerText_decimal n) fun c hc ↦ (hrest c hc).1
  have hfraction := fractionPart_of_ne_point fun c hc ↦ (hrest c hc).2.1
  simp [unsigned, hwhole, hfraction, exponentPart_of_endsInteger hrest, integerOf_decimal negative h,
    bind, Except.bind]

/-- A numeral starts with a digit, which tells it from everything else. -/
theorem exists_decimal_eq_cons (n : Nat) : ∃ c cs, decimal n = c :: cs ∧ isDigit c = true := by
  rcases Text.decimal_eq_cons n with ⟨-, heq⟩ | ⟨c, cs, -, heq⟩
  · exact ⟨'0', [], heq, rfl⟩
  · exact ⟨c, cs, heq, Text.isDigit_of_mem_decimal (heq ▸ List.mem_cons_self)⟩

/-- No word goes on like a numeral, with a sign or without. -/
theorem findSome?_words {c : Char} (hc : isDigit c = true) (cs : List Char) :
    (words.findSome? fun (w, v) ↦ (after? w (c :: cs)).map (v, ·)) = none ∧
      (words.findSome? fun (w, v) ↦ (after? w ('-' :: c :: cs)).map (v, ·)) = none := by
  have hne {d : Char} (hd : isDigit d = false) : d ≠ c := by
    rintro rfl
    cases hd.symm.trans hc
  have hn : 'n' ≠ c := hne rfl
  have ht : 't' ≠ c := hne rfl
  have hf : 'f' ≠ c := hne rfl
  have hN : 'N' ≠ c := hne rfl
  have hI : 'I' ≠ c := hne rfl
  have hminus : '-' ≠ c := hne rfl
  simp [words, after?, hn, ht, hf, hN, hI, hminus]

theorem number_of_ne_minus {c : Char} (hc : c ≠ '-') {cs : List Char} {v : Value}
    (h : unsigned false (c :: cs) = .ok (v, rest)) : number (c :: cs) = .ok (v, rest) := by
  unfold number
  split
  case h_1 hcons =>
    cases hcons
    exact absurd rfl hc
  case h_2 => simp [h]

/-- The numeral of an integer is read as the integer. -/
theorem atom_integer {n : Int} (hn : hasNumeral n = true) (hrest : EndsInteger rest) :
    atom (integer n ++ rest) = .ok (.int n, rest) := by
  obtain ⟨c, cs, heq, hc⟩ := exists_decimal_eq_cons n.natAbs
  obtain ⟨hplain, hsigned⟩ := findSome?_words hc (cs ++ rest)
  have hunsigned {negative : Bool}
      (hvalue : (if negative then -(n.natAbs : Int) else n.natAbs) = n) :
      unsigned negative (c :: (cs ++ rest)) = .ok (.int n, rest) := by
    rw [← List.cons_append, ← heq, unsigned_decimal negative (hasNumeral_iff.mp hn) hrest, hvalue]
  unfold integer
  split
  case isTrue hnegative =>
    have hread : unsigned true (c :: (cs ++ rest)) = .ok (.int n, rest) := by
      refine hunsigned ?_
      rw [if_pos rfl]
      omega
    rw [heq, List.cons_append, List.cons_append, atom, hsigned]
    simp [number, hread]
  case isFalse hnegative =>
    have hminus : c ≠ '-' := by
      rintro rfl
      cases hc
    have hread : unsigned false (c :: (cs ++ rest)) = .ok (.int n, rest) := by
      refine hunsigned ?_
      rw [if_neg Bool.false_ne_true]
      omega
    rw [heq, List.cons_append, atom, hplain]
    exact number_of_ne_minus hminus hread

end Nftables.Json
