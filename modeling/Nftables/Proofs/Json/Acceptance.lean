import Nftables.Proofs.Json.RoundTrip

/-!
# Documents are accepted

The reader refuses nothing that can be read: whatever the grammar derives with the room there is, and
with integers of not too many digits, is read.
-/

namespace Nftables.Json

open Text (isDigit maxDigits)

variable {N : List Char → Prop} {c : Char} {cs ds ws text rest : List Char} {depth fuel : Nat}

/-! ## Strings -/

theorem hex4?_of_hexDigit {x y z w : Char} (hx : HexDigit x) (hy : HexDigit y) (hz : HexDigit z)
    (hw : HexDigit w) (rest : List Char) :
    hex4? (x :: y :: z :: w :: rest) = some (Text.ofDigits 16 [x, y, z, w], rest) := by
  unfold HexDigit at hx hy hz hw
  simp [hex4?, hx, hy, hz, hw]

/-- An escape is read for itself if no other one follows. -/
theorem unicodeEscape_of_single (start : List Char) {n : Nat} (hfirst : hex4? text = some (n, rest))
    (hne : rest ≠ []) (hnot : ∀ rest', rest ≠ '\\' :: 'u' :: rest') :
    unicodeEscape start text = .ok (unitChar n, rest) := by
  unfold unicodeEscape
  split
  case h_1 hnone => cases hfirst.symm.trans hnone
  case h_2 hempty =>
    cases hfirst.symm.trans hempty
    exact absurd rfl hne
  case h_3 hsome =>
    cases hfirst.symm.trans hsome
    split
    case h_1 => exact absurd rfl (hnot _)
    case h_2 => rfl

/-- Of two escapes in a row the second one is read too, if the two are a pair. -/
theorem unicodeEscape_of_double (start : List Char) {n m : Nat} {rest' : List Char}
    (hfirst : hex4? text = some (n, '\\' :: 'u' :: rest'))
    (hsecond : hex4? rest' = some (m, rest)) (hne : rest ≠ []) :
    ∃ c, unicodeEscape start text = .ok (c, '\\' :: 'u' :: rest') ∨
      unicodeEscape start text = .ok (c, rest) := by
  cases hhigh : isHighSurrogate n with
  | false => exact ⟨unitChar n, .inl (by simp [unicodeEscape, hfirst, hhigh])⟩
  | true =>
    cases hlow : isLowSurrogate m with
    | false =>
      exact ⟨unitChar n, .inl (by simp [unicodeEscape, hfirst, hhigh, hsecond, hlow])⟩
    | true =>
      exact ⟨Char.ofNat (joinSurrogates n m),
        .inr (by simp [unicodeEscape, hfirst, hhigh, hsecond, hlow, hne])⟩

/-- After the digits of an escape all is left that may stand between quotes, but for the second half
of a pair. -/
theorem unicodeEscape_of_quotable (start rest : List Char) {x y z w : Char} (hx : HexDigit x)
    (hy : HexDigit y) (hz : HexDigit z) (hw : HexDigit w) (h : Quotable ds) :
    ∃ c cs, Quotable cs ∧ cs.length ≤ ds.length ∧
      unicodeEscape start (x :: y :: z :: w :: (ds ++ '"' :: rest)) =
        .ok (c, cs ++ '"' :: rest) := by
  have hfirst := hex4?_of_hexDigit hx hy hz hw (ds ++ '"' :: rest)
  have hsingle (hnot : ∀ rest', ds ++ '"' :: rest ≠ '\\' :: 'u' :: rest') :
      ∃ c cs, Quotable cs ∧ cs.length ≤ ds.length ∧
        unicodeEscape start (x :: y :: z :: w :: (ds ++ '"' :: rest)) =
          .ok (c, cs ++ '"' :: rest) :=
    ⟨_, ds, h, Nat.le_refl _, unicodeEscape_of_single start hfirst (by simp) hnot⟩
  cases h with
  | nil => exact hsingle (by simp)
  | plain hquote hslash => exact hsingle fun _ heq ↦ hslash (List.cons.inj heq).1
  | escape hc =>
    refine hsingle fun _ heq ↦ ?_
    obtain rfl := (List.cons.inj (List.cons.inj heq).2).1
    exact absurd hc (by decide)
  | @unicode x' y' z' w' ds hx' hy' hz' hw' h =>
    have hsecond := hex4?_of_hexDigit hx' hy' hz' hw' (ds ++ '"' :: rest)
    obtain ⟨c, hc | hc⟩ := unicodeEscape_of_double start hfirst hsecond (by simp)
    · exact ⟨c, _, .unicode hx' hy' hz' hw' h, Nat.le_refl _, hc⟩
    · exact ⟨c, ds, h, by simp only [List.length_cons]; omega, hc⟩

/-- What may stand between quotes is read up to the closing one. -/
theorem chars_of_quotable (opening rest : List Char) (h : Quotable ds) (hfuel : ds.length < fuel) :
    ∃ cs, chars opening fuel (ds ++ '"' :: rest) = .ok (cs, rest) := by
  induction fuel generalizing ds with
  | zero => exact absurd hfuel (Nat.not_lt_zero _)
  | succ fuel ih =>
    cases h with
    | nil => exact ⟨[], by simp [chars]⟩
    | @plain c ds hquote hslash hcontrol h =>
      obtain ⟨cs, hcs⟩ := ih h (by simpa using hfuel)
      exact ⟨c :: cs, by simp [chars, hquote, hslash, Nat.not_lt_of_le hcontrol, hcs, bind,
        Except.bind]⟩
    | @escape c ds hc h =>
      simp only [List.length_cons] at hfuel
      obtain ⟨cs, hcs⟩ := ih h (by omega)
      obtain ⟨d, hd⟩ := Option.isSome_iff_exists.mp (simpleEscape?_isSome_iff.mpr hc)
      -- the escape of four digits is told from this one, which simp takes from the context
      have hu : c ≠ 'u' := by
        rintro rfl
        cases hd
      exact ⟨d :: cs, by simp [chars, hd, hcs, bind, Except.bind]⟩
    | @unicode x y z w ds hx hy hz hw h =>
      simp only [List.length_cons] at hfuel
      obtain ⟨c, ds', hds', hlength, hc⟩ := unicodeEscape_of_quotable
        ('u' :: x :: y :: z :: w :: (ds ++ '"' :: rest)) rest hx hy hz hw h
      obtain ⟨cs, hcs⟩ := ih hds' (by omega)
      exact ⟨c :: cs, by simp [chars, hc, hcs, bind, Except.bind]⟩

theorem string_of_stringText (h : StringText ds) (rest : List Char) :
    ∃ s, string (ds ++ rest) = .ok (s, rest) := by
  obtain @⟨ds, hds⟩ := h
  have hdrop : ('"' :: (ds ++ ['"']) ++ rest).drop 1 = ds ++ '"' :: rest := by simp
  have hfuel : ds.length < ('"' :: (ds ++ ['"']) ++ rest).length := by
    simp only [List.length_append, List.length_cons]
    omega
  obtain ⟨cs, hcs⟩ := chars_of_quotable ('"' :: (ds ++ ['"']) ++ rest) rest hds hfuel
  refine ⟨String.ofList cs, ?_⟩
  rw [string, hdrop, hcs]
  rfl

/-! ## Numbers -/

/-- What may follow a number: nothing that would go on with it. -/
theorem head_of_exponentText (h : ExponentText cs) (hrest : EndsInteger rest) :
    ∀ c ∈ (cs ++ rest).head?, isDigit c = false ∧ c ≠ '.' := by
  cases h with
  | none => exact fun c hc ↦ ⟨(hrest c hc).1, (hrest c hc).2.1⟩
  | exponent he =>
    rintro _ ⟨⟩
    rcases he with rfl | rfl <;> decide

theorem head_of_fractionText (h : FractionText cs) (hrest : ∀ c ∈ rest.head?, isDigit c = false) :
    ∀ c ∈ (cs ++ rest).head?, isDigit c = false := by
  cases h with
  | none => exact hrest
  | point =>
    rintro _ ⟨⟩
    decide

theorem fractionPart_of_fractionText (h : FractionText cs)
    (hrest : ∀ c ∈ rest.head?, isDigit c = false ∧ c ≠ '.') :
    fractionPart (cs ++ rest) = (cs.drop 1, rest) := by
  cases h with
  | none => exact fractionPart_of_ne_point fun c hc ↦ (hrest c hc).2
  | @point ds h =>
    obtain ⟨hne, hdigits⟩ := h
    cases ds with
    | nil => exact absurd rfl hne
    | cons d ds =>
      obtain ⟨hd, hds⟩ := List.forall_mem_cons.mp hdigits
      obtain ⟨htake, hdrop⟩ := takeWhile_isDigit hds fun c hc ↦ (hrest c hc).1
      simp [fractionPart, hd, htake, hdrop]

theorem exponentSign_of_digits {sign : List Char} (hsign : sign ∈ [[], ['+'], ['-']])
    (h : Digits ds) : (exponentSign (sign ++ (ds ++ rest))).2 = ds ++ rest := by
  simp only [List.mem_cons, List.not_mem_nil, or_false] at hsign
  rcases hsign with rfl | rfl | rfl
  · obtain ⟨hne, hdigits⟩ := h
    cases ds with
    | nil => exact absurd rfl hne
    | cons d ds =>
      have hd := hdigits d List.mem_cons_self
      simp only [List.nil_append, List.cons_append]
      unfold exponentSign
      split
      case h_1 heq =>
        cases heq
        cases hd
      case h_2 heq =>
        cases heq
        cases hd
      case h_3 => rfl
  · rfl
  · rfl

theorem exponentPart_of_exponentText (h : ExponentText cs) (hrest : EndsInteger rest) :
    cs = [] ∧ exponentPart (cs ++ rest) = none ∨
      ∃ n, exponentPart (cs ++ rest) = some (n, rest) := by
  cases h with
  | none => exact .inl ⟨rfl, exponentPart_of_endsInteger hrest⟩
  | @exponent e sign ds he hsign h =>
    right
    have hdigits : (exponentSign (sign ++ (ds ++ rest))).2 = ds ++ rest :=
      exponentSign_of_digits hsign h
    obtain ⟨htake, hdrop⟩ := takeWhile_isDigit h.2 fun c hc ↦ (hrest c hc).1
    simp [exponentPart, he, hdigits, htake, hdrop, h.1]

theorem digits_of_integerText (h : IntegerText cs) : Digits cs := by
  cases h with
  | zero => exact ⟨by simp, List.forall_mem_singleton.mpr rfl⟩
  | digits _ h => exact h

theorem exists_integerOf (negative : Bool) (h : cs.length ≤ maxDigits) :
    ∃ v, integerOf negative cs = .ok v := by
  rw [integerOf, if_neg (Nat.not_lt_of_le h)]
  exact ⟨_, rfl⟩

theorem unsigned_of_readable (negative : Bool) (h : ReadableUnsigned cs)
    (hrest : EndsInteger rest) : ∃ v, unsigned negative (cs ++ rest) = .ok (v, rest) := by
  obtain @⟨⟨hwhole, hfraction, hexponent⟩, hlength⟩ := h
  rename_i whole fraction exponent
  have hend := head_of_exponentText hexponent hrest
  have hinteger := integerPart_of_integerText hwhole
    (head_of_fractionText hfraction fun c hc ↦ (hend c hc).1)
  have hpoint := fractionPart_of_fractionText hfraction hend
  have hassoc :
      whole ++ (fraction ++ exponent) ++ rest = whole ++ (fraction ++ (exponent ++ rest)) := by simp
  simp only [unsigned, hassoc, hinteger, hpoint]
  rcases exponentPart_of_exponentText hexponent hrest with ⟨rfl, hnone⟩ | ⟨n, hsome⟩
  · simp only [List.nil_append] at hnone ⊢
    rw [hnone]
    cases hfraction with
    | none =>
      obtain ⟨v, hv⟩ := exists_integerOf negative
        (by simpa using hlength (by simpa using digits_of_integerText hwhole))
      exact ⟨v, by simp [hv, bind, Except.bind]⟩
    | @point ds h =>
      cases ds with
      | nil => exact absurd rfl h.1
      | cons d ds => exact ⟨_, rfl⟩
  · rw [hsome]
    split
    case h_1 hnone => cases hnone
    case h_2 => exact ⟨_, rfl⟩

theorem exists_digit_of_unsignedText (h : UnsignedText cs) :
    ∃ c ds, cs = c :: ds ∧ isDigit c = true := by
  obtain @⟨whole, fraction, exponent, hwhole, -, -⟩ := h
  cases hwhole with
  | zero => exact ⟨'0', _, rfl, rfl⟩
  | digits _ h => exact ⟨_, _, rfl, h.2 _ List.mem_cons_self⟩

/-- A number is read, if nothing follows that would go on with it. -/
theorem atom_of_readable (h : ReadableNumber cs) (hrest : EndsInteger rest) :
    ∃ v, atom (cs ++ rest) = .ok (v, rest) := by
  cases h with
  | positive h =>
    obtain ⟨v, hv⟩ := unsigned_of_readable false h hrest
    obtain ⟨c, ds, rfl, hc⟩ := exists_digit_of_unsignedText h.1
    have hminus : c ≠ '-' := by
      rintro rfl
      cases hc
    refine ⟨v, ?_⟩
    rw [List.cons_append] at hv ⊢
    rw [atom, (findSome?_words hc _).1]
    exact number_of_ne_minus hminus hv
  | negative h =>
    obtain ⟨v, hv⟩ := unsigned_of_readable true h hrest
    obtain ⟨c, ds, rfl, hc⟩ := exists_digit_of_unsignedText h.1
    refine ⟨v, ?_⟩
    rw [List.cons_append] at hv
    rw [List.cons_append, List.cons_append, atom, (findSome?_words hc _).2]
    simp [number, hv]

theorem atom_of_wordText (h : WordText cs) : ∃ v, atom (cs ++ rest) = .ok (v, rest) := by
  simp only [WordText, List.map_cons, List.map_nil, List.mem_cons, List.not_mem_nil, or_false] at h
  rcases h with rfl | rfl | rfl | rfl | rfl | rfl <;> exact ⟨_, rfl⟩

/-! ## Values and their parts -/

theorem exists_start_of_value (hN : ∀ cs, N cs → NumberText cs) (h : Derives N depth .value cs) : ∃ c ds, cs = c :: ds ∧ Starts c := by
  cases h with
  | string h =>
    cases h
    exact ⟨_, _, rfl, rfl, by decide⟩
  | number h =>
    cases hN _ h with
    | positive h =>
      obtain ⟨c, ds, rfl, hc⟩ := exists_digit_of_unsignedText h
      exact ⟨c, ds, rfl, starts_of_isDigit hc⟩
    | negative => exact ⟨_, _, rfl, rfl, by decide⟩
  | word h =>
    simp only [WordText, List.map_cons, List.map_nil, List.mem_cons, List.not_mem_nil,
      or_false] at h
    rcases h with rfl | rfl | rfl | rfl | rfl | rfl <;> exact ⟨_, _, rfl, rfl, by decide⟩
  | emptyList | list | emptyObject | object => exact ⟨_, _, rfl, rfl, by decide⟩

/-- After the blanks before it, a part starts with its first value or key. -/
theorem exists_start {p : Part} (hN : ∀ cs, N cs → NumberText cs) (h : Derives N depth p cs)
    (rest : List Char) :
    ∃ c ds, skipSpace (cs ++ rest) = c :: ds ∧ Starts c := by
  have hvalue (depth : Nat) {cs rest : List Char} (h : Derives N depth .value cs) :
      ∃ c ds, skipSpace (cs ++ rest) = c :: ds ∧ Starts c := by
    obtain ⟨c, ds, rfl, hc⟩ := exists_start_of_value hN h
    exact ⟨c, ds ++ rest, skipSpace_cons hc.1, hc⟩
  have hkey {pre key more rest : List Char} (hpre : Blank pre) (hkey : StringText key) :
      ∃ c ds, skipSpace (pre ++ (key ++ more) ++ rest) = c :: ds ∧ Starts c := by
    cases hkey
    rw [List.append_assoc, skipSpace_append hpre]
    exact ⟨_, _, skipSpace_cons rfl, rfl, by decide⟩
  induction h generalizing rest with
  | string h => exact hvalue 0 (.string h)
  | number h => exact hvalue 0 (.number h)
  | word h => exact hvalue 0 (.word h)
  | emptyList h => exact hvalue 1 (.emptyList h)
  | list h => exact hvalue _ (.list h)
  | emptyObject h => exact hvalue 1 (.emptyObject h)
  | object h => exact hvalue _ (.object h)
  | element hpre _ _ ih =>
    rw [List.append_assoc, skipSpace_append hpre, List.append_assoc]
    exact ih _
  | lastItem _ ih => exact ih rest
  | item _ _ ih =>
    rw [List.append_assoc]
    exact ih _
  | lastEntry hpre hk => exact hkey hpre hk
  | entry hpre hk => exact hkey hpre hk

/-! ## Acceptance -/

/-- What may follow an element. -/
def Closes (rest : List Char) : Prop :=
  ∀ c ∈ rest.head?, c ∈ [',', ']', '\x7d']

/-- A part is read, whatever follows that may follow it, given twice as much fuel as it is long. -/
def Accepts (depth : Nat) : Part → List Char → Prop
  | .value, cs => ∀ (fuel : Nat) (rest : List Char), 2 * cs.length ≤ fuel → EndsInteger rest →
      ∃ v, value depth fuel (cs ++ rest) = .ok (v, rest)
  | .element, cs => ∀ (fuel : Nat) (rest : List Char), 2 * cs.length ≤ fuel → Closes rest →
      ∃ v rest', value depth fuel (skipSpace (cs ++ rest)) = .ok (v, rest') ∧ skipSpace rest' = rest
  | .items, cs => ∀ (fuel : Nat) (rest : List Char), 2 * cs.length < fuel →
      ∃ vs, items depth fuel (skipSpace (cs ++ ']' :: rest)) = .ok (vs, rest)
  | .entries, cs => ∀ (fuel : Nat) (es : List (String × Value)) (rest : List Char),
      2 * cs.length < fuel →
      ∃ es', entries depth fuel es (skipSpace (cs ++ '\x7d' :: rest)) = .ok (es', rest)

theorem closes_cons (hc : c ∈ [',', ']', '\x7d']) : Closes (c :: rest) := by
  rintro _ ⟨⟩
  exact hc

theorem endsInteger_of_closes (h : Closes rest) : EndsInteger rest := by
  intro c hc
  have hc := h c hc
  simp only [List.mem_cons, List.not_mem_nil, or_false] at hc
  rcases hc with rfl | rfl | rfl <;> decide

theorem skipSpace_of_closes (h : Closes rest) : skipSpace rest = rest := by
  cases rest with
  | nil => rfl
  | cons c rest =>
    have hc := h c rfl
    simp only [List.mem_cons, List.not_mem_nil, or_false] at hc
    rcases hc with rfl | rfl | rfl <;> rfl

/-- No value is empty, so there is always fuel for it. -/
theorem accepts_of_succ (h : Derives ReadableNumber depth .value cs)
    (hread : ∀ (fuel : Nat) (rest : List Char), 2 * cs.length ≤ fuel + 1 → EndsInteger rest →
      ∃ v, value depth (fuel + 1) (cs ++ rest) = .ok (v, rest)) : Accepts depth .value cs := by
  intro fuel rest hfuel hrest
  obtain ⟨c, ds, rfl, -⟩ := exists_start_of_value (fun _ ↦ ReadableNumber.numberText) h
  cases fuel with
  | zero => simp at hfuel
  | succ fuel => exact hread fuel rest hfuel hrest

theorem accepts_string (h : StringText cs) : Accepts depth .value cs := by
  refine accepts_of_succ (.string h) fun fuel rest _ _ ↦ ?_
  obtain ⟨s, hs⟩ := string_of_stringText h rest
  cases h
  rw [List.cons_append] at hs ⊢
  refine ⟨.str s, ?_⟩
  rw [value, hs]
  rfl

/-- Numbers and words start like nothing else. -/
theorem accepts_atom (h : Derives ReadableNumber depth .value cs)
    (hatom : ∀ rest, EndsInteger rest → ∃ v, atom (cs ++ rest) = .ok (v, rest))
    (hstart : ∀ c ∈ cs.head?, c ∉ ['"', '[', '\x7b']) : Accepts depth .value cs := by
  refine accepts_of_succ h fun fuel rest _ hrest ↦ ?_
  obtain ⟨c, ds, rfl, -⟩ := exists_start_of_value (fun _ ↦ ReadableNumber.numberText) h
  obtain ⟨v, hv⟩ := hatom rest hrest
  rw [List.cons_append] at hv ⊢
  exact ⟨v, by rw [value_of_notMem (hstart c rfl), hv]⟩

theorem accepts_element {pre post : List Char} (hpre : Blank pre) (h : Derives ReadableNumber depth .value cs)
    (hvalue : Accepts depth .value cs) (hpost : Blank post) : Accepts depth .element (pre ++ (cs ++ post)) := by
  intro fuel rest hfuel hrest
  simp only [List.length_append] at hfuel
  obtain ⟨v, hv⟩ := hvalue fuel (post ++ rest) (by omega) 
    (endsInteger_append hpost (endsInteger_of_closes hrest))
  refine ⟨v, post ++ rest, ?_, ?_⟩
  · obtain ⟨c, ds, rfl, hc⟩ := exists_start_of_value (fun _ ↦ ReadableNumber.numberText) h
    rw [List.append_assoc, skipSpace_append hpre, List.append_assoc, List.cons_append,
      skipSpace_cons hc.1]
    exact hv
  · rw [skipSpace_append hpost, skipSpace_of_closes hrest]

theorem accepts_list (h : Derives ReadableNumber depth .items cs) (hitems : Accepts depth .items cs) :
    Accepts (depth + 1) .value ('[' :: (cs ++ [']'])) := by
  refine accepts_of_succ (.list h) fun fuel rest hfuel _ ↦ ?_
  simp only [List.length_cons, List.length_append, List.length_nil] at hfuel
  obtain ⟨vs, hvs⟩ := hitems fuel rest (by omega)
  obtain ⟨c, ds, hskip, hc⟩ := exists_start (fun _ ↦ ReadableNumber.numberText) h (']' :: rest)
  have hne : c ≠ ']' := fun h ↦ hc.2 (by simp [h])
  refine ⟨.list vs, ?_⟩
  rw [hskip] at hvs
  simp [value, hskip, hne, hvs, bind, Except.bind]

theorem accepts_object (h : Derives ReadableNumber depth .entries cs) (hentries : Accepts depth .entries cs) :
    Accepts (depth + 1) .value ('\x7b' :: (cs ++ ['\x7d'])) := by
  refine accepts_of_succ (.object h) fun fuel rest hfuel _ ↦ ?_
  simp only [List.length_cons, List.length_append, List.length_nil] at hfuel
  obtain ⟨es, hes⟩ := hentries fuel [] rest (by omega)
  obtain ⟨c, ds, hskip, hc⟩ := exists_start (fun _ ↦ ReadableNumber.numberText) h ('\x7d' :: rest)
  have hne : c ≠ '\x7d' := fun h ↦ hc.2 (by simp [h])
  refine ⟨.object es, ?_⟩
  rw [hskip] at hes
  simp [value, hskip, hne, hes, bind, Except.bind]

theorem accepts_lastItem (h : Accepts depth .element cs) : Accepts depth .items cs := by
  intro fuel rest hfuel
  obtain ⟨fuel, rfl⟩ := Nat.exists_eq_add_one_of_ne_zero (Nat.ne_zero_of_lt hfuel)
  obtain ⟨v, rest', hv, hclose⟩ := h fuel (']' :: rest) (by omega) (closes_cons (by decide))
  refine ⟨[v], ?_⟩
  rw [items, hv]
  simp [hclose, bind, Except.bind]

theorem accepts_item (h : Accepts depth .element cs) (hs : Accepts depth .items ds) :
    Accepts depth .items (cs ++ ',' :: ds) := by
  intro fuel rest hfuel
  obtain ⟨fuel, rfl⟩ := Nat.exists_eq_add_one_of_ne_zero (Nat.ne_zero_of_lt hfuel)
  simp only [List.length_append, List.length_cons] at hfuel
  obtain ⟨v, rest', hv, hcomma⟩ :=
    h fuel (',' :: (ds ++ ']' :: rest)) (by omega) (closes_cons (by decide))
  obtain ⟨vs, hvs⟩ := hs fuel rest (by omega)
  refine ⟨v :: vs, ?_⟩
  rw [List.append_assoc, List.cons_append, items, hv]
  simp [hcomma, hvs, bind, Except.bind]

/-- An entry is read up to what follows its value, which says how to go on. -/
theorem entries_of_element {pre key post more : List Char} (hpre : Blank pre)
    (hkey : StringText key) (hpost : Blank post) (h : Accepts depth .element cs)
    (hfuel : 2 * cs.length ≤ fuel) (hmore : Closes (c :: more)) (es : List (String × Value)) :
    ∃ k v, ∀ r, (match c :: more with
        | '\x7d' :: rest => .ok (Value.insert k v es, rest)
        | ',' :: rest => entries depth fuel (Value.insert k v es) (skipSpace rest)
        | rest => fail .expectedComma rest) = r →
      entries depth (fuel + 1) es
        (skipSpace (pre ++ (key ++ (post ++ ':' :: (cs ++ c :: more))))) = r := by
  obtain ⟨k, hk⟩ := string_of_stringText hkey (post ++ ':' :: (cs ++ c :: more))
  obtain ⟨v, rest', hv, hclose⟩ := h fuel (c :: more) hfuel hmore
  refine ⟨k, v, fun r hr ↦ ?_⟩
  have hcolon : skipSpace (post ++ ':' :: (cs ++ c :: more)) = ':' :: (cs ++ c :: more) := by
    rw [skipSpace_append hpost, skipSpace_cons rfl]
  cases hkey
  rw [skipSpace_append hpre, List.cons_append, skipSpace_cons rfl]
  rw [List.cons_append] at hk
  simp only [entries, hk, bind, Except.bind, hcolon, hv, hclose]
  exact hr

theorem accepts_lastEntry {pre key post : List Char} (hpre : Blank pre) (hkey : StringText key)
    (hpost : Blank post) (h : Accepts depth .element cs) :
    Accepts depth .entries (pre ++ (key ++ (post ++ ':' :: cs))) := by
  intro fuel es rest hfuel
  obtain ⟨fuel, rfl⟩ := Nat.exists_eq_add_one_of_ne_zero (Nat.ne_zero_of_lt hfuel)
  simp only [List.length_append, List.length_cons] at hfuel
  have hfuel' : 2 * cs.length ≤ fuel := by omega
  have hclose : Closes ('\x7d' :: rest) := closes_cons (by decide)
  obtain ⟨k, v, heq⟩ := entries_of_element hpre hkey hpost h hfuel' hclose es
  refine ⟨Value.insert k v es, ?_⟩
  simp only [List.append_assoc, List.cons_append]
  exact heq _ rfl

theorem accepts_entry {pre key post : List Char} (hpre : Blank pre) (hkey : StringText key)
    (hpost : Blank post) (h : Accepts depth .element cs) (hs : Accepts depth .entries ds) :
    Accepts depth .entries (pre ++ (key ++ (post ++ ':' :: (cs ++ ',' :: ds)))) := by
  intro fuel es rest hfuel
  obtain ⟨fuel, rfl⟩ := Nat.exists_eq_add_one_of_ne_zero (Nat.ne_zero_of_lt hfuel)
  simp only [List.length_append, List.length_cons] at hfuel
  have hfuel' : 2 * cs.length ≤ fuel := by omega
  have hcomma : Closes (',' :: (ds ++ '\x7d' :: rest)) := closes_cons (by decide)
  obtain ⟨k, v, heq⟩ := entries_of_element hpre hkey hpost h hfuel' hcomma es
  obtain ⟨es', hes'⟩ := hs fuel (Value.insert k v es) rest (by omega)
  refine ⟨es', ?_⟩
  simp only [List.append_assoc, List.cons_append]
  exact heq _ hes'

/-- Whatever the grammar derives is read. -/
theorem accepts_of_derives {p : Part} (h : Derives ReadableNumber depth p cs) : Accepts depth p cs := by
  induction h with
  | string h => exact accepts_string h
  | number h =>
    refine accepts_atom (.number h) (fun _ ↦ atom_of_readable h) ?_
    rintro c hc
    cases h with
    | positive h =>
      obtain ⟨d, ds, rfl, hd⟩ := exists_digit_of_unsignedText h.1
      cases hc
      intro hmem
      simp only [List.mem_cons, List.not_mem_nil, or_false] at hmem
      rcases hmem with rfl | rfl | rfl <;> cases hd
    | negative =>
      cases hc
      decide
  | word h =>
    refine accepts_atom (.word h) (fun _ _ ↦ atom_of_wordText h) ?_
    simp only [WordText, List.map_cons, List.map_nil, List.mem_cons, List.not_mem_nil,
      or_false] at h
    rcases h with rfl | rfl | rfl | rfl | rfl | rfl <;> (rintro _ ⟨⟩; decide)
  | emptyList h =>
    refine accepts_of_succ (.emptyList h) fun fuel rest _ _ ↦ ⟨.list [], ?_⟩
    have hskip := skipSpace_append h (']' :: rest)
    simp [value, hskip, skipSpace_cons (show isSpace ']' = false from rfl)]
  | list h ih => exact accepts_list h ih
  | emptyObject h =>
    refine accepts_of_succ (.emptyObject h) fun fuel rest _ _ ↦ ⟨.object [], ?_⟩
    have hskip := skipSpace_append h ('\x7d' :: rest)
    simp [value, hskip, skipSpace_cons (show isSpace '\x7d' = false from rfl)]
  | object h ih => exact accepts_object h ih
  | element hpre h hpost ih => exact accepts_element hpre h ih hpost
  | lastItem _ ih => exact accepts_lastItem ih
  | item _ _ ih ihs => exact accepts_item ih ihs
  | lastEntry hpre hkey hpost _ ih => exact accepts_lastEntry hpre hkey hpost ih
  | entry hpre hkey hpost _ _ ih ihs => exact accepts_entry hpre hkey hpost ih ihs

/-- **A text is read if and only if it can be read.** -/
theorem exists_parse_iff {room : Nat} : (∃ v, parse room text = .ok v) ↔ IsReadable room text := by
  constructor
  · rintro ⟨v, h⟩
    exact isReadable_of_parse h
  · intro h
    obtain ⟨v, rest, hv, hend⟩ :=
      accepts_of_derives h (2 * text.length + 2) [] (by omega) nofun
    rw [List.append_nil] at hv
    have hdocument : parse.document room text = .ok v := by
      rw [parse.document, hv]
      simp [bind, Except.bind, hend]
    refine ⟨v, ?_⟩
    unfold parse
    split
    case h_1 c ds =>
      obtain ⟨d, es, hskip, hd⟩ := exists_start (fun _ ↦ ReadableNumber.numberText) h []
      rw [if_neg]
      · exact hdocument
      · rintro rfl
        rw [List.append_nil, skipSpace_cons (by decide)] at hskip
        cases hskip
        exact hd.2 (by simp)
    case h_2 => exact hdocument

end Nftables.Json
