import Nftables.Proofs.Json.Acceptance

/-!
# The limits of reading

Integers have not too many digits, and lists and objects are not too many within each other: what is
read keeps to both limits, and so it can be written with the room that it has been read with.  A text
that breaks the second limit is told from its characters up to the bracket or brace for which there is
no more room (`Overflows`); these texts are those of which the reader gives up.
-/

namespace Nftables.Json

open Text (decimal isDigit maxDigits ofDigits)

variable {c : Char} {cs ds ws text rest : List Char} {v : Value} {vs : List Value}
variable {es : List (String × Value)} {depth fuel : Nat} {negative : Bool}

/-! ## What is read can be written -/

theorem writable_of_integerOf (hdigits : Digits cs) (h : integerOf negative cs = .ok v) :
    Writable depth v := by
  have hlength := length_of_integerOf h
  rw [integerOf, if_neg (Nat.not_lt_of_le hlength)] at h
  cases h
  refine .int (hasNumeral_iff.mpr ?_)
  have hnatAbs : (if negative then -(ofDigits 10 cs : Int) else ofDigits 10 cs).natAbs =
      ofDigits 10 cs := by
    cases negative <;> simp
  simp only [hnatAbs]
  exact Nat.le_trans (Text.length_decimal_ofDigits_le hdigits.1 hdigits.2) hlength

theorem writable_of_unsigned (h : unsigned negative text = .ok (v, rest)) : Writable depth v := by
  unfold unsigned at h
  split at h
  case h_1 => cases h
  case h_2 whole rest₁ hwhole =>
    obtain ⟨hinteger, -⟩ := integerText_of_integerPart hwhole
    simp only at h
    split at h
    case h_1 =>
      simp only [bind_ok_iff] at h
      obtain ⟨u, hu, h⟩ := h
      cases h
      exact writable_of_integerOf (digits_of_integerText hinteger) hu
    case h_2 =>
      cases h
      exact .float _ _

theorem writable_of_atom (h : atom text = .ok (v, rest)) : Writable depth v := by
  unfold atom at h
  split at h
  case h_1 hsome =>
    cases h
    obtain ⟨⟨w, u⟩, hmem, hafter⟩ := List.exists_of_findSome?_eq_some hsome
    obtain ⟨_, -, heq⟩ := Option.map_eq_some_iff.mp hafter
    cases heq
    simp only [words, List.mem_cons, Prod.mk.injEq, List.not_mem_nil, or_false] at hmem
    rcases hmem with ⟨-, rfl⟩ | ⟨-, rfl⟩ | ⟨-, rfl⟩ | ⟨-, rfl⟩ | ⟨-, rfl⟩ | ⟨-, rfl⟩ <;> simp
  case h_2 =>
    simp only [number] at h
    split at h
    case h_1 hresult =>
      cases h
      split at hresult <;> exact writable_of_unsigned hresult
    case h_2 => cases h

/-- With a given fuel, what is read can be written. -/
structure ReadsWritable (fuel : Nat) : Prop where
  value {depth : Nat} {text rest : List Char} {v : Value}
    (h : value depth fuel text = .ok (v, rest)) : Writable depth v
  items {depth : Nat} {text rest : List Char} {vs : List Value}
    (h : items depth fuel text = .ok (vs, rest)) : ∀ v ∈ vs, Writable depth v
  entries {depth : Nat} {text rest : List Char} {es es' : List (String × Value)}
    (hes : ∀ e ∈ es, Writable depth e.2) (h : entries depth fuel es text = .ok (es', rest)) :
    ∀ e ∈ es', Writable depth e.2

theorem ReadsWritable.value_succ (ih : ReadsWritable fuel)
    (h : Json.value depth (fuel + 1) text = .ok (v, rest)) : Writable depth v := by
  rw [Json.value.eq_def] at h
  simp only at h
  split at h
  case h_1 =>
    simp only [bind_ok_iff, Prod.exists] at h
    obtain ⟨s, rest', -, h⟩ := h
    cases h
    exact .str _ s
  case h_2 =>
    cases depth with
    | zero => cases h
    | succ depth =>
      simp only at h
      split at h
      case h_1 =>
        cases h
        exact .list (by simp)
      case h_2 =>
        simp only [bind_ok_iff, Prod.exists] at h
        obtain ⟨vs, rest', hvs, h⟩ := h
        cases h
        exact .list (ih.items hvs)
  case h_3 =>
    cases depth with
    | zero => cases h
    | succ depth =>
      simp only at h
      split at h
      case h_1 =>
        cases h
        exact .object (by simp)
      case h_2 =>
        simp only [bind_ok_iff, Prod.exists] at h
        obtain ⟨es, rest', hes, h⟩ := h
        cases h
        exact .object (ih.entries (List.forall_mem_nil _) hes)
  case h_4 => exact writable_of_atom h

theorem ReadsWritable.items_succ (ih : ReadsWritable fuel)
    (h : Json.items depth (fuel + 1) text = .ok (vs, rest)) : ∀ v ∈ vs, Writable depth v := by
  rw [Json.items.eq_def] at h
  simp only [bind_ok_iff, Prod.exists] at h
  obtain ⟨v, rest₁, hv, h⟩ := h
  split at h
  case h_1 =>
    cases h
    exact List.forall_mem_singleton.mpr (ih.value hv)
  case h_2 =>
    simp only [bind_ok_iff, Prod.exists] at h
    obtain ⟨us, rest₃, hus, h⟩ := h
    cases h
    exact List.forall_mem_cons.mpr ⟨ih.value hv, ih.items hus⟩
  case h_3 => cases h

theorem ReadsWritable.entries_succ {es' : List (String × Value)} (ih : ReadsWritable fuel)
    (hes : ∀ e ∈ es, Writable depth e.2)
    (h : Json.entries depth (fuel + 1) es text = .ok (es', rest)) :
    ∀ e ∈ es', Writable depth e.2 := by
  rw [Json.entries.eq_def] at h
  simp only at h
  split at h
  case h_1 =>
    simp only [bind_ok_iff, Prod.exists] at h
    obtain ⟨k, rest₁, -, h⟩ := h
    split at h
    case h_1 =>
      simp only [bind_ok_iff, Prod.exists] at h
      obtain ⟨v, rest₃, hv, h⟩ := h
      have hinsert : ∀ e ∈ Value.insert k v es, Writable depth e.2 := by
        intro e he
        rcases Value.mem_of_mem_insert he with heq | he
        · exact heq ▸ ih.value hv
        · exact hes e he
      split at h
      case h_1 =>
        cases h
        exact hinsert
      case h_2 => exact ih.entries hinsert h
      case h_3 => cases h
    case h_2 => cases h
  case h_2 => cases h

theorem readsWritable (fuel : Nat) : ReadsWritable fuel := by
  induction fuel with
  | zero => exact ⟨nofun, nofun, nofun⟩
  | succ fuel ih => exact ⟨ih.value_succ, ih.items_succ, ih.entries_succ⟩

theorem parse_eq_document {room : Nat} (hmark : text.head? ≠ some (Char.ofNat 0xFEFF)) :
    parse room text = parse.document room text := by
  unfold parse
  split
  case h_1 => rw [if_neg fun h ↦ hmark (congrArg some h)]
  case h_2 => rfl

/-- **What has been read can be written**, with the room that it has been read with. -/
theorem writable_of_parse {room : Nat} (h : parse room text = .ok v) : Writable room v := by
  by_cases hmark : text.head? = some (Char.ofNat 0xFEFF)
  · cases text with
    | nil => cases hmark
    | cons c cs =>
      cases hmark
      cases h
  · rw [parse_eq_document hmark, parse.document] at h
    simp only [bind_ok_iff, Prod.exists] at h
    obtain ⟨u, rest, hu, h⟩ := h
    split at h
    case h_1 =>
      cases h
      exact (readsWritable _).value hu
    case h_2 => cases h

/-! ## Texts that overflow -/

/-- Texts that open one more list or object than there is room for.  Up to there they are read. -/
inductive Overflows : (depth : Nat) → Part → List Char → Prop where
  | list {cs : List Char} : Overflows 0 .value ('[' :: cs)
  | object {cs : List Char} : Overflows 0 .value ('\x7b' :: cs)
  | items {depth : Nat} {cs : List Char} (h : Overflows depth .items cs) :
      Overflows (depth + 1) .value ('[' :: cs)
  | entries {depth : Nat} {cs : List Char} (h : Overflows depth .entries cs) :
      Overflows (depth + 1) .value ('\x7b' :: cs)
  | element {depth : Nat} {pre cs : List Char} (hpre : Blank pre)
      (h : Overflows depth .value cs) : Overflows depth .element (pre ++ cs)
  | firstItem {depth : Nat} {cs : List Char} (h : Overflows depth .element cs) :
      Overflows depth .items cs
  | laterItem {depth : Nat} {cs ds : List Char} (h : Derives ReadableNumber depth .element cs)
      (hs : Overflows depth .items ds) : Overflows depth .items (cs ++ ',' :: ds)
  | firstEntry {depth : Nat} {pre key post cs : List Char} (hpre : Blank pre)
      (hkey : StringText key) (hpost : Blank post) (h : Overflows depth .element cs) :
      Overflows depth .entries (pre ++ (key ++ (post ++ ':' :: cs)))
  | laterEntry {depth : Nat} {pre key post cs ds : List Char} (hpre : Blank pre)
      (hkey : StringText key) (hpost : Blank post) (h : Derives ReadableNumber depth .element cs)
      (hs : Overflows depth .entries ds) :
      Overflows depth .entries (pre ++ (key ++ (post ++ ':' :: (cs ++ ',' :: ds))))

theorem Overflows.blank_append {p : Part} (hp : p ≠ .value) (hws : Blank ws)
    (h : Overflows depth p cs) : Overflows depth p (ws ++ cs) := by
  induction h with
  | list | object | items | entries => exact absurd rfl hp
  | element hpre h =>
    rw [← List.append_assoc]
    exact .element (hws.append hpre) h
  | firstItem _ ih => exact .firstItem (ih nofun)
  | laterItem h hs =>
    rw [← List.append_assoc]
    exact .laterItem (h.blank_append (by simp) hws) hs
  | firstEntry hpre hkey hpost h =>
    rw [← List.append_assoc]
    exact .firstEntry (hws.append hpre) hkey hpost h
  | laterEntry hpre hkey hpost h hs =>
    rw [← List.append_assoc]
    exact .laterEntry (hws.append hpre) hkey hpost h hs

theorem exists_start_of_overflows {p : Part} (h : Overflows depth p cs) :
    ∃ c ds, skipSpace cs = c :: ds ∧ Starts c := by
  have hkey {pre key more : List Char} (hpre : Blank pre) (hkey : StringText key) :
      ∃ c ds, skipSpace (pre ++ (key ++ more)) = c :: ds ∧ Starts c := by
    cases hkey
    rw [skipSpace_append hpre]
    exact ⟨_, _, skipSpace_cons rfl, rfl, by decide⟩
  induction h with
  | list | object | items | entries => exact ⟨_, _, skipSpace_cons rfl, rfl, by decide⟩
  | element hpre _ ih =>
    rw [skipSpace_append hpre]
    exact ih
  | firstItem _ ih => exact ih
  | laterItem h => exact exists_start (fun _ ↦ ReadableNumber.numberText) h _
  | firstEntry hpre hk => exact hkey hpre hk
  | laterEntry hpre hk => exact hkey hpre hk

/-! ## Where the reader gives up -/

theorem ne_tooDeep_of_unicodeEscape {start : List Char} {f : Fault}
    (h : unicodeEscape start text = .error f) : f.problem ≠ .tooDeep := by
  unfold unicodeEscape at h
  split at h
  case h_1 | h_2 =>
    cases h
    simp
  case h_3 =>
    split at h
    case h_1 =>
      split at h
      case h_1 => split_ifs at h
      case h_2 =>
        split_ifs at h
        cases h
        simp
    case h_2 => cases h

theorem ne_tooDeep_of_chars {opening : List Char} {f : Fault}
    (h : chars opening fuel text = .error f) : f.problem ≠ .tooDeep := by
  induction fuel generalizing text with
  | zero =>
    cases h
    simp
  | succ fuel ih =>
    cases text with
    | nil =>
      cases h
      simp
    | cons c text =>
      unfold chars at h
      split_ifs at h
      · split at h
        case h_1 =>
          cases h
          simp
        case h_2 =>
          simp only [bind_error_iff, Prod.exists, reduceCtorEq, and_false, exists_false,
            or_false] at h
          rcases h with h | ⟨d, rest₁, -, h⟩
          · exact ne_tooDeep_of_unicodeEscape h
          · exact ih h
        case h_3 =>
          split at h
          case h_1 =>
            cases h
            simp
          case h_2 =>
            simp only [bind_error_iff, reduceCtorEq, and_false, exists_false, or_false] at h
            exact ih h
      · cases h
        simp
      · simp only [bind_error_iff, reduceCtorEq, and_false, exists_false, or_false] at h
        exact ih h

theorem ne_tooDeep_of_string {f : Fault} (h : string text = .error f) : f.problem ≠ .tooDeep := by
  simp only [string, bind_error_iff, reduceCtorEq, and_false, exists_false, or_false] at h
  exact ne_tooDeep_of_chars h

theorem ne_tooDeep_of_unsigned {p : Problem} (h : unsigned negative text = .error p) :
    p ≠ .tooDeep := by
  unfold unsigned at h
  split at h
  case h_1 =>
    cases h
    simp
  case h_2 =>
    simp only at h
    split at h
    case h_1 =>
      simp only [bind_error_iff, reduceCtorEq, and_false, exists_false, or_false] at h
      unfold integerOf at h
      split at h
      case isTrue =>
        cases h
        simp
      case isFalse => cases h
    case h_2 => cases h

theorem ne_tooDeep_of_atom {f : Fault} (h : atom text = .error f) : f.problem ≠ .tooDeep := by
  unfold atom at h
  split at h
  case h_1 => cases h
  case h_2 =>
    simp only [number] at h
    split at h
    case h_1 => cases h
    case h_2 hresult =>
      cases h
      split at hresult <;> exact ne_tooDeep_of_unsigned hresult

/-- With a given fuel, the reader gives up only of texts that overflow. -/
structure GivesUpRightly (fuel : Nat) : Prop where
  value {depth : Nat} {text : List Char} {f : Fault} (h : value depth fuel text = .error f)
    (hf : f.problem = .tooDeep) : Overflows depth .value text
  items {depth : Nat} {text : List Char} {f : Fault} (h : items depth fuel text = .error f)
    (hf : f.problem = .tooDeep) : Overflows depth .items text
  entries {depth : Nat} {text : List Char} {es : List (String × Value)} {f : Fault}
    (h : entries depth fuel es text = .error f) (hf : f.problem = .tooDeep) :
    Overflows depth .entries text

theorem GivesUpRightly.value_succ {f : Fault} (ih : GivesUpRightly fuel)
    (h : Json.value depth (fuel + 1) text = .error f) (hf : f.problem = .tooDeep) :
    Overflows depth .value text := by
  rw [Json.value.eq_def] at h
  simp only at h
  split at h
  case h_1 =>
    simp only [bind_error_iff, reduceCtorEq, and_false, exists_false, or_false] at h
    exact absurd hf (ne_tooDeep_of_string h)
  case h_2 text =>
    cases depth with
    | zero => exact .list
    | succ depth =>
      simp only at h
      split at h
      case h_1 => cases h
      case h_2 =>
        simp only [bind_error_iff, reduceCtorEq, and_false, exists_false, or_false] at h
        obtain ⟨ws, hws, heq⟩ := exists_skipSpace text
        rw [heq]
        exact .items ((ih.items h hf).blank_append (by simp) hws)
  case h_3 text =>
    cases depth with
    | zero => exact .object
    | succ depth =>
      simp only at h
      split at h
      case h_1 => cases h
      case h_2 =>
        simp only [bind_error_iff, reduceCtorEq, and_false, exists_false, or_false] at h
        obtain ⟨ws, hws, heq⟩ := exists_skipSpace text
        rw [heq]
        exact .entries ((ih.entries h hf).blank_append (by simp) hws)
  case h_4 => exact absurd hf (ne_tooDeep_of_atom h)

/-- A value that overflows is an element that does. -/
theorem overflows_element (h : Overflows depth .value cs) : Overflows depth .element cs :=
  .element .nil h

theorem GivesUpRightly.items_succ {f : Fault} (ih : GivesUpRightly fuel)
    (h : Json.items depth (fuel + 1) text = .error f) (hf : f.problem = .tooDeep) :
    Overflows depth .items text := by
  rw [Json.items.eq_def] at h
  simp only [bind_error_iff, Prod.exists] at h
  rcases h with h | ⟨v, rest₁, hv, h⟩
  · exact .firstItem (overflows_element (ih.value h hf))
  · obtain ⟨cs, hcs, rfl⟩ := (readsParts fuel).value hv
    obtain ⟨ws, hws, heq⟩ := exists_skipSpace rest₁
    split at h
    case h_1 => cases h
    case h_2 rest₂ hskip =>
      simp only [bind_error_iff, reduceCtorEq, and_false, exists_false, or_false] at h
      obtain ⟨ws', hws', heq'⟩ := exists_skipSpace rest₂
      have hitems := ih.items h hf
      rw [heq, hskip, heq', ← List.append_assoc]
      exact .laterItem (derives_element hcs hws) (hitems.blank_append (by simp) hws')
    case h_3 =>
      cases h
      cases hf

theorem GivesUpRightly.entries_succ {f : Fault} (ih : GivesUpRightly fuel)
    (h : Json.entries depth (fuel + 1) es text = .error f) (hf : f.problem = .tooDeep) :
    Overflows depth .entries text := by
  rw [Json.entries.eq_def] at h
  simp only at h
  split at h
  case h_1 text =>
    simp only [bind_error_iff, Prod.exists] at h
    rcases h with h | ⟨k, rest₁, hk, h⟩
    · exact absurd hf (ne_tooDeep_of_string h)
    · obtain ⟨key, hkey, heq⟩ := stringText_of_string hk
      obtain ⟨ws, hws, heq₁⟩ := exists_skipSpace rest₁
      split at h
      case h_1 rest₂ hcolon =>
        obtain ⟨before, hbefore, hskip⟩ := exists_skipSpace rest₂
        simp only [bind_error_iff, Prod.exists] at h
        rcases h with h | ⟨v, rest₃, hv, h⟩
        · have helement := Overflows.element hbefore (ih.value h hf)
          rw [heq, heq₁, hcolon, hskip]
          exact .firstEntry .nil hkey hws helement
        · obtain ⟨cs, hcs, heq₂⟩ := (readsParts fuel).value hv
          obtain ⟨after, hafter, heq₃⟩ := exists_skipSpace rest₃
          have helement := Derives.element hbefore hcs hafter
          split at h
          case h_1 => cases h
          case h_2 rest₄ hcomma =>
            obtain ⟨ws', hws', heq₅⟩ := exists_skipSpace rest₄
            have hentries : Overflows depth .entries (ws' ++ skipSpace rest₄) :=
              (ih.entries h hf).blank_append (by simp) hws'
            rw [← heq₅] at hentries
            have hlater := Overflows.laterEntry .nil hkey hws helement hentries
            rw [heq, heq₁, hcolon, hskip, heq₂, heq₃, hcomma]
            simpa using hlater
          case h_3 =>
            cases h
            cases hf
      case h_2 =>
        cases h
        cases hf
  case h_2 =>
    cases h
    cases hf

theorem givesUpRightly (fuel : Nat) : GivesUpRightly fuel := by
  induction fuel with
  | zero =>
    refine ⟨?_, ?_, ?_⟩ <;>
    · rintro _ _ _ ⟨⟩
      nofun
  | succ fuel ih => exact ⟨ih.value_succ, ih.items_succ, ih.entries_succ⟩

/-- The reader gives up of a part, given twice as much fuel as it is long. -/
def GivesUp (depth : Nat) : Part → List Char → Prop
  | .value, cs => ∀ fuel, 2 * cs.length ≤ fuel →
      ∃ f, value depth fuel cs = .error f ∧ f.problem = .tooDeep
  | .element, cs => ∀ fuel, 2 * cs.length ≤ fuel →
      ∃ f, value depth fuel (skipSpace cs) = .error f ∧ f.problem = .tooDeep
  | .items, cs => ∀ fuel, 2 * cs.length < fuel →
      ∃ f, items depth fuel (skipSpace cs) = .error f ∧ f.problem = .tooDeep
  | .entries, cs => ∀ (fuel : Nat) (es : List (String × Value)), 2 * cs.length < fuel →
      ∃ f, entries depth fuel es (skipSpace cs) = .error f ∧ f.problem = .tooDeep

/-- No text that overflows is empty, so there is always fuel for it. -/
theorem givesUp_of_succ (hread : ∀ fuel, 2 * ('[' :: cs).length ≤ fuel + 1 →
      ∃ f, value depth (fuel + 1) (c :: cs) = .error f ∧ f.problem = .tooDeep) :
    GivesUp depth .value (c :: cs) := by
  intro fuel hfuel
  cases fuel with
  | zero => simp at hfuel
  | succ fuel => exact hread fuel hfuel

theorem givesUp_items (h : Overflows depth .items cs) (hitems : GivesUp depth .items cs) :
    GivesUp (depth + 1) .value ('[' :: cs) := by
  refine givesUp_of_succ fun fuel hfuel ↦ ?_
  rw [List.length_cons] at hfuel
  obtain ⟨f, hf, hproblem⟩ := hitems fuel (by omega)
  obtain ⟨c, ds, hskip, hc⟩ := exists_start_of_overflows h
  have hne : c ≠ ']' := fun h ↦ hc.2 (by simp [h])
  refine ⟨f, ?_, hproblem⟩
  rw [hskip] at hf
  simp [value, hskip, hne, hf, bind, Except.bind]

theorem givesUp_entries (h : Overflows depth .entries cs)
    (hentries : GivesUp depth .entries cs) : GivesUp (depth + 1) .value ('\x7b' :: cs) := by
  refine givesUp_of_succ fun fuel hfuel ↦ ?_
  rw [List.length_cons] at hfuel
  obtain ⟨f, hf, hproblem⟩ := hentries fuel [] (by omega)
  obtain ⟨c, ds, hskip, hc⟩ := exists_start_of_overflows h
  have hne : c ≠ '\x7d' := fun h ↦ hc.2 (by simp [h])
  refine ⟨f, ?_, hproblem⟩
  rw [hskip] at hf
  simp [value, hskip, hne, hf, bind, Except.bind]

theorem skipSpace_of_overflows (h : Overflows depth .value cs) : skipSpace cs = cs := by
  cases h <;> exact skipSpace_cons rfl

theorem givesUp_firstItem (h : GivesUp depth .element cs) : GivesUp depth .items cs := by
  intro fuel hfuel
  obtain ⟨fuel, rfl⟩ := Nat.exists_eq_add_one_of_ne_zero (Nat.ne_zero_of_lt hfuel)
  obtain ⟨f, hf, hproblem⟩ := h fuel (by omega)
  refine ⟨f, ?_, hproblem⟩
  rw [items, hf]
  rfl

theorem givesUp_laterItem (h : Accepts depth .element cs) (hs : GivesUp depth .items ds) :
    GivesUp depth .items (cs ++ ',' :: ds) := by
  intro fuel hfuel
  obtain ⟨fuel, rfl⟩ := Nat.exists_eq_add_one_of_ne_zero (Nat.ne_zero_of_lt hfuel)
  simp only [List.length_append, List.length_cons] at hfuel
  obtain ⟨v, rest', hv, hcomma⟩ := h fuel (',' :: ds) (by omega) (closes_cons (by decide))
  obtain ⟨f, hf, hproblem⟩ := hs fuel (by omega)
  refine ⟨f, ?_, hproblem⟩
  rw [items, hv]
  simp [hcomma, hf, bind, Except.bind]

theorem givesUp_firstEntry {pre key post : List Char} (hpre : Blank pre) (hkey : StringText key)
    (hpost : Blank post) (h : GivesUp depth .element cs) :
    GivesUp depth .entries (pre ++ (key ++ (post ++ ':' :: cs))) := by
  intro fuel es hfuel
  obtain ⟨fuel, rfl⟩ := Nat.exists_eq_add_one_of_ne_zero (Nat.ne_zero_of_lt hfuel)
  simp only [List.length_append, List.length_cons] at hfuel
  obtain ⟨f, hf, hproblem⟩ := h fuel (by omega)
  obtain ⟨k, hk⟩ := string_of_stringText hkey (post ++ ':' :: cs)
  have hcolon : skipSpace (post ++ ':' :: cs) = ':' :: cs := by
    rw [skipSpace_append hpost, skipSpace_cons rfl]
  refine ⟨f, ?_, hproblem⟩
  cases hkey
  rw [skipSpace_append hpre, List.cons_append, skipSpace_cons rfl]
  rw [List.cons_append] at hk
  simp only [entries, hk, bind, Except.bind, hcolon, hf]

theorem givesUp_laterEntry {pre key post : List Char} (hpre : Blank pre) (hkey : StringText key)
    (hpost : Blank post) (h : Accepts depth .element cs) (hs : GivesUp depth .entries ds) :
    GivesUp depth .entries (pre ++ (key ++ (post ++ ':' :: (cs ++ ',' :: ds)))) := by
  intro fuel es hfuel
  obtain ⟨fuel, rfl⟩ := Nat.exists_eq_add_one_of_ne_zero (Nat.ne_zero_of_lt hfuel)
  simp only [List.length_append, List.length_cons] at hfuel
  have hfuel' : 2 * cs.length ≤ fuel := by omega
  have hcomma : Closes (',' :: ds) := closes_cons (by decide)
  obtain ⟨k, v, heq⟩ := entries_of_element hpre hkey hpost h hfuel' hcomma es
  obtain ⟨f, hf, hproblem⟩ := hs fuel (Value.insert k v es) (by omega)
  exact ⟨f, heq _ hf, hproblem⟩

/-- The reader gives up of whatever overflows. -/
theorem givesUp_of_overflows {p : Part} (h : Overflows depth p cs) : GivesUp depth p cs := by
  induction h with
  | list => exact givesUp_of_succ fun _ _ ↦ ⟨_, rfl, rfl⟩
  | object => exact givesUp_of_succ fun _ _ ↦ ⟨_, rfl, rfl⟩
  | items h ih => exact givesUp_items h ih
  | entries h ih => exact givesUp_entries h ih
  | @element _ pre cs hpre h ih =>
    intro fuel hfuel
    rw [List.length_append] at hfuel
    rw [skipSpace_append hpre, skipSpace_of_overflows h]
    exact ih fuel (by omega)
  | firstItem _ ih => exact givesUp_firstItem ih
  | laterItem h _ ihs => exact givesUp_laterItem (accepts_of_derives h) ihs
  | firstEntry hpre hkey hpost _ ih => exact givesUp_firstEntry hpre hkey hpost ih
  | laterEntry hpre hkey hpost h _ ihs =>
    exact givesUp_laterEntry hpre hkey hpost (accepts_of_derives h) ihs

/-- **The reader gives up of a text if and only if the text overflows.** -/
theorem parse_tooDeep_iff {room : Nat} :
    (∃ f, parse room text = .error f ∧ f.problem = .tooDeep) ↔ Overflows room .element text := by
  constructor
  · rintro ⟨f, h, hf⟩
    by_cases hmark : text.head? = some (Char.ofNat 0xFEFF)
    · cases text with
      | nil => cases hmark
      | cons c cs =>
        cases hmark
        cases h
        cases hf
    · rw [parse_eq_document hmark, parse.document, bind_error_iff] at h
      rcases h with h | ⟨⟨v, rest⟩, -, h⟩
      · obtain ⟨ws, hws, heq⟩ := exists_skipSpace text
        rw [heq]
        exact .element hws ((givesUpRightly _).value h hf)
      · simp only at h
        split at h
        case h_1 => cases h
        case h_2 =>
          cases h
          cases hf
  · intro h
    obtain ⟨f, hf, hproblem⟩ := givesUp_of_overflows h (2 * text.length + 2) (by omega)
    refine ⟨f, ?_, hproblem⟩
    have hmark : text.head? ≠ some (Char.ofNat 0xFEFF) := by
      obtain ⟨c, ds, hskip, hc⟩ := exists_start_of_overflows h
      intro hhead
      obtain ⟨cs, rfl⟩ := List.head?_eq_some_iff.mp hhead
      rw [skipSpace_cons (by decide)] at hskip
      cases hskip
      exact hc.2 (by simp)
    rw [parse_eq_document hmark, parse.document, hf]
    rfl

/-! ## Which texts overflow -/

/-- What overflows has a bracket or a brace. -/
theorem exists_mem_of_overflows {p : Part} (h : Overflows depth p cs) :
    ∃ c ∈ cs, c ∈ ['[', '\x7b'] := by
  induction h with
  | list | items => exact ⟨'[', List.mem_cons_self, by decide⟩
  | object | entries => exact ⟨'\x7b', List.mem_cons_self, by decide⟩
  | firstItem _ ih => exact ih
  | element _ _ ih | laterItem _ _ ih | firstEntry _ _ _ _ ih | laterEntry _ _ _ _ _ ih =>
    obtain ⟨c, hc, hopen⟩ := ih
    exact ⟨c, by simp [hc], hopen⟩

/-- Brackets alone overflow if they are more than there is room for. -/
theorem overflows_replicate (depth : Nat) (cs : List Char) :
    Overflows depth .value (List.replicate (depth + 1) '[' ++ cs) := by
  induction depth with
  | zero => exact .list
  | succ depth ih => exact .items (.firstItem (overflows_element ih))

/-- A list that is opened is closed. -/
theorem mem_of_derives {N : List Char → Prop} (hN : ∀ cs, N cs → NumberText cs)
    (h : Derives N depth .value ('[' :: cs)) : ']' ∈ cs := by
  generalize htext : '[' :: cs = text at h
  cases h with
  | emptyList | list =>
    cases htext
    simp
  | emptyObject | object => cases htext
  | string h =>
    cases h
    cases htext
  | word h =>
    subst htext
    exact absurd h (by simp [WordText])
  | number h =>
    subst htext
    cases hN _ h with
    | positive h =>
      obtain ⟨c, ds, heq, hc⟩ := exists_digit_of_unsignedText h
      cases heq
      cases hc

/-- Brackets alone are no document. -/
theorem not_isDocument_replicate (n : Nat) : ¬ IsDocument (List.replicate n '[') := by
  rintro ⟨depth, h⟩
  generalize htext : List.replicate n '[' = text at h
  cases h with
  | @element _ pre cs post _ h =>
    have hbracket {c : Char} (hc : c ∈ cs) : c = '[' := by
      have hmem : c ∈ List.replicate n '[' := by simp [htext, hc]
      exact List.eq_of_mem_replicate hmem
    obtain ⟨c, ds, rfl, -⟩ := exists_start_of_value (fun _ ↦ id) h
    obtain rfl := hbracket List.mem_cons_self
    exact absurd (hbracket (List.mem_cons_of_mem _ (mem_of_derives (fun _ ↦ id) h))) (by decide)

end Nftables.Json
