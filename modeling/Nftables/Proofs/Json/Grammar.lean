import Mathlib.Data.List.TakeWhile
import Mathlib.Tactic.SplitIfs
import Nftables.Json.Parser
import Nftables.Proofs.Success

/-!
# The grammar of documents

Which texts are JSON documents, said by rules of derivation and without a reader.  Beside the
standard's rules the words `NaN`, `Infinity` and `-Infinity` are values.  A document can be read
(`IsReadable`) if its integers have not too many digits, and if there is room on the stack for the
lists and objects that it has within each other.  Whatever the reader takes for a document can be read.
-/

namespace Nftables.Json

open Text (isDigit digitValue? maxDigits)

/-! ## Lexical rules -/

def Blank (cs : List Char) : Prop :=
  ∀ c ∈ cs, isSpace c = true

def HexDigit (c : Char) : Prop :=
  (digitValue? c).isSome = true

/-- What stands between quotes: characters that are no controls, and escapes. -/
inductive Quotable : List Char → Prop where
  | nil : Quotable []
  | plain {c : Char} {cs : List Char} (hquote : c ≠ '"') (hslash : c ≠ '\\')
      (hcontrol : 32 ≤ c.toNat) (h : Quotable cs) : Quotable (c :: cs)
  | escape {c : Char} {cs : List Char} (hc : c ∈ ['"', '\\', '/', 'b', 'f', 'n', 'r', 't'])
      (h : Quotable cs) : Quotable ('\\' :: c :: cs)
  | unicode {x y z w : Char} {cs : List Char} (hx : HexDigit x) (hy : HexDigit y) (hz : HexDigit z)
      (hw : HexDigit w) (h : Quotable cs) : Quotable ('\\' :: 'u' :: x :: y :: z :: w :: cs)

inductive StringText : List Char → Prop where
  | quoted {cs : List Char} (h : Quotable cs) : StringText ('"' :: (cs ++ ['"']))

/-- Digits, of which there is at least one. -/
def Digits (cs : List Char) : Prop :=
  cs ≠ [] ∧ ∀ c ∈ cs, isDigit c = true

inductive IntegerText : List Char → Prop where
  | zero : IntegerText ['0']
  | digits {c : Char} {cs : List Char} (hc : c ≠ '0') (h : Digits (c :: cs)) : IntegerText (c :: cs)

inductive FractionText : List Char → Prop where
  | none : FractionText []
  | point {ds : List Char} (h : Digits ds) : FractionText ('.' :: ds)

inductive ExponentText : List Char → Prop where
  | none : ExponentText []
  | exponent {e : Char} {sign ds : List Char} (he : e = 'e' ∨ e = 'E')
      (hsign : sign ∈ [[], ['+'], ['-']]) (h : Digits ds) : ExponentText (e :: (sign ++ ds))

/-- A number without its sign. -/
inductive UnsignedText : List Char → Prop where
  | parts {whole fraction exponent : List Char} (hwhole : IntegerText whole)
      (hfraction : FractionText fraction) (hexponent : ExponentText exponent) :
      UnsignedText (whole ++ (fraction ++ exponent))

inductive NumberText : List Char → Prop where
  | positive {cs : List Char} (h : UnsignedText cs) : NumberText cs
  | negative {cs : List Char} (h : UnsignedText cs) : NumberText ('-' :: cs)

/-- A number without its sign that can be read: an integer has not too many digits. -/
def ReadableUnsigned (cs : List Char) : Prop :=
  UnsignedText cs ∧ (Digits cs → cs.length ≤ maxDigits)

inductive ReadableNumber : List Char → Prop where
  | positive {cs : List Char} (h : ReadableUnsigned cs) : ReadableNumber cs
  | negative {cs : List Char} (h : ReadableUnsigned cs) : ReadableNumber ('-' :: cs)

def WordText (cs : List Char) : Prop :=
  cs ∈ ["null", "true", "false", "NaN", "Infinity", "-Infinity"].map String.toList

/-! ## Documents -/

/-- The parts a document is made of.  An element is a value with the blanks around it. -/
inductive Part where
  | value | element | items | entries

/-- Texts of parts whose numbers have a given form, with so many lists and objects within each other
at most. -/
inductive Derives (Number : List Char → Prop) : (depth : Nat) → Part → List Char → Prop where
  | string {depth : Nat} {cs : List Char} (h : StringText cs) : Derives Number depth .value cs
  | number {depth : Nat} {cs : List Char} (h : Number cs) : Derives Number depth .value cs
  | word {depth : Nat} {cs : List Char} (h : WordText cs) : Derives Number depth .value cs
  | emptyList {depth : Nat} {ws : List Char} (h : Blank ws) :
      Derives Number (depth + 1) .value ('[' :: (ws ++ [']']))
  | list {depth : Nat} {cs : List Char} (h : Derives Number depth .items cs) :
      Derives Number (depth + 1) .value ('[' :: (cs ++ [']']))
  | emptyObject {depth : Nat} {ws : List Char} (h : Blank ws) :
      Derives Number (depth + 1) .value ('\x7b' :: (ws ++ ['\x7d']))
  | object {depth : Nat} {cs : List Char} (h : Derives Number depth .entries cs) :
      Derives Number (depth + 1) .value ('\x7b' :: (cs ++ ['\x7d']))
  | element {depth : Nat} {pre cs post : List Char} (hpre : Blank pre)
      (h : Derives Number depth .value cs) (hpost : Blank post) :
      Derives Number depth .element (pre ++ (cs ++ post))
  | lastItem {depth : Nat} {cs : List Char} (h : Derives Number depth .element cs) :
      Derives Number depth .items cs
  | item {depth : Nat} {cs ds : List Char} (h : Derives Number depth .element cs)
      (hs : Derives Number depth .items ds) : Derives Number depth .items (cs ++ ',' :: ds)
  | lastEntry {depth : Nat} {pre key post cs : List Char} (hpre : Blank pre) (hkey : StringText key)
      (hpost : Blank post) (h : Derives Number depth .element cs) :
      Derives Number depth .entries (pre ++ (key ++ (post ++ ':' :: cs)))
  | entry {depth : Nat} {pre key post cs ds : List Char} (hpre : Blank pre) (hkey : StringText key)
      (hpost : Blank post) (h : Derives Number depth .element cs)
      (hs : Derives Number depth .entries ds) :
      Derives Number depth .entries (pre ++ (key ++ (post ++ ':' :: (cs ++ ',' :: ds))))

/-- A JSON document: one value, with blanks around it. -/
def IsDocument (text : List Char) : Prop :=
  ∃ depth, Derives NumberText depth .element text

/-- A document that can be read with room for so many lists and objects within each other. -/
def IsReadable (room : Nat) (text : List Char) : Prop :=
  Derives ReadableNumber room .element text

theorem ReadableNumber.numberText {cs : List Char} (h : ReadableNumber cs) : NumberText cs := by
  cases h with
  | positive h => exact .positive h.1
  | negative h => exact .negative h.1

theorem Derives.mono {N N' : List Char → Prop} {depth : Nat} {p : Part} {cs : List Char}
    (hN : ∀ cs, N cs → N' cs) (h : Derives N depth p cs) : Derives N' depth p cs := by
  induction h with
  | string h => exact .string h
  | number h => exact .number (hN _ h)
  | word h => exact .word h
  | emptyList h => exact .emptyList h
  | list _ ih => exact .list ih
  | emptyObject h => exact .emptyObject h
  | object _ ih => exact .object ih
  | element hpre _ hpost ih => exact .element hpre ih hpost
  | lastItem _ ih => exact .lastItem ih
  | item _ _ ih ihs => exact .item ih ihs
  | lastEntry hpre hkey hpost _ ih => exact .lastEntry hpre hkey hpost ih
  | entry hpre hkey hpost _ _ ih ihs => exact .entry hpre hkey hpost ih ihs

/-- What can be read is a document. -/
theorem IsReadable.isDocument {room : Nat} {text : List Char} (h : IsReadable room text) :
    IsDocument text :=
  ⟨room, h.mono fun _ ↦ ReadableNumber.numberText⟩

/-! ## Blanks -/

variable {N : List Char → Prop} {c : Char} {cs ds ws text rest : List Char} {depth fuel : Nat}

theorem Blank.nil : Blank [] := nofun

theorem Blank.append (h : Blank ws) (h' : Blank cs) : Blank (ws ++ cs) :=
  List.forall_mem_append.mpr ⟨h, h'⟩

theorem exists_skipSpace (cs : List Char) : ∃ ws, Blank ws ∧ cs = ws ++ skipSpace cs :=
  ⟨cs.takeWhile isSpace, fun _ hc ↦ List.mem_takeWhile_imp hc,
    List.takeWhile_append_dropWhile.symm⟩

theorem skipSpace_append (h : Blank ws) (cs : List Char) :
    skipSpace (ws ++ cs) = skipSpace cs :=
  List.dropWhile_append_of_pos h

theorem skipSpace_cons (h : isSpace c = false) : skipSpace (c :: cs) = c :: cs := by
  simp [skipSpace, h]

/-- Blanks before the first part may be more. -/
theorem Derives.blank_append {p : Part} (hp : p ≠ .value) (hws : Blank ws)
    (h : Derives N depth p cs) : Derives N depth p (ws ++ cs) := by
  induction h with
  | string | number | word | emptyList | list | emptyObject | object => exact absurd rfl hp
  | element hpre h hpost =>
    rw [← List.append_assoc]
    exact .element (hws.append hpre) h hpost
  | lastItem _ ih => exact .lastItem (ih nofun)
  | item _ hs ih =>
    rw [← List.append_assoc]
    exact .item (ih nofun) hs
  | lastEntry hpre hkey hpost h =>
    rw [← List.append_assoc]
    exact .lastEntry (hws.append hpre) hkey hpost h
  | entry hpre hkey hpost h hs =>
    rw [← List.append_assoc]
    exact .entry (hws.append hpre) hkey hpost h hs

/-! ## What is read as a string -/

theorem Quotable.append (h : Quotable cs) (h' : Quotable ds) : Quotable (cs ++ ds) := by
  induction h with
  | nil => exact h'
  | plain hquote hslash hcontrol _ ih => exact .plain hquote hslash hcontrol ih
  | escape hc _ ih => exact .escape hc ih
  | unicode hx hy hz hw _ ih => exact .unicode hx hy hz hw ih

/-- Four digits that have been read stand after a backslash and a `u`. -/
theorem quotable_of_hex4? {n : Nat} (h : hex4? text = some (n, rest)) :
    ∃ cs, Quotable cs ∧ '\\' :: 'u' :: text = cs ++ rest := by
  unfold hex4? at h
  split at h
  case h_1 x y z w rest' =>
    split at h
    case isTrue hall =>
      cases h
      simp only [List.all_cons, List.all_nil, Bool.and_true, Bool.and_eq_true] at hall
      exact ⟨['\\', 'u', x, y, z, w], .unicode hall.1 hall.2.1 hall.2.2.1 hall.2.2.2 .nil, rfl⟩
    case isFalse => cases h
  case h_2 => cases h

/-- One escape is read, or a pair of them. -/
theorem quotable_of_unicodeEscape {start : List Char}
    (h : unicodeEscape start text = .ok (c, rest)) :
    ∃ cs, Quotable cs ∧ '\\' :: 'u' :: text = cs ++ rest := by
  unfold unicodeEscape at h
  split at h
  case h_1 | h_2 => cases h
  case h_3 n rest₁ _ hfirst =>
    have hone : .ok (unitChar n, rest₁) = Except.ok (ε := Fault) (c, rest) →
        ∃ cs, Quotable cs ∧ '\\' :: 'u' :: text = cs ++ rest := by
      rintro ⟨⟩
      exact quotable_of_hex4? hfirst
    split at h
    case h_1 =>
      split at h
      case h_1 hsecond =>
        split_ifs at h
        · exact hone h
        · simp only [Except.ok.injEq, Prod.mk.injEq] at h
          obtain ⟨-, rfl⟩ := h
          obtain ⟨cs, hcs, heq⟩ := quotable_of_hex4? hfirst
          obtain ⟨ds, hds, heq'⟩ := quotable_of_hex4? hsecond
          exact ⟨cs ++ ds, hcs.append hds, by rw [heq, heq', List.append_assoc]⟩
        · exact hone h
      case h_2 =>
        split_ifs at h
        · exact hone h
        · cases h
    case h_2 => exact hone h

theorem simpleEscape?_isSome_iff :
    (simpleEscape? c).isSome = true ↔ c ∈ ['"', '\\', '/', 'b', 'f', 'n', 'r', 't'] := by
  unfold simpleEscape?
  split <;> simp_all

/-- What is read up to a closing quote may stand between quotes. -/
theorem quotable_of_chars {opening cs : List Char} (h : chars opening fuel text = .ok (cs, rest)) :
    ∃ ds, Quotable ds ∧ text = ds ++ '"' :: rest := by
  induction fuel generalizing text cs with
  | zero => cases h
  | succ fuel ih =>
    cases text with
    | nil => cases h
    | cons c text =>
      unfold chars at h
      split_ifs at h with hquote hslash hcontrol
      · cases h
        exact ⟨[], .nil, by rw [hquote]; rfl⟩
      · subst hslash
        split at h
        case h_1 => cases h
        case h_2 text =>
          simp only [bind_ok_iff, Prod.exists] at h
          obtain ⟨d, rest₁, hescape, es, rest₂, hchars, h⟩ := h
          cases h
          obtain ⟨cs, hcs, heq⟩ := quotable_of_unicodeEscape hescape
          obtain ⟨ds, hds, rfl⟩ := ih hchars
          exact ⟨cs ++ ds, hcs.append hds, by rw [heq, List.append_assoc]⟩
        case h_3 e text _ =>
          split at h
          case h_1 => cases h
          case h_2 hsome =>
            simp only [bind_ok_iff, Prod.exists] at h
            obtain ⟨es, rest₂, hchars, h⟩ := h
            cases h
            obtain ⟨ds, hds, rfl⟩ := ih hchars
            have he := simpleEscape?_isSome_iff.mp (Option.isSome_of_eq_some hsome)
            exact ⟨'\\' :: e :: ds, .escape he hds, rfl⟩
      · cases h
      · simp only [bind_ok_iff, Prod.exists] at h
        obtain ⟨es, rest₂, hchars, h⟩ := h
        cases h
        obtain ⟨ds, hds, rfl⟩ := ih hchars
        exact ⟨c :: ds, .plain hquote hslash (Nat.le_of_not_lt hcontrol) hds, rfl⟩

theorem stringText_of_string {s : String} (h : string ('"' :: text) = .ok (s, rest)) :
    ∃ ds, StringText ds ∧ '"' :: text = ds ++ rest := by
  simp only [string, List.drop_succ_cons, List.drop_zero, bind_ok_iff, Prod.exists] at h
  obtain ⟨cs, rest₁, hchars, h⟩ := h
  cases h
  obtain ⟨ds, hds, rfl⟩ := quotable_of_chars hchars
  exact ⟨'"' :: (ds ++ ['"']), .quoted hds, by simp⟩

/-! ## What is read as a number -/

theorem digits_takeWhile (hc : isDigit c = true) : Digits (c :: cs.takeWhile isDigit) :=
  ⟨by simp, List.forall_mem_cons.mpr ⟨hc, fun _ hd ↦ List.mem_takeWhile_imp hd⟩⟩

theorem integerText_of_integerPart (h : integerPart text = some (cs, rest)) :
    IntegerText cs ∧ text = cs ++ rest := by
  unfold integerPart at h
  split at h
  case h_1 =>
    cases h
    exact ⟨.zero, rfl⟩
  case h_2 c text hzero =>
    split_ifs at h with hdigit
    cases h
    exact ⟨.digits hzero (digits_takeWhile hdigit), by simp⟩
  case h_3 => cases h

/-- A fraction is read off its text, and none off no text. -/
theorem fractionText_of_fractionPart (text : List Char) :
    ∃ cs, FractionText cs ∧ text = cs ++ (fractionPart text).2 ∧
      (cs = [] → (fractionPart text).1 = []) := by
  unfold fractionPart
  split
  case h_1 c text =>
    split_ifs with hdigit
    · exact ⟨'.' :: c :: text.takeWhile isDigit, .point (digits_takeWhile hdigit), by simp, nofun⟩
    · exact ⟨[], .none, rfl, fun _ ↦ rfl⟩
  case h_2 => exact ⟨[], .none, rfl, fun _ ↦ rfl⟩

theorem exists_exponentSign (text : List Char) :
    ∃ sign ∈ [[], ['+'], ['-']], text = sign ++ (exponentSign text).2 := by
  unfold exponentSign
  split
  · exact ⟨['-'], by simp, rfl⟩
  · exact ⟨['+'], by simp, rfl⟩
  · exact ⟨[], by simp, rfl⟩

theorem exponentText_of_exponentPart {n : Int} (h : exponentPart text = some (n, rest)) :
    ∃ cs, ExponentText cs ∧ cs ≠ [] ∧ text = cs ++ rest := by
  unfold exponentPart at h
  split at h
  case h_1 e text =>
    obtain ⟨sign, hsign, heq⟩ := exists_exponentSign text
    simp only at h
    split at h
    case isTrue he =>
      split at h
      case isTrue => cases h
      case isFalse hempty =>
        cases h
        refine ⟨e :: (sign ++ (exponentSign text).2.takeWhile isDigit),
          .exponent he hsign ⟨by simpa using hempty, fun _ hd ↦ List.mem_takeWhile_imp hd⟩,
          by simp, ?_⟩
        rw [List.cons_append, List.append_assoc, List.takeWhile_append_dropWhile, ← heq]
    case isFalse => cases h
  case h_2 => cases h

theorem FractionText.eq_nil (h : FractionText cs) (hcs : ∀ c ∈ cs, isDigit c = true) : cs = [] := by
  cases h with
  | none => rfl
  | point => exact absurd (hcs '.' List.mem_cons_self) (by decide)

theorem ExponentText.eq_nil (h : ExponentText cs) (hcs : ∀ c ∈ cs, isDigit c = true) : cs = [] := by
  cases h with
  | none => rfl
  | exponent he =>
    have hdigit := hcs _ List.mem_cons_self
    obtain rfl | rfl := he
    · exact absurd hdigit (by decide)
    · exact absurd hdigit (by decide)

/-- Of a number's parts the digits count if there is nothing else. -/
theorem readableUnsigned_of_parts {whole fraction exponent : List Char} (hwhole : IntegerText whole)
    (hfraction : FractionText fraction) (hexponent : ExponentText exponent)
    (h : fraction = [] → exponent = [] → whole.length ≤ maxDigits) :
    ReadableUnsigned (whole ++ (fraction ++ exponent)) := by
  refine ⟨.parts hwhole hfraction hexponent, fun ⟨_, hdigits⟩ ↦ ?_⟩
  simp only [List.forall_mem_append] at hdigits
  obtain rfl := hfraction.eq_nil hdigits.2.1
  obtain rfl := hexponent.eq_nil hdigits.2.2
  simpa using h rfl rfl

theorem length_of_integerOf {negative : Bool} {v : Value} (h : integerOf negative cs = .ok v) :
    cs.length ≤ maxDigits := by
  unfold integerOf at h
  split at h
  case isTrue => cases h
  case isFalse hlength => exact Nat.le_of_not_lt hlength

theorem readable_of_unsigned {negative : Bool} {v : Value}
    (h : unsigned negative text = .ok (v, rest)) :
    ∃ cs, ReadableUnsigned cs ∧ text = cs ++ rest := by
  unfold unsigned at h
  split at h
  case h_1 => cases h
  case h_2 whole rest₁ hwhole =>
    obtain ⟨hinteger, rfl⟩ := integerText_of_integerPart hwhole
    obtain ⟨fraction, hfraction, hrest, hnone⟩ := fractionText_of_fractionPart rest₁
    have hparts {exponent : List Char} (hexponent : ExponentText exponent)
        (heq : (fractionPart rest₁).2 = exponent ++ rest)
        (hdigits : fraction = [] → exponent = [] → whole.length ≤ maxDigits) :
        ∃ cs, ReadableUnsigned cs ∧ whole ++ rest₁ = cs ++ rest :=
      ⟨_, readableUnsigned_of_parts hinteger hfraction hexponent hdigits,
        by rw [hrest, heq]; simp⟩
    simp only at h
    split at h
    case h_1 =>
      simp only [bind_ok_iff] at h
      obtain ⟨u, hu, h⟩ := h
      cases h
      exact hparts .none rfl fun _ _ ↦ length_of_integerOf hu
    case h_2 hfloat =>
      cases hexponent : exponentPart (fractionPart rest₁).2 with
      | none =>
        simp only [hexponent] at h
        cases h
        exact hparts .none rfl fun hfraction _ ↦ (hfloat (hnone hfraction) hexponent).elim
      | some e =>
        obtain ⟨exponent, htext, hne, heq⟩ := exponentText_of_exponentPart hexponent
        simp only [hexponent] at h
        cases h
        exact hparts htext heq fun _ hempty ↦ absurd hempty hne

theorem readable_of_number {v : Value} (h : number text = .ok (v, rest)) :
    ∃ cs, ReadableNumber cs ∧ text = cs ++ rest := by
  simp only [number] at h
  split at h
  case h_1 hresult =>
    cases h
    split at hresult
    case h_1 =>
      obtain ⟨cs, hcs, rfl⟩ := readable_of_unsigned hresult
      exact ⟨_, .negative hcs, rfl⟩
    case h_2 =>
      obtain ⟨cs, hcs, rfl⟩ := readable_of_unsigned hresult
      exact ⟨_, .positive hcs, rfl⟩
  case h_2 => cases h

/-! ## What is read as a value -/

theorem after?_eq_some_iff {w : List Char} : after? w text = some rest ↔ text = w ++ rest := by
  induction w generalizing text with
  | nil => simp [after?]
  | cons c w ih =>
    cases text with
    | nil => simp [after?]
    | cons d text =>
      rw [after?]
      split_ifs with hc
      · simp [ih, hc]
      · simp [Ne.symm hc]

/-- A word or a number is read. -/
theorem derives_of_atom {v : Value} (depth : Nat) (h : atom text = .ok (v, rest)) :
    ∃ cs, Derives ReadableNumber depth .value cs ∧ text = cs ++ rest := by
  unfold atom at h
  split at h
  case h_1 hsome =>
    cases h
    obtain ⟨⟨w, u⟩, hmem, hafter⟩ := List.exists_of_findSome?_eq_some hsome
    obtain ⟨rest', hafter, heq⟩ := Option.map_eq_some_iff.mp hafter
    cases heq
    have hw : WordText w := List.mem_map_of_mem (f := Prod.fst) hmem
    exact ⟨w, .word hw, after?_eq_some_iff.mp hafter⟩
  case h_2 =>
    obtain ⟨cs, hcs, heq⟩ := readable_of_number h
    exact ⟨cs, .number hcs, heq⟩

/-- With a given fuel, what is read is made of the parts that the grammar asks for. -/
structure ReadsParts (fuel : Nat) : Prop where
  value {depth : Nat} {text rest : List Char} {v : Value}
    (h : value depth fuel text = .ok (v, rest)) :
    ∃ cs, Derives ReadableNumber depth .value cs ∧ text = cs ++ rest
  items {depth : Nat} {text rest : List Char} {vs : List Value}
    (h : items depth fuel text = .ok (vs, rest)) :
    ∃ cs, Derives ReadableNumber depth .items cs ∧ text = cs ++ ']' :: rest
  entries {depth : Nat} {text rest : List Char} {es es' : List (String × Value)}
    (h : entries depth fuel es text = .ok (es', rest)) :
    ∃ cs, Derives ReadableNumber depth .entries cs ∧ text = cs ++ '\x7d' :: rest

theorem ReadsParts.value_succ {v : Value} (ih : ReadsParts fuel)
    (h : Json.value depth (fuel + 1) text = .ok (v, rest)) :
    ∃ cs, Derives ReadableNumber depth .value cs ∧ text = cs ++ rest := by
  rw [Json.value.eq_def] at h
  simp only at h
  split at h
  case h_1 text =>
    simp only [bind_ok_iff, Prod.exists] at h
    obtain ⟨s, rest', hs, h⟩ := h
    cases h
    obtain ⟨cs, hcs, heq⟩ := stringText_of_string hs
    exact ⟨cs, .string hcs, heq⟩
  case h_2 text =>
    obtain ⟨ws, hws, heq⟩ := exists_skipSpace text
    cases depth with
    | zero => cases h
    | succ depth =>
      simp only at h
      split at h
      case h_1 hskip =>
        cases h
        exact ⟨_, .emptyList hws, by rw [heq, hskip]; simp⟩
      case h_2 =>
        simp only [bind_ok_iff, Prod.exists] at h
        obtain ⟨vs, rest', hvs, h⟩ := h
        cases h
        obtain ⟨cs, hcs, hskip⟩ := ih.items hvs
        exact ⟨_, .list (hcs.blank_append (by simp) hws), by rw [heq, hskip]; simp⟩
  case h_3 text =>
    obtain ⟨ws, hws, heq⟩ := exists_skipSpace text
    cases depth with
    | zero => cases h
    | succ depth =>
      simp only at h
      split at h
      case h_1 hskip =>
        cases h
        exact ⟨_, .emptyObject hws, by rw [heq, hskip]; simp⟩
      case h_2 =>
        simp only [bind_ok_iff, Prod.exists] at h
        obtain ⟨es, rest', hes, h⟩ := h
        cases h
        obtain ⟨cs, hcs, hskip⟩ := ih.entries hes
        exact ⟨_, .object (hcs.blank_append (by simp) hws), by rw [heq, hskip]; simp⟩
  case h_4 => exact derives_of_atom depth h

/-- A value is an element, and the blanks after it belong to it. -/
theorem derives_element (h : Derives N depth .value cs) (hws : Blank ws) :
    Derives N depth .element (cs ++ ws) :=
  .element .nil h hws

theorem ReadsParts.items_succ {vs : List Value} (ih : ReadsParts fuel)
    (h : Json.items depth (fuel + 1) text = .ok (vs, rest)) :
    ∃ cs, Derives ReadableNumber depth .items cs ∧ text = cs ++ ']' :: rest := by
  rw [Json.items.eq_def] at h
  simp only [bind_ok_iff, Prod.exists] at h
  obtain ⟨v, rest₁, hv, h⟩ := h
  obtain ⟨cs, hcs, rfl⟩ := ih.value hv
  obtain ⟨ws, hws, heq⟩ := exists_skipSpace rest₁
  split at h
  case h_1 hskip =>
    cases h
    exact ⟨_, .lastItem (derives_element hcs hws), by rw [heq, hskip]; simp⟩
  case h_2 rest₂ hskip =>
    simp only [bind_ok_iff, Prod.exists] at h
    obtain ⟨us, rest₃, hus, h⟩ := h
    cases h
    obtain ⟨ds, hds, heq'⟩ := ih.items hus
    obtain ⟨ws', hws', heq''⟩ := exists_skipSpace rest₂
    refine ⟨_, .item (derives_element hcs hws) (hds.blank_append (by simp) hws'), ?_⟩
    rw [heq, hskip, heq'', heq']
    simp
  case h_3 => cases h

theorem ReadsParts.entries_succ {es es' : List (String × Value)} (ih : ReadsParts fuel)
    (h : Json.entries depth (fuel + 1) es text = .ok (es', rest)) :
    ∃ cs, Derives ReadableNumber depth .entries cs ∧ text = cs ++ '\x7d' :: rest := by
  rw [Json.entries.eq_def] at h
  simp only at h
  split at h
  case h_1 text =>
    simp only [bind_ok_iff, Prod.exists] at h
    obtain ⟨k, rest₁, hk, h⟩ := h
    obtain ⟨key, hkey, heq⟩ := stringText_of_string hk
    obtain ⟨ws, hws, heq₁⟩ := exists_skipSpace rest₁
    split at h
    case h_1 rest₂ hcolon =>
      simp only [bind_ok_iff, Prod.exists] at h
      obtain ⟨v, rest₃, hv, h⟩ := h
      obtain ⟨cs, hcs, heq₂⟩ := ih.value hv
      obtain ⟨before, hbefore, hskip⟩ := exists_skipSpace rest₂
      obtain ⟨after, hafter, heq₃⟩ := exists_skipSpace rest₃
      have helement := Derives.element hbefore hcs hafter
      split at h
      case h_1 hclose =>
        cases h
        refine ⟨_, .lastEntry .nil hkey hws helement, ?_⟩
        rw [heq, heq₁, hcolon, hskip, heq₂, heq₃, hclose]
        simp
      case h_2 rest₄ hcomma =>
        obtain ⟨ds, hds, heq₄⟩ := ih.entries h
        obtain ⟨ws', hws', heq₅⟩ := exists_skipSpace rest₄
        refine ⟨_, .entry .nil hkey hws helement (hds.blank_append (by simp) hws'), ?_⟩
        rw [heq, heq₁, hcolon, hskip, heq₂, heq₃, hcomma, heq₅, heq₄]
        simp
      case h_3 => cases h
    case h_2 => cases h
  case h_2 => cases h

theorem readsParts (fuel : Nat) : ReadsParts fuel := by
  induction fuel with
  | zero => exact ⟨nofun, nofun, nofun⟩
  | succ fuel ih => exact ⟨ih.value_succ, ih.items_succ, ih.entries_succ⟩

/-- Whatever is read as a document can be read. -/
theorem isReadable_of_parse {room : Nat} {v : Value} (h : parse room text = .ok v) :
    IsReadable room text := by
  have hdocument : parse.document room text = .ok v := by
    unfold parse at h
    split at h
    · split at h
      · cases h
      · exact h
    · exact h
  simp only [parse.document, bind_ok_iff, Prod.exists] at hdocument
  obtain ⟨v, rest, hv, hdocument⟩ := hdocument
  split at hdocument
  case h_1 hend =>
    obtain ⟨cs, hcs, heq⟩ := (readsParts _).value hv
    obtain ⟨pre, hpre, hskip⟩ := exists_skipSpace text
    obtain ⟨post, hpost, heq'⟩ := exists_skipSpace rest
    rw [hskip, heq, heq', hend, List.append_nil]
    exact .element hpre hcs hpost
  case h_2 => cases hdocument

end Nftables.Json
