import Nftables.Proofs.Json.Compact
import Nftables.Proofs.Json.Writable
import Nftables.Proofs.Value.Entries

/-!
# Texts read back

The compact text of a plain value is read as that value, and so is its indented text, if the value
can be written with the room there is.  Both are texts with blanks where blanks may be (`Spells`),
and of such a text it is shown once that it is read back.  Its length is fuel enough.
-/

namespace Nftables.Json

open Text (isDigit hasNumeral integer)

variable {v : Value} {vs : List Value} {es : List (String × Value)} {k : String} {c : Char}
variable {cs ds ws pre rest : List Char} {depth fuel : Nat}

/-! ## Texts of values -/

/-- What a text may be a text of. -/
inductive Piece where
  | value (v : Value)
  | items (vs : List Value)
  | entries (es : List (String × Value))

/-- The texts of a plain value, of its items and of its entries, with so many lists and objects within
each other at most.  There may be blanks in front of an item, in front of a key, after a colon, and in
front of what closes a list or an object. -/
inductive Spells : (depth : Nat) → Piece → List Char → Prop where
  | null {depth : Nat} : Spells depth (.value .null) ['n', 'u', 'l', 'l']
  | true {depth : Nat} : Spells depth (.value (.bool true)) ['t', 'r', 'u', 'e']
  | false {depth : Nat} : Spells depth (.value (.bool false)) ['f', 'a', 'l', 's', 'e']
  | int {depth : Nat} {n : Int} (h : hasNumeral n = .true) :
      Spells depth (.value (.int n)) (integer n)
  | str {depth : Nat} (s : String) : Spells depth (.value (.str s)) (quote s)
  | emptyList {depth : Nat} : Spells (depth + 1) (.value (.list [])) ['[', ']']
  | list {depth : Nat} {vs : List Value} {cs ws : List Char} (h : Spells depth (.items vs) cs)
      (hws : Blank ws) : Spells (depth + 1) (.value (.list vs)) ('[' :: (cs ++ (ws ++ [']'])))
  | emptyObject {depth : Nat} : Spells (depth + 1) (.value (.object [])) ['\x7b', '\x7d']
  | object {depth : Nat} {es : List (String × Value)} {cs ws : List Char}
      (hkeys : (es.map Prod.fst).Nodup) (h : Spells depth (.entries es) cs) (hws : Blank ws) :
      Spells (depth + 1) (.value (.object es)) ('\x7b' :: (cs ++ (ws ++ ['\x7d'])))
  | lastItem {depth : Nat} {v : Value} {cs ws : List Char} (hws : Blank ws)
      (h : Spells depth (.value v) cs) : Spells depth (.items [v]) (ws ++ cs)
  | item {depth : Nat} {v : Value} {vs : List Value} {cs ds ws : List Char} (hws : Blank ws)
      (h : Spells depth (.value v) cs) (hs : Spells depth (.items vs) ds) :
      Spells depth (.items (v :: vs)) (ws ++ (cs ++ ',' :: ds))
  | lastEntry {depth : Nat} {k : String} {v : Value} {cs ws pre : List Char} (hws : Blank ws)
      (hpre : Blank pre) (h : Spells depth (.value v) cs) :
      Spells depth (.entries [(k, v)]) (ws ++ (quote k ++ ':' :: (pre ++ cs)))
  | entry {depth : Nat} {k : String} {v : Value} {es : List (String × Value)}
      {cs ds ws pre : List Char} (hws : Blank ws) (hpre : Blank pre)
      (h : Spells depth (.value v) cs) (hs : Spells depth (.entries es) ds) :
      Spells depth (.entries ((k, v) :: es)) (ws ++ (quote k ++ ':' :: (pre ++ (cs ++ ',' :: ds))))

/-! ## How texts start -/

/-- A character that the first part of a document may start with.  It is no blank, it closes
nothing, and it is not the mark of a byte order. -/
def Starts (c : Char) : Prop :=
  isSpace c = false ∧ c ∉ [']', '\x7d', Char.ofNat 0xFEFF]

theorem starts_of_isDigit (hc : isDigit c = true) : Starts c := by
  constructor
  · by_contra hspace
    simp only [isSpace, Bool.not_eq_false, Bool.or_eq_true, beq_iff_eq] at hspace
    rcases hspace with ((rfl | rfl) | rfl) | rfl <;> cases hc
  · intro hmem
    simp only [List.mem_cons, List.not_mem_nil, or_false] at hmem
    rcases hmem with rfl | rfl | rfl <;> revert hc <;> decide

theorem quote_append (s : String) (rest : List Char) :
    quote s ++ rest = '"' :: (s.toList.flatMap escape ++ '"' :: rest) := by
  simp [quote]

theorem exists_start_of_integer (n : Int) : ∃ c cs, integer n = c :: cs ∧ Starts c := by
  obtain ⟨c, cs, heq, hc⟩ := exists_decimal_eq_cons n.natAbs
  unfold integer
  split
  · exact ⟨'-', _, rfl, rfl, by decide⟩
  · exact ⟨c, cs, heq, starts_of_isDigit hc⟩

theorem exists_start_of_spells (h : Spells depth (.value v) cs) :
    ∃ c ds, cs = c :: ds ∧ Starts c := by
  cases h with
  | int => exact exists_start_of_integer _
  | null | true | false | str | emptyList | list | emptyObject | object =>
    exact ⟨_, _, rfl, rfl, by decide⟩

/-- No blanks are skipped in front of a value. -/
theorem skipSpace_of_spells (h : Spells depth (.value v) cs) (rest : List Char) :
    skipSpace (cs ++ rest) = cs ++ rest := by
  obtain ⟨c, ds, rfl, hc⟩ := exists_start_of_spells h
  exact skipSpace_cons hc.1

theorem exists_start_of_items (h : Spells depth (.items vs) cs) (rest : List Char) :
    ∃ c ds, skipSpace (cs ++ rest) = c :: ds ∧ Starts c := by
  have hvalue {v : Value} {cs ws rest : List Char} (hws : Blank ws)
      (h : Spells depth (.value v) cs) :
      ∃ c ds, skipSpace (ws ++ (cs ++ rest)) = c :: ds ∧ Starts c := by
    obtain ⟨c, ds, heq, hc⟩ := exists_start_of_spells h
    exact ⟨c, ds ++ rest, by rw [skipSpace_append hws, skipSpace_of_spells h, heq]; rfl, hc⟩
  cases h with
  | lastItem hws h =>
    rw [List.append_assoc]
    exact hvalue hws h
  | item hws h =>
    rw [List.append_assoc, List.append_assoc]
    exact hvalue hws h

/-- Entries start with the quote of their first key. -/
theorem exists_start_of_entries (h : Spells depth (.entries es) cs) (rest : List Char) :
    ∃ ds, skipSpace (cs ++ rest) = '"' :: ds := by
  cases h with
  | lastEntry hws | entry hws =>
    rw [List.append_assoc, skipSpace_append hws, List.append_assoc, quote_append]
    exact ⟨_, skipSpace_cons rfl⟩

/-! ## Reading -/

theorem endsInteger_cons (h : isDigit c = false ∧ c ≠ '.' ∧ c ≠ 'e' ∧ c ≠ 'E') :
    EndsInteger (c :: rest) := by
  rintro d ⟨⟩
  exact h

/-- A blank ends an integer, as does what comes after blanks. -/
theorem endsInteger_append (hws : Blank ws) (h : EndsInteger rest) : EndsInteger (ws ++ rest) := by
  cases ws with
  | nil => exact h
  | cons c ws =>
    have hspace := hws c List.mem_cons_self
    simp only [isSpace, Bool.or_eq_true, beq_iff_eq] at hspace
    refine endsInteger_cons ?_
    rcases hspace with ((rfl | rfl) | rfl) | rfl <;> decide

/-- A piece is read off a text, whatever follows that may follow it, given as much fuel as the text has
characters. -/
def Reads (depth : Nat) : Piece → List Char → Prop
  | .value v, cs => ∀ (fuel : Nat) (rest : List Char), cs.length ≤ fuel → EndsInteger rest →
      value depth fuel (cs ++ rest) = .ok (v, rest)
  | .items vs, cs => ∀ (fuel : Nat) (ws rest : List Char), cs.length < fuel → Blank ws →
      items depth fuel (skipSpace (cs ++ (ws ++ ']' :: rest))) = .ok (vs, rest)
  | .entries es, cs => ∀ (fuel : Nat) (acc : List (String × Value)) (ws rest : List Char),
      cs.length < fuel → Blank ws → ((acc ++ es).map Prod.fst).Nodup →
      entries depth fuel acc (skipSpace (cs ++ (ws ++ '\x7d' :: rest))) = .ok (acc ++ es, rest)

theorem value_of_notMem (hc : c ∉ ['"', '[', '\x7b']) :
    value depth (fuel + 1) (c :: cs) = atom (c :: cs) := by
  simp only [List.mem_cons, List.not_mem_nil, or_false, not_or] at hc
  rw [value]
  · rintro _ ⟨⟩
    exact absurd rfl hc.1
  · rintro _ ⟨⟩
    exact absurd rfl hc.2.1
  · rintro _ ⟨⟩
    exact absurd rfl hc.2.2

theorem value_integer {n : Int} (hn : hasNumeral n = true) (hrest : EndsInteger rest) :
    value depth (fuel + 1) (integer n ++ rest) = .ok (.int n, rest) := by
  rw [← atom_integer hn hrest]
  obtain ⟨c, cs, heq, hc⟩ := exists_decimal_eq_cons n.natAbs
  unfold integer
  split
  · exact value_of_notMem (by decide)
  · rw [heq]
    refine value_of_notMem fun hmem ↦ ?_
    simp only [List.mem_cons, List.not_mem_nil, or_false] at hmem
    rcases hmem with rfl | rfl | rfl <;> cases hc

theorem value_quote (s : String) :
    value depth (fuel + 1) (quote s ++ rest) = .ok (.str s, rest) := by
  have hstring := string_quote s rest
  rw [quote_append] at hstring ⊢
  simp [value, hstring, bind, Except.bind]

/-- No text of a value is empty, so there is always fuel for it. -/
theorem reads_of_succ (h : Spells depth (.value v) cs)
    (hread : ∀ (fuel : Nat) (rest : List Char), cs.length ≤ fuel + 1 → EndsInteger rest →
      value depth (fuel + 1) (cs ++ rest) = .ok (v, rest)) : Reads depth (.value v) cs := by
  intro fuel rest hfuel hrest
  obtain ⟨c, ds, rfl, -⟩ := exists_start_of_spells h
  cases fuel with
  | zero => simp at hfuel
  | succ fuel => exact hread fuel rest hfuel hrest

theorem reads_list (h : Spells depth (.items vs) cs) (hreads : Reads depth (.items vs) cs)
    (hws : Blank ws) : Reads (depth + 1) (.value (.list vs)) ('[' :: (cs ++ (ws ++ [']']))) := by
  refine reads_of_succ (.list h hws) fun fuel rest hfuel _ ↦ ?_
  simp only [List.length_cons, List.length_append, List.length_nil] at hfuel
  have hitems := hreads fuel ws rest (by omega) hws
  obtain ⟨c, ds, hskip, hc⟩ := exists_start_of_items h (ws ++ ']' :: rest)
  have hne : c ≠ ']' := fun h ↦ hc.2 (by simp [h])
  rw [hskip] at hitems
  simp [value, hskip, hne, hitems, bind, Except.bind]

theorem reads_object (hkeys : (es.map Prod.fst).Nodup) (h : Spells depth (.entries es) cs)
    (hreads : Reads depth (.entries es) cs) (hws : Blank ws) :
    Reads (depth + 1) (.value (.object es)) ('\x7b' :: (cs ++ (ws ++ ['\x7d']))) := by
  refine reads_of_succ (.object hkeys h hws) fun fuel rest hfuel _ ↦ ?_
  simp only [List.length_cons, List.length_append, List.length_nil] at hfuel
  have hentries := hreads fuel [] ws rest (by omega) hws hkeys
  obtain ⟨ds, hskip⟩ := exists_start_of_entries h (ws ++ '\x7d' :: rest)
  rw [hskip] at hentries
  simp [value, hskip, hentries, bind, Except.bind]

theorem reads_lastItem (hws : Blank ws) (h : Spells depth (.value v) cs)
    (hreads : Reads depth (.value v) cs) : Reads depth (.items [v]) (ws ++ cs) := by
  intro fuel post rest hfuel hpost
  obtain ⟨fuel, rfl⟩ := Nat.exists_eq_add_one_of_ne_zero (Nat.ne_zero_of_lt hfuel)
  rw [List.length_append] at hfuel
  have hv := hreads fuel (post ++ ']' :: rest) (by omega)
    (endsInteger_append hpost (endsInteger_cons (by decide)))
  have hclose : skipSpace (post ++ ']' :: rest) = ']' :: rest := by
    rw [skipSpace_append hpost, skipSpace_cons rfl]
  rw [List.append_assoc, skipSpace_append hws, skipSpace_of_spells h, items, hv]
  simp [hclose, bind, Except.bind]

theorem reads_item (hws : Blank ws) (h : Spells depth (.value v) cs)
    (hreads : Reads depth (.value v) cs) (hs : Reads depth (.items vs) ds) :
    Reads depth (.items (v :: vs)) (ws ++ (cs ++ ',' :: ds)) := by
  intro fuel post rest hfuel hpost
  obtain ⟨fuel, rfl⟩ := Nat.exists_eq_add_one_of_ne_zero (Nat.ne_zero_of_lt hfuel)
  simp only [List.length_append, List.length_cons] at hfuel
  have hv := hreads fuel (',' :: (ds ++ (post ++ ']' :: rest))) (by omega)
    (endsInteger_cons (by decide))
  have hvs := hs fuel post rest (by omega) hpost
  have hassoc : ws ++ (cs ++ ',' :: ds) ++ (post ++ ']' :: rest) =
      ws ++ (cs ++ ',' :: (ds ++ (post ++ ']' :: rest))) := by simp
  rw [hassoc, skipSpace_append hws, skipSpace_of_spells h, items, hv]
  simp [skipSpace_cons (show isSpace ',' = false from rfl), hvs, bind, Except.bind]

/-- One entry: a key, which is new, and a value.  What follows the value says how to go on. -/
theorem entries_entry {acc : List (String × Value)} {more : List Char}
    {r : Except Fault (List (String × Value) × List Char)} (hws : Blank ws) (hpre : Blank pre)
    (h : Spells depth (.value v) cs) (hreads : Reads depth (.value v) cs)
    (hkey : k ∉ acc.map Prod.fst) (hfuel : cs.length ≤ fuel) (hend : EndsInteger more)
    (hmore : (match skipSpace more with
      | '\x7d' :: rest => .ok (acc ++ [(k, v)], rest)
      | ',' :: rest => entries depth fuel (acc ++ [(k, v)]) (skipSpace rest)
      | rest => fail .expectedComma rest) = r) :
    entries depth (fuel + 1) acc
      (skipSpace (ws ++ (quote k ++ ':' :: (pre ++ (cs ++ more))))) = r := by
  have hstring := string_quote k (':' :: (pre ++ (cs ++ more)))
  have hvalue := hreads fuel more hfuel hend
  have hskip : skipSpace (pre ++ (cs ++ more)) = cs ++ more := by
    rw [skipSpace_append hpre, skipSpace_of_spells h]
  rw [skipSpace_append hws]
  rw [quote_append] at hstring ⊢
  rw [skipSpace_cons rfl]
  simp only [entries, hstring, bind, Except.bind, skipSpace_cons (show isSpace ':' = false from rfl),
    hskip, hvalue, Value.insert_of_notMem hkey]
  exact hmore

theorem notMem_keys {acc : List (String × Value)}
    (h : ((acc ++ (k, v) :: es).map Prod.fst).Nodup) : k ∉ acc.map Prod.fst := by
  rw [List.map_append, List.map_cons] at h
  exact fun hk ↦ (List.nodup_append.mp h).2.2 k hk k List.mem_cons_self rfl

theorem reads_lastEntry (hws : Blank ws) (hpre : Blank pre) (h : Spells depth (.value v) cs)
    (hreads : Reads depth (.value v) cs) :
    Reads depth (.entries [(k, v)]) (ws ++ (quote k ++ ':' :: (pre ++ cs))) := by
  intro fuel acc post rest hfuel hpost hkeys
  obtain ⟨fuel, rfl⟩ := Nat.exists_eq_add_one_of_ne_zero (Nat.ne_zero_of_lt hfuel)
  simp only [List.length_append, List.length_cons] at hfuel
  have hend : EndsInteger (post ++ '\x7d' :: rest) :=
    endsInteger_append hpost (endsInteger_cons (by decide))
  simp only [List.append_assoc, List.cons_append]
  refine entries_entry hws hpre h hreads (notMem_keys hkeys) (by omega) hend ?_
  rw [skipSpace_append hpost, skipSpace_cons rfl]
  rfl

/-- The entries of an object are added, in their order, to those that have been read before. -/
theorem reads_entry (hws : Blank ws) (hpre : Blank pre) (h : Spells depth (.value v) cs)
    (hreads : Reads depth (.value v) cs) (hs : Reads depth (.entries es) ds) :
    Reads depth (.entries ((k, v) :: es))
      (ws ++ (quote k ++ ':' :: (pre ++ (cs ++ ',' :: ds)))) := by
  intro fuel acc post rest hfuel hpost hkeys
  obtain ⟨fuel, rfl⟩ := Nat.exists_eq_add_one_of_ne_zero (Nat.ne_zero_of_lt hfuel)
  simp only [List.length_append, List.length_cons] at hfuel
  have hrest := hs fuel (acc ++ [(k, v)]) post rest (by omega) hpost (by simpa using hkeys)
  simp only [List.append_assoc, List.cons_append]
  refine entries_entry hws hpre h hreads (notMem_keys hkeys) (by omega)
    (endsInteger_cons (by decide)) ?_
  rw [skipSpace_cons rfl]
  simpa using hrest

/-- What spells a piece is read as that piece. -/
theorem reads_of_spells {p : Piece} (h : Spells depth p cs) : Reads depth p cs := by
  induction h with
  | null => exact reads_of_succ .null fun _ _ _ _ ↦ rfl
  | true => exact reads_of_succ .true fun _ _ _ _ ↦ rfl
  | false => exact reads_of_succ .false fun _ _ _ _ ↦ rfl
  | int h => exact reads_of_succ (.int h) fun _ _ _ hrest ↦ value_integer h hrest
  | str s => exact reads_of_succ (.str s) fun _ _ _ _ ↦ value_quote s
  | emptyList => exact reads_of_succ .emptyList fun _ _ _ _ ↦ rfl
  | list h hws ih => exact reads_list h ih hws
  | emptyObject => exact reads_of_succ .emptyObject fun _ _ _ _ ↦ rfl
  | object hkeys h hws ih => exact reads_object hkeys h ih hws
  | lastItem hws h ih => exact reads_lastItem hws h ih
  | item hws h _ ih ihs => exact reads_item hws h ih ihs
  | lastEntry hws hpre h ih => exact reads_lastEntry hws hpre h ih
  | entry hws hpre h _ ih ihs => exact reads_entry hws hpre h ih ihs

/-- A whole text is read as the value that it spells, with blanks after it or without. -/
theorem parse_of_spells (h : Spells depth (.value v) cs) (hws : Blank ws) :
    parse depth (cs ++ ws) = .ok v := by
  have hend : EndsInteger ws := List.append_nil ws ▸ endsInteger_append hws nofun
  have hvalue := reads_of_spells h (2 * (cs ++ ws).length + 2) ws
    (by rw [List.length_append]; omega) hend
  have hempty : skipSpace ws = [] := List.append_nil ws ▸ skipSpace_append hws []
  have hdocument : parse.document depth (cs ++ ws) = .ok v := by
    rw [parse.document, skipSpace_of_spells h, hvalue]
    simp [hempty, bind, Except.bind]
  obtain ⟨c, ds, rfl, hc⟩ := exists_start_of_spells h
  have hmark : c ≠ Char.ofNat 0xFEFF := fun h ↦ hc.2 (by simp [h])
  rw [List.cons_append] at hdocument ⊢
  rw [parse, if_neg hmark, hdocument]

/-! ## Compact texts -/

theorem blank_newLine (level : Nat) : Blank (newLine level) := by
  refine List.forall_mem_cons.mpr ⟨rfl, fun c hc ↦ ?_⟩
  rw [List.eq_of_mem_replicate hc]
  rfl

theorem spells_indentedItems (level : Nat)
    (h : ∀ w ∈ v :: vs, Spells depth (.value w) (indented level w)) :
    Spells depth (.items (v :: vs)) (indentedItems level (v :: vs)) := by
  induction vs generalizing v with
  | nil => exact .lastItem (blank_newLine level) (h v List.mem_cons_self)
  | cons w vs ih =>
    have heq : indentedItems level (v :: w :: vs) =
        newLine level ++ (indented level v ++ ',' :: indentedItems level (w :: vs)) := by
      simp [indentedItems]
    rw [heq]
    exact .item (blank_newLine level) (h v List.mem_cons_self)
      (ih fun x hx ↦ h x (List.mem_cons_of_mem _ hx))

theorem spells_indentedEntries (level : Nat) {e : String × Value}
    (h : ∀ e' ∈ e :: es, Spells depth (.value e'.2) (indented level e'.2)) :
    Spells depth (.entries (e :: es)) (indentedEntries level (e :: es)) := by
  have hblank : Blank [' '] := List.forall_mem_singleton.mpr rfl
  induction es generalizing e with
  | nil =>
    obtain ⟨k, v⟩ := e
    have heq : indentedEntries level [(k, v)] =
        newLine level ++ (quote k ++ ':' :: ([' '] ++ indented level v)) := by
      simp [indentedEntries]
    rw [heq]
    exact .lastEntry (blank_newLine level) hblank (h (k, v) List.mem_cons_self)
  | cons e' es ih =>
    obtain ⟨k, v⟩ := e
    have heq : indentedEntries level ((k, v) :: e' :: es) = newLine level ++ (quote k ++
        ':' :: ([' '] ++ (indented level v ++ ',' :: indentedEntries level (e' :: es)))) := by
      simp [indentedEntries]
    rw [heq]
    exact .entry (blank_newLine level) hblank (h (k, v) List.mem_cons_self)
      (ih fun x hx ↦ h x (List.mem_cons_of_mem _ hx))

theorem spells_indented (level : Nat) (hv : v.Plain) (hw : Writable depth v) :
    Spells depth (.value v) (indented level v) := by
  induction hv generalizing level depth with
  | null => exact .null
  | bool b =>
    cases b with
    | true => exact .true
    | false => exact .false
  | int n =>
    have heq : indented level (.int n) = integer n := by simp [indented, scalar]
    rw [heq]
    exact .int (writable_int_iff.mp hw)
  | str s =>
    have heq : indented level (.str s) = quote s := by simp [indented, scalar]
    rw [heq]
    exact .str s
  | @list vs _ ih =>
    cases hw with
    | list hw =>
      cases vs with
      | nil => exact .emptyList
      | cons v vs =>
        have heq : indented level (.list (v :: vs)) =
            '[' :: (indentedItems (level + 1) (v :: vs) ++ (newLine level ++ [']'])) := by
          simp [indented]
        rw [heq]
        exact .list (spells_indentedItems _ fun w hmem ↦ ih w hmem _ (hw w hmem))
          (blank_newLine level)
  | @object es hkeys _ ih =>
    cases hw with
    | object hw =>
      cases es with
      | nil => exact .emptyObject
      | cons e es =>
        have heq : indented level (.object (e :: es)) =
            '\x7b' :: (indentedEntries (level + 1) (e :: es) ++ (newLine level ++ ['\x7d'])) := by
          simp [indented]
        rw [heq]
        exact .object hkeys (spells_indentedEntries _ fun e' he ↦ ih e' he _ (hw e' he))
          (blank_newLine level)

/-- **Indented texts are read back.**  The indented text of a plain value, on lines of its own, is read
as the value. -/
theorem parse_indented (hv : v.Plain) (hw : Writable depth v) :
    parse depth (indented 0 v ++ ['\n']) = .ok v :=
  parse_of_spells (spells_indented 0 hv hw) (List.forall_mem_singleton.mpr rfl)

end Nftables.Json
