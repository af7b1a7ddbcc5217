import Nftables.Proofs.Binary64
import Nftables.Proofs.Options.Markers

/-!
# The normal form of a configuration

Options can be written down as a configuration that says all of them.  It is read as these options
again if they are ones that a configuration can have (`Readable`), and every configuration that is
read has such ones.  Each key is read for itself, so a configuration without one of its keys gives
the same options but for the one of this key, which is the default.
-/

namespace Nftables

open Yaml (Datum)

namespace Options

variable {d : Datum} {es : List (Datum × Datum)} {o : Options} {key key' : Key}
  {ms ns ps : List String}

/-! ## Markers -/

theorem addMarkers_append : addMarkers ms (ns ++ ps) = addMarkers (addMarkers ms ns) ps := by
  induction ns generalizing ms with
  | nil => rfl
  | cons n ns ih => simp only [List.cons_append, addMarkers, ih]

/-- Further markers go to the end, each where it first occurs. -/
theorem addMarkers_eq : addMarkers ms ns = ms ++ (ns.filter (· ∉ ms)).eraseDups := by
  induction ns generalizing ms with
  | nil => simp [addMarkers]
  | cons n ns ih =>
    rw [addMarkers, ih]
    by_cases hn : n ∈ ms
    · simp [hn]
    · have hrest : ns.filter (· ∉ ms ++ [n]) = (ns.filter (· ∉ ms)).filter (!· == n) := by
        rw [List.filter_filter]
        refine List.filter_congr fun m _ ↦ ?_
        grind
      rw [List.contains_eq_mem, decide_eq_false hn, if_neg Bool.false_ne_true, hrest,
        List.filter_cons_of_pos (by simpa using hn), List.eraseDups_cons, List.append_assoc,
        List.singleton_append]

theorem nodup_addMarkers (h : ms.Nodup) : (addMarkers ms ns).Nodup := by
  induction ns generalizing ms with
  | nil => exact h
  | cons n ns ih =>
    rw [addMarkers]
    split
    case isTrue => exact ih h
    case isFalse hn =>
      rw [List.contains_iff_mem] at hn
      exact ih (List.nodup_append.mpr ⟨h, by simp, by grind⟩)

theorem addMarkers_of_subset (h : ∀ n ∈ ns, n ∈ ms) : addMarkers ms ns = ms := by
  have hnone : ns.filter (· ∉ ms) = [] := by simpa using h
  rw [addMarkers_eq, hnone, List.eraseDups_nil, List.append_nil]

theorem addMarkers_of_nodup (h : (ms ++ ns).Nodup) : addMarkers ms ns = ms ++ ns := by
  induction ns generalizing ms with
  | nil => exact (List.append_nil ms).symm
  | cons n ns ih =>
    have hn : ms.contains n = false := by
      rw [List.contains_eq_mem, decide_eq_false_iff_not]
      exact fun hms ↦ (List.nodup_append.mp h).2.2 n hms n List.mem_cons_self rfl
    rw [← List.singleton_append, ← List.append_assoc] at h ⊢
    rw [List.singleton_append, addMarkers, hn, if_neg Bool.false_ne_true, ih h]

/-- Markers that have been added make no difference when they are added once more. -/
theorem addMarkers_addMarkers (h : ms.Nodup) :
    addMarkers ms (addMarkers ms ns) = addMarkers ms ns := by
  obtain ⟨ps, hps⟩ : ∃ ps, addMarkers ms ns = ms ++ ps := ⟨_, addMarkers_eq⟩
  have hnodup : (ms ++ ps).Nodup := hps ▸ nodup_addMarkers h
  rw [hps, addMarkers_append, addMarkers_of_subset fun _ ↦ id, addMarkers_of_nodup hnodup]

/-! ## Values -/

theorem isNonPositive_of_readTimeout {x : Binary64} (h : readTimeout d = .ok x) :
    x.isNonPositive = false := by
  unfold readTimeout at h
  split at h
  case h_1 n =>
    split at h
    case isTrue => cases h
    case isFalse hn =>
      split at h
      case h_1 y hy =>
        cases h
        rw [Bool.eq_false_iff, Ne, Binary64.isNonPositive_of_ofInt? hy]
        exact hn
      case h_2 => cases h
  case h_2 y =>
    split at h
    case isTrue => cases h
    case isFalse hy =>
      cases h
      exact Bool.eq_false_iff.mpr hy
  case h_3 => cases h

theorem readTimeout_float {x : Binary64} (h : x.isNonPositive = false) :
    readTimeout (.float x) = .ok x := by
  simp [readTimeout, h]

theorem readFamily_wire (f : Family) : readFamily (.str (Vocabulary.wire f)) = .ok f := by
  cases f <;> rfl

theorem readWorker_texts (ws : List String) : readWorker (.list (ws.map .str)) = .ok ws := by
  rw [readWorker, texts?_eq_some_iff.mpr rfl]

theorem readLogLevel_name (s : Log.Severity) : readLogLevel (.str s.name) = .ok s := by
  cases s <;> rfl

/-! ## Normal forms -/

/-- What options are, by the key that says it.  No family is said by saying nothing. -/
def said (o : Options) : Key → Option Datum
  | .timeout => some (.float o.timeout)
  | .family => o.family.map fun f ↦ .str (Vocabulary.wire f)
  | .worker => some (.list (o.worker.map .str))
  | .markers => some (.list (o.markers.map .str))
  | .logLevel => some (.str o.logLevel.name)

/-- The configuration that says all that options are. -/
def entries (o : Options) : List (Datum × Datum) :=
  Key.all.filterMap fun key ↦ (o.said key).map (.str key.name, ·)

/-- Options that a configuration can have: a timeout that is not zero or less, and the default
markers with further ones that are not empty. -/
structure Readable (o : Options) : Prop where
  timeout : o.timeout.isNonPositive = false
  markers : ∃ ns, "" ∉ ns ∧ addMarkers Outcome.defaultMarkers ns = o.markers

theorem setting_ok_iff {α : Type} {default a : α} {read : Datum → Except Error α} :
    setting es key default read = .ok a ↔
      (Datum.lookup key.name es = none ∧ default = a) ∨
        ∃ d, Datum.lookup key.name es = some d ∧ read d = .ok a := by
  unfold setting
  cases Datum.lookup key.name es <;> simp

theorem readable_of_ofMapping (h : ofMapping es = .ok o) : o.Readable := by
  obtain ⟨-, htimeout, -, -, hmarkers, -⟩ := ofMapping_ok_iff.mp h
  constructor
  · rcases setting_ok_iff.mp htimeout with ⟨-, hdefault⟩ | ⟨d, -, hread⟩
    · rw [← hdefault]
      decide
    · exact isNonPositive_of_readTimeout hread
  · rcases setting_ok_iff.mp hmarkers with ⟨-, hdefault⟩ | ⟨d, -, hread⟩
    · exact ⟨[], List.not_mem_nil, hdefault⟩
    · obtain ⟨ns, -, hempty, hns⟩ := readMarkers_ok_iff.mp hread
      exact ⟨ns, hempty, hns⟩

theorem unknownKeys_eq_nil_iff : unknownKeys es = [] ↔ ∀ e ∈ es, isKnown e.1 = true := by
  simp [unknownKeys]

theorem isKnown_name (key : Key) : isKnown (.str key.name) = true := by
  cases key <;> decide

theorem unknownKeys_entries (o : Options) : unknownKeys o.entries = [] := by
  refine unknownKeys_eq_nil_iff.mpr fun e he ↦ ?_
  obtain ⟨key, -, hsaid⟩ := List.mem_filterMap.mp he
  obtain ⟨d, -, rfl⟩ := Option.map_eq_some_iff.mp hsaid
  exact isKnown_name key

theorem lookup_entries (o : Options) (key : Key) :
    Datum.lookup key.name o.entries = o.said key := by
  cases hfamily : o.family <;> cases key <;>
    simp [entries, said, Key.all, Key.name, Datum.lookup, hfamily]

/-- Options that a configuration can have are read from the configuration that says them. -/
theorem ofMapping_entries (h : o.Readable) : ofMapping o.entries = .ok o := by
  have hsetting {α : Type} {key : Key} {default a : α} {read : Datum → Except Error α} {d : Datum}
      (hd : o.said key = some d) (hread : read d = .ok a) :
      setting o.entries key default read = .ok a :=
    setting_ok_iff.mpr (.inr ⟨d, (lookup_entries o key).trans hd, hread⟩)
  obtain ⟨ns, hempty, hns⟩ := h.markers
  have hmarkers : readMarkers (.list (o.markers.map .str)) = .ok o.markers := by
    refine readMarkers_ok_iff.mpr ⟨o.markers, rfl, ?_, ?_⟩
    · rw [← hns, mem_addMarkers, not_or]
      exact ⟨by decide, hempty⟩
    · rw [← hns]
      exact addMarkers_addMarkers (by decide)
  refine ofMapping_ok_iff.mpr ⟨unknownKeys_entries o, hsetting rfl (readTimeout_float h.timeout), ?_,
    hsetting rfl (readWorker_texts o.worker), hsetting rfl hmarkers,
    hsetting rfl (readLogLevel_name o.logLevel)⟩
  cases hfamily : o.family with
  | none => exact setting_ok_iff.mpr (.inl ⟨by rw [lookup_entries, said, hfamily]; rfl, rfl⟩)
  | some f =>
    have hsaid : o.said .family = some (.str (Vocabulary.wire f)) := by rw [said, hfamily]; rfl
    exact hsetting hsaid (by rw [readFamily_wire]; rfl)

/-! ## Single keys -/

/-- A configuration without one of its keys. -/
def drop (key : Key) (es : List (Datum × Datum)) : List (Datum × Datum) :=
  es.filter fun e ↦ !Datum.sameKey e.1 (.str key.name)

/-- Options with the default one for a key. -/
def reset (o : Options) : Key → Options
  | .timeout => { o with timeout := Client.defaultTimeout }
  | .family => { o with family := none }
  | .worker => { o with worker := [] }
  | .markers => { o with markers := Outcome.defaultMarkers }
  | .logLevel => { o with logLevel := .warning }

theorem Key.name_inj : key.name = key'.name ↔ key = key' := by
  cases key <;> cases key' <;> decide

theorem sameKey_str_iff {s : String} : Datum.sameKey d (.str s) = true ↔ d = .str s := by
  cases d <;> simp [Datum.sameKey, Datum.number?]

theorem lookup_cons (s : String) (e : Datum × Datum) (es : List (Datum × Datum)) :
    Datum.lookup s (e :: es) =
      if Datum.sameKey e.1 (.str s) then some e.2 else Datum.lookup s es := by
  obtain ⟨k, d⟩ := e
  cases k <;> simp [Datum.lookup, Datum.sameKey, Datum.number?]

theorem lookup_drop (key key' : Key) (es : List (Datum × Datum)) :
    Datum.lookup key'.name (drop key es) =
      if key = key' then none else Datum.lookup key'.name es := by
  induction es with
  | nil => exact (ite_self none).symm
  | cons e es ih =>
    rw [drop, List.filter_cons, ← drop]
    cases hk : Datum.sameKey e.1 (.str key.name) with
    | true =>
      rw [Bool.not_true, if_neg Bool.false_ne_true, ih]
      split
      case isTrue => rfl
      case isFalse hne =>
        have hk' : Datum.sameKey e.1 (.str key'.name) = false := by
          rw [Bool.eq_false_iff, Ne, sameKey_str_iff, sameKey_str_iff.mp hk, Datum.str.injEq,
            Key.name_inj]
          exact hne
        rw [lookup_cons, hk', if_neg Bool.false_ne_true]
    | false =>
      rw [Bool.not_false, if_pos rfl, lookup_cons, lookup_cons, ih]
      split
      case isTrue hk' =>
        have hne : key ≠ key' := by
          rintro rfl
          exact Bool.false_ne_true (hk.symm.trans hk')
        rw [if_neg hne]
      case isFalse => rfl

theorem setting_drop {α : Type} (key key' : Key) (es : List (Datum × Datum)) (default : α)
    (read : Datum → Except Error α) :
    setting (drop key es) key' default read =
      if key = key' then .ok default else setting es key' default read := by
  unfold setting
  rw [lookup_drop]
  by_cases hkey : key = key'
  · simp only [hkey, if_true]
  · simp only [hkey, if_false]

theorem unknownKeys_drop (h : unknownKeys es = []) : unknownKeys (drop key es) = [] := by
  rw [unknownKeys_eq_nil_iff] at h ⊢
  exact fun e he ↦ h e (List.mem_of_mem_filter he)

/-- A configuration without one of its keys is read, and gives the default for this key alone. -/
theorem ofMapping_drop (key : Key) (h : ofMapping es = .ok o) :
    ofMapping (drop key es) = .ok (o.reset key) := by
  obtain ⟨hknown, htimeout, hfamily, hworker, hmarkers, hlevel⟩ := ofMapping_ok_iff.mp h
  have hknown : unknownKeys (drop key es) = [] := unknownKeys_drop hknown
  cases key <;>
    simp only [ofMapping_ok_iff, setting_drop, reset, reduceCtorEq, if_true, if_false, hknown,
      htimeout, hfamily, hworker, hmarkers, hlevel, and_self]

/-! ## All of a configuration -/

/-- The markers that a configuration names. -/
inductive Names : Datum → List String → Prop
  | empty : Names .null []
  | unset {es : List (Datum × Datum)} (h : Datum.lookup Key.markers.name es = none) :
      Names (.mapping es) []
  | set {es : List (Datum × Datum)} {ms : List String}
      (h : Datum.lookup Key.markers.name es = some (.list (ms.map .str))) : Names (.mapping es) ms

theorem ofDatum_ok_iff : ofDatum d = .ok o ↔
    d = .null ∧ o = {} ∨ ∃ es, d = .mapping es ∧ ofMapping es = .ok o := by
  unfold ofDatum
  split
  case h_1 => simp [eq_comm]
  case h_2 es => simp
  case h_3 hnull hmapping =>
    simp only [reduceCtorEq, false_iff, not_or, not_and, not_exists]
    exact ⟨fun h ↦ absurd h hnull, fun es h ↦ absurd h (hmapping es)⟩

theorem readable_of_ofDatum (h : ofDatum d = .ok o) : o.Readable := by
  rcases ofDatum_ok_iff.mp h with ⟨-, rfl⟩ | ⟨es, -, hes⟩
  · exact ⟨by decide, [], List.not_mem_nil, rfl⟩
  · exact readable_of_ofMapping hes

/-- The markers of the options are the default ones and those that the configuration names. -/
theorem exists_names (h : ofDatum d = .ok o) :
    ∃ ms, Names d ms ∧ o.markers = addMarkers Outcome.defaultMarkers ms := by
  rcases ofDatum_ok_iff.mp h with ⟨rfl, rfl⟩ | ⟨es, rfl, hes⟩
  · exact ⟨[], .empty, rfl⟩
  · obtain ⟨-, -, -, -, hmarkers, -⟩ := ofMapping_ok_iff.mp hes
    rcases setting_ok_iff.mp hmarkers with ⟨hnone, hdefault⟩ | ⟨d, hd, hread⟩
    · exact ⟨[], .unset hnone, hdefault.symm⟩
    · obtain ⟨ms, rfl, -, hms⟩ := readMarkers_ok_iff.mp hread
      exact ⟨ms, .set hd, hms.symm⟩

/-- **Normal form.**  Of a configuration that is read with options `o`:

* the configuration that says all of `o` is read, as `o` again;
* the markers of `o` are the default ones, followed by the others that the configuration names, each
  where it is named first, and no marker is there twice;
* without any one of its keys the configuration is read as well, with the default for what the key
  says and with all else as in `o`. -/
theorem normal_form (h : ofDatum d = .ok o) :
    ofDatum (.mapping o.entries) = .ok o ∧
    (o.markers.Nodup ∧ ∃ ms, Names d ms ∧
      o.markers = Outcome.defaultMarkers ++
        (ms.filter (· ∉ Outcome.defaultMarkers)).eraseDups) ∧
    ∀ es key, d = .mapping es → ofDatum (.mapping (drop key es)) = .ok (o.reset key) := by
  refine ⟨ofMapping_entries (readable_of_ofDatum h), ?_, fun es key hd ↦ ?_⟩
  · obtain ⟨ms, hms, hmarkers⟩ := exists_names h
    refine ⟨?_, ms, hms, hmarkers.trans addMarkers_eq⟩
    rw [hmarkers]
    exact nodup_addMarkers (by decide)
  · subst hd
    exact ofMapping_drop key h

/-- A configuration with a family, a command as one text, and a marker that is given twice. -/
def spelledOut : List (Datum × Datum) :=
  [(.str "error_markers", .list [.str "EBUSY", .str "No such", .str "EBUSY"]),
    (.str "family", .str " IP6"), (.str "worker_command", .str "nft '-j -'"),
    (.str "timeout", .int 3)]

/-- The options come back from what they are written down as, and without its markers the
configuration gives the default ones. -/
theorem normal_form_spelledOut :
    ∃ o, ofDatum (.mapping spelledOut) = .ok o ∧ ofDatum (.mapping o.entries) = .ok o ∧
      o.worker = ["nft", "-j -"] ∧
      o.markers = ["does not exist", "No such", "not found", "Error:", "EBUSY"] ∧
      ofDatum (.mapping (drop .markers spelledOut)) = .ok (o.reset .markers) := by
  have hint : (Binary64.ofInt? 3).isSome = true := by decide +kernel
  obtain ⟨x, hx⟩ := Option.isSome_iff_exists.mp hint
  have hfamily : Vocabulary.find? (α := Family) " IP6" = some .ip6 := by decide +kernel
  have hwords : commandWords "nft '-j -'" = .ok ["nft", "-j -"] := by decide +kernel
  have ho : ofDatum (.mapping spelledOut) = .ok {
      timeout := x, family := some .ip6, worker := ["nft", "-j -"]
      markers := ["does not exist", "No such", "not found", "Error:", "EBUSY"] } := by
    rw [ofDatum, ofMapping_ok_iff]
    refine ⟨by decide +kernel, ?_, ?_, ?_, rfl, rfl⟩
    · exact setting_ok_iff.mpr (.inr ⟨.int 3, rfl, by simp [readTimeout, hx]⟩)
    · exact setting_ok_iff.mpr (.inr ⟨.str " IP6", rfl, by simp [readFamily, hfamily]⟩)
    · exact setting_ok_iff.mpr (.inr ⟨.str "nft '-j -'", rfl, by simp [readWorker, hwords]⟩)
  obtain ⟨hentries, -, hdrop⟩ := normal_form ho
  exact ⟨_, ho, hentries, rfl, rfl, hdrop spelledOut .markers rfl⟩

end Options
end Nftables
