import Nftables.Proofs.Options.Reading
import Nftables.Proofs.Outcome.Markers

/-!
# Configured markers

Whatever markers a configuration names, the default ones stay.  So a configuration can make known
what was an unknown text, and changes nothing else about what a reply means.
-/

namespace Nftables

open Yaml (Datum)

namespace Options

variable {ms ns : List String} {m : String} {d : Datum} {ds : List Datum} {o : Options}

theorem mem_addMarkers : m ∈ addMarkers ms ns ↔ m ∈ ms ∨ m ∈ ns := by
  induction ns generalizing ms with
  | nil => simp [addMarkers]
  | cons n ns ih =>
    rw [addMarkers, ih, List.mem_cons]
    split
    case isTrue hn =>
      rw [List.contains_iff_mem] at hn
      constructor
      · rintro (h | h)
        · exact .inl h
        · exact .inr (.inr h)
      · rintro (h | rfl | h)
        · exact .inl h
        · exact .inl hn
        · exact .inr h
    case isFalse =>
      rw [List.mem_append, List.mem_singleton, or_assoc]

theorem texts?_eq_some_iff : texts? ds = some ms ↔ ds = ms.map .str := by
  induction ds generalizing ms with
  | nil => simp [texts?, eq_comm]
  | cons d ds ih =>
    cases d with
    | str s =>
      simp only [texts?, Option.map_eq_map, Option.map_eq_some_iff, ih]
      constructor
      · rintro ⟨ns, rfl, rfl⟩
        rfl
      · intro h
        cases ms with
        | nil => cases h
        | cons m ms =>
          obtain ⟨hm, hms⟩ := List.cons.inj h
          cases hm
          exact ⟨ms, hms, rfl⟩
    | _ => cases ms <;> simp [texts?]

theorem readMarkers_ok_iff : readMarkers d = .ok ms ↔
    ∃ ns, d = .list (ns.map .str) ∧ "" ∉ ns ∧ addMarkers Outcome.defaultMarkers ns = ms := by
  unfold readMarkers
  split
  case h_1 ds =>
    split
    case h_1 ns hns =>
      obtain rfl := texts?_eq_some_iff.mp hns
      have hinj {ps : List String} : ns.map Datum.str = ps.map .str ↔ ns = ps :=
        (List.map_injective_iff.mpr fun _ _ ↦ Datum.str.inj).eq_iff
      simp only [Datum.list.injEq, hinj, exists_eq_left', List.contains_eq_mem, decide_eq_true_eq]
      split
      case isTrue hempty => simp [refuse, hempty]
      case isFalse hempty => simp [hempty]
    case h_2 hnone =>
      simp only [refuse, reduceCtorEq, Datum.list.injEq, false_iff]
      rintro ⟨ns, rfl, -⟩
      rw [texts?_eq_some_iff.mpr rfl] at hnone
      cases hnone
  case h_2 hd =>
    simp only [refuse, reduceCtorEq, false_iff]
    rintro ⟨ns, rfl, -⟩
    exact hd _ rfl

/-- The options of every configuration keep the default markers. -/
theorem defaultMarkers_of_ofDatum (h : ofDatum d = .ok o) :
    ∀ m ∈ Outcome.defaultMarkers, m ∈ o.markers := by
  intro m hm
  unfold ofDatum at h
  split at h
  case h_1 =>
    cases h
    exact hm
  case h_2 es =>
    obtain ⟨-, -, -, -, hmarkers, -⟩ := ofMapping_ok_iff.mp h
    unfold setting at hmarkers
    split at hmarkers
    case h_1 =>
      obtain ⟨ns, -, -, hns⟩ := readMarkers_ok_iff.mp hmarkers
      rw [← hns]
      exact mem_addMarkers.mpr (.inl hm)
    case h_2 =>
      rw [← Except.ok.inj hmarkers]
      exact hm
  case h_3 => cases h

/-- **Markers only refine failures.**  For every reply, more markers leave status, data and reason
of the outcome as they are, and make it malformed no more than it was; whether there is room for an
outcome does not depend on them.  The options of every configuration have the default markers among
theirs, so with them the outcome is the default one but for being malformed, which it may no longer
be. -/
theorem configured_markers_refine (room : Nat) (r : Reply) :
    (∀ ms ns : List String, (∀ m ∈ ms, m ∈ ns) →
      Outcome.Refined (Outcome.classify room r ns) (Outcome.classify room r ms)) ∧
    ∀ (d : Datum) (o : Options), ofDatum d = .ok o →
      (∀ m ∈ Outcome.defaultMarkers, m ∈ o.markers) ∧
        Outcome.Refined (Outcome.classify room r o.markers) (Outcome.classify room r) := by
  refine ⟨fun ms ns h ↦ Outcome.refined_classify room r h, fun d o ho ↦ ?_⟩
  have hdefault := defaultMarkers_of_ofDatum ho
  exact ⟨hdefault, Outcome.refined_classify room r hdefault⟩

/-- A configuration with a marker of its own, given twice, and one of the default ones. -/
def busyMarkers : Datum :=
  .mapping [(.str "error_markers", .list [.str "EBUSY", .str "No such", .str "EBUSY"])]

/-- The configured marker makes a known failure of an unknown text, with the same reason. -/
theorem configured_markers_refine_busy :
    ∃ o, ofDatum busyMarkers = .ok o ∧ (∀ m ∈ Outcome.defaultMarkers, m ∈ o.markers) ∧
      Outcome.Refined (Outcome.classify 1 (.text "EBUSY".toList) o.markers)
        (Outcome.classify 1 (.text "EBUSY".toList)) ∧
      (Outcome.classify 1 (.text "EBUSY".toList) o.markers).map (·.1.isMalformed) = .ok false ∧
      (Outcome.classify 1 (.text "EBUSY".toList)).map (·.1.isMalformed) = .ok true := by
  have ho : ofDatum busyMarkers =
      .ok { markers := ["does not exist", "No such", "not found", "Error:", "EBUSY"] } := by
    rw [busyMarkers, ofDatum, ofMapping_ok_iff]
    exact ⟨by decide +kernel, rfl, rfl, rfl, rfl, rfl⟩
  obtain ⟨hdefault, hrefined⟩ := (configured_markers_refine 1 (.text "EBUSY".toList)).2 _ _ ho
  exact ⟨_, ho, hdefault, hrefined, by decide +kernel, by decide +kernel⟩

end Options

end Nftables
