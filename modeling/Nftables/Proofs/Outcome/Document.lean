import Mathlib.Control.Monad.Basic
import Nftables.Outcome
import Nftables.Proofs.Value.Entries
import Nftables.Proofs.Value.Equality

/-!
# Errors in documents

Where a JSON document can carry an error, said without the search for it: under a key `error` of its
own, or of an item of its result list.  A reply that is a document is a failure exactly if it
carries an error, with one exception (`HidesError`): a result list without errors hides an error
that stands beside it at the top.
-/

namespace Nftables

namespace Value

/-! ## Keys -/

/-- An object with an entry of a key. -/
def HasKey (key : String) (v : Value) : Prop :=
  ∃ es, v = .object es ∧ key ∈ es.map Prod.fst

theorem get?_isSome_iff {key : String} {v : Value} :
    (v.get? key).isSome = true ↔ v.HasKey key := by
  cases v with
  | object es => simp [get?, HasKey, lookup_isSome_iff]
  | _ => simp [get?, HasKey]

end Value

namespace Outcome

/-! ## Where errors stand -/

/-- The result list of a document: the document itself, or what it holds under `nftables`. -/
inductive ResultList : Value → List Value → Prop where
  | bare (vs : List Value) : ResultList (.list vs) vs
  | entry {es : List (String × Value)} {vs : List Value}
      (h : Value.lookup "nftables" es = some (.list vs)) : ResultList (.object es) vs

/-- A document with an error: at its top, or in an item of its result list. -/
def CarriesError (d : Value) : Prop :=
  d.HasKey "error" ∨ ∃ vs, ResultList d vs ∧ ∃ v ∈ vs, v.HasKey "error"

/-- A document with an error at its top beside a result list that has none. -/
def HidesError (d : Value) : Prop :=
  d.HasKey "error" ∧ ∃ vs, ResultList d vs ∧ ∀ v ∈ vs, ¬ v.HasKey "error"

theorem resultItems?_eq_some_iff {d : Value} {vs : List Value} :
    resultItems? d = some vs ↔ ResultList d vs := by
  constructor
  · intro h
    cases d with
    | list items =>
      cases h
      exact .bare _
    | object es =>
      simp only [resultItems?, Value.get?] at h
      split at h
      case h_1 items hl =>
        cases h
        exact .entry hl
      case h_2 => cases h
    | _ => cases h
  · rintro (_ | h)
    · rfl
    · simp [resultItems?, Value.get?, h]

/-- The search for an error finds one, unless it stands at the top beside a result list. -/
theorem reportedError?_isSome_iff {d : Value} :
    (reportedError? d).isSome = true ↔ CarriesError d ∧ ¬ HidesError d := by
  unfold reportedError?
  cases hr : resultItems? d with
  | some vs =>
    have hlist {ws : List Value} : ResultList d ws ↔ ws = vs := by
      rw [← resultItems?_eq_some_iff, hr, Option.some.injEq, eq_comm]
    simp only [CarriesError, HidesError, hlist, exists_eq_left, List.findSome?_isSome_iff,
      Value.get?_isSome_iff]
    constructor
    · rintro ⟨v, hv, he⟩
      exact ⟨.inr ⟨v, hv, he⟩, fun h ↦ h.2 v hv he⟩
    · rintro ⟨he | he, hh⟩
      · exact Classical.byContradiction fun hnone ↦ hh ⟨he, fun v hv hev ↦ hnone ⟨v, hv, hev⟩⟩
      · exact he
  | none =>
    have hlist (ws : List Value) : ¬ ResultList d ws := by
      rw [← resultItems?_eq_some_iff, hr]
      simp
    simp [CarriesError, HidesError, hlist, Value.get?_isSome_iff]

/-! ## Replies that are documents -/

/-- A document without a reported error is data, as a whole; with one it is a failure. -/
theorem ofDocument_eq (d : Value) :
    ((reportedError? d).isSome = true ∧ ∃ reason, ofDocument d = .failure reason false) ∨
      ((reportedError? d).isSome = false ∧ ofDocument d = .data d) := by
  unfold ofDocument
  cases reportedError? d with
  | some reason => exact .inl ⟨rfl, reason, rfl⟩
  | none => exact .inr ⟨rfl, rfl⟩

theorem classify_of_parse {room : Nat} {r : Reply} {d : Value} (markers : List String)
    (hblank : (Text.trim r.chars).isEmpty = false) (hd : Json.parse room r.chars = .ok d) :
    classify room r markers = .ok (ofDocument d, []) := by
  simp [classify, ofReply, hblank, hd]

/-- **A document is a failure exactly if it carries an error that no result list hides.**  Every
document that is read has an outcome, and if it is no failure it is the whole document as data.  So
the rule that a document with an error is a failure holds of all documents but those that hide an
error, and of none of these. -/
theorem classify_document {room : Nat} {r : Reply} {d : Value} (markers : List String)
    (hblank : (Text.trim r.chars).isEmpty = false) (hd : Json.parse room r.chars = .ok d) :
    ∃ o log, classify room r markers = .ok (o, log) ∧
      (o.status = "failure" ↔ CarriesError d ∧ ¬ HidesError d) ∧
      (o.status ≠ "failure" → o = .data d) ∧
      ((o.status = "failure" ↔ CarriesError d) ↔ ¬ HidesError d) := by
  have hfailure : (ofDocument d).status = "failure" ↔ CarriesError d ∧ ¬ HidesError d := by
    rw [← reportedError?_isSome_iff]
    rcases ofDocument_eq d with ⟨hs, reason, ho⟩ | ⟨hs, ho⟩
    · simp [ho, hs, status]
    · simp [ho, hs, status]
  refine ⟨_, _, classify_of_parse markers hblank hd, hfailure, fun h ↦ ?_, ?_⟩
  · rcases ofDocument_eq d with ⟨-, reason, ho⟩ | ⟨-, ho⟩
    · exact absurd (by rw [ho]; rfl) h
    · exact ho
  · rw [hfailure]
    have hcarries : HidesError d → CarriesError d := fun h ↦ .inl h.1
    exact ⟨fun h hh ↦ (h.mpr (hcarries hh)).2 hh, fun h ↦ ⟨And.left, fun hc ↦ ⟨hc, h⟩⟩⟩

/-- An error beside a result list with an error. -/
def bothErrors : List Char :=
  "\x7b\"error\": 1, \"nftables\": [\x7b\"error\": 2\x7d]\x7d".toList

/-- A document with an error in its result list, beside another one at its top, is a failure. -/
theorem classify_document_both :
    (Text.trim bothErrors).isEmpty = false ∧
      Json.parse 3 bothErrors =
        .ok (.object [("error", .int 1), ("nftables", .list [.object [("error", .int 2)]])]) ∧
      ∃ o log, classify 3 (.text bothErrors) = .ok (o, log) ∧ o.status = "failure" := by
  have hblank : (Text.trim bothErrors).isEmpty = false := by decide +kernel
  have hparse : Json.parse 3 bothErrors = .ok
      (.object [("error", .int 1), ("nftables", .list [.object [("error", .int 2)]])]) := by
    decide +kernel
  have hitem : (Value.object [("error", .int 2)]).HasKey "error" := ⟨_, rfl, by simp⟩
  obtain ⟨o, log, hclassify, hfailure, -⟩ :=
    classify_document (r := .text _) defaultMarkers hblank hparse
  refine ⟨hblank, hparse, o, log, hclassify, hfailure.mpr ⟨.inl ?_, ?_⟩⟩
  · exact ⟨_, rfl, by simp⟩
  · rintro ⟨-, vs, hvs, hnone⟩
    cases hvs with
    | entry h =>
      obtain rfl : [.object [("error", .int 2)]] = vs := by simpa [Value.lookup] using h
      exact hnone _ (by simp) hitem

/-- An error beside an empty result list. -/
def hiddenError : List Char :=
  "\x7b\"error\": 1, \"nftables\": []\x7d".toList

/-- An error at the top of a document is not reported if an empty result list stands beside it. -/
theorem hidden_error_is_data :
    Json.parse 2 hiddenError = .ok (.object [("error", .int 1), ("nftables", .list [])]) ∧
      CarriesError (.object [("error", .int 1), ("nftables", .list [])]) ∧
      (classify 2 (.text hiddenError)).map (·.1.status) = .ok "success_with_data" :=
  ⟨by decide +kernel, .inl ⟨_, rfl, by simp⟩, by decide +kernel⟩

end Outcome

end Nftables
