import Nftables.Proofs.Json.Limits
import Nftables.Proofs.Outcome.Document
import Nftables.Proofs.Outcome.Markers
import Nftables.Proofs.Text.Blank
import Nftables.Proofs.Text.Fields

/-!
# Replies that are no documents

A reply is blank, a document, or another text.  Nothing but blanks is a success without data, and
another text is a failure that says what the text is; it is told to the caller as malformed, and
noted as a warning, exactly if no marker occurs in it.  Only a text that overflows the stack of the
reader is neither, be it a document or not: it has no outcome at all.
-/

namespace Nftables

namespace Outcome

variable {room : Nat} {r : Reply} {ms : List String} {text : List Char} {o : Outcome}
variable {log : List Log.Record}

/-- The warnings among some records. -/
def warnings (rs : List Log.Record) : List Log.Record :=
  rs.filter (·.severity = .warning)

/-! ## The three kinds of replies -/

theorem classify_of_blank (room : Nat) (ms : List String)
    (h : ∀ c ∈ r.chars, Text.isBlank c = true) : classify room r ms = .ok (.success, []) := by
  simp [classify, Text.trim_eq_nil_iff.mpr h]

theorem isEmpty_trim (h : ∃ c ∈ r.chars, Text.isBlank c = false) :
    (Text.trim r.chars).isEmpty = false := by
  obtain ⟨c, hc, hblank⟩ := h
  rw [List.isEmpty_eq_false_iff, Ne, Text.trim_eq_nil_iff]
  exact fun hall ↦ Bool.false_ne_true (hblank.symm.trans (hall c hc))

theorem classify_of_isReadable (ms : List String) (h : ∃ c ∈ r.chars, Text.isBlank c = false)
    (hd : Json.IsReadable room r.chars) :
    ∃ d, Json.parse room r.chars = .ok d ∧ classify room r ms = .ok (ofDocument d, []) := by
  obtain ⟨d, hd⟩ := Json.exists_parse_iff.mpr hd
  exact ⟨d, hd, classify_of_parse ms (isEmpty_trim h) hd⟩

theorem classify_of_text (ms : List String) (h : ∃ c ∈ r.chars, Text.isBlank c = false)
    (hd : ¬ Json.IsReadable room r.chars) (ho : ¬ Json.Overflows room .element r.chars) :
    classify room r ms = .ok (ofText ms r.chars) := by
  rw [← Json.exists_parse_iff, not_exists] at hd
  rw [← Json.parse_tooDeep_iff] at ho
  cases hparse : Json.parse room r.chars with
  | ok d => exact absurd hparse (hd d)
  | error f =>
    have hf : f.problem ≠ .tooDeep := fun hf ↦ ho ⟨f, hparse, hf⟩
    simp [classify, ofReply, isEmpty_trim h, hparse, hf]

/-- What overflows is not blank. -/
theorem exists_of_overflows {p : Json.Part} (h : Json.Overflows room p text) :
    ∃ c ∈ text, Text.isBlank c = false := by
  obtain ⟨c, hc, hopen⟩ := Json.exists_mem_of_overflows h
  simp only [List.mem_cons, List.not_mem_nil, or_false] at hopen
  rcases hopen with rfl | rfl
  · exact ⟨_, hc, by decide⟩
  · exact ⟨_, hc, by decide⟩

theorem classify_of_overflows (ms : List String) (h : Json.Overflows room .element r.chars) :
    classify room r ms = .error .exhausted := by
  obtain ⟨f, hparse, hf⟩ := Json.parse_tooDeep_iff.mpr h
  simp [classify, ofReply, isEmpty_trim (exists_of_overflows h), hparse, hf]

/-! ## What texts come to -/

theorem marked_eq_false_iff : marked ms text = false ↔ ∀ m ∈ ms, ¬ m.toList <:+: text := by
  simp [marked, List.any_eq_false, Text.occursIn_iff]

/-- A text is noted with a warning if nothing marks it, and else with a record of less weight. -/
theorem length_warnings_ofText (ms : List String) (text : List Char) :
    (warnings (ofText ms text).2).length = if marked ms (Text.trim text) then 0 else 1 := by
  rw [marked, ← List.isSome_find?, ofText]
  cases ms.find? fun m ↦ Text.occursIn m.toList (Text.trim text) with
  | some m => rfl
  | none => rfl

/-- No document is taken for a blank reply. -/
theorem status_ofDocument (d : Value) : (ofDocument d).status ≠ "success" := by
  unfold ofDocument
  split <;> simp [status]

/-- An outcome is that of a blank reply, of a document or of another text. -/
theorem classify_cases (h : classify room r ms = .ok (o, log)) :
    (∀ c ∈ r.chars, Text.isBlank c = true) ∧ o = .success ∨
      (∃ d, Json.parse room r.chars = .ok d ∧ o = ofDocument d) ∨
      o = .failure (.str (String.ofList (Text.trim r.chars))) (!marked ms (Text.trim r.chars)) := by
  by_cases hblank : ∃ c ∈ r.chars, Text.isBlank c = false
  · by_cases hd : Json.IsReadable room r.chars
    · obtain ⟨d, hparse, hclassify⟩ := classify_of_isReadable ms hblank hd
      cases hclassify.symm.trans h
      exact .inr (.inl ⟨d, hparse, rfl⟩)
    · by_cases ho : Json.Overflows room .element r.chars
      · cases (classify_of_overflows ms ho).symm.trans h
      · rw [classify_of_text ms hblank hd ho, Except.ok.injEq] at h
        have hfst := ofText_fst ms r.chars
        rw [h] at hfst
        exact .inr (.inr hfst)
  · simp only [not_exists, not_and, Bool.not_eq_false] at hblank
    cases (classify_of_blank room ms hblank).symm.trans h
    exact .inl ⟨hblank, rfl⟩

theorem status_classify_iff (room : Nat) (r : Reply) (ms : List String) :
    (∃ o log, classify room r ms = .ok (o, log) ∧ o.status = "success") ↔
      ∀ c ∈ r.chars, Text.isBlank c = true := by
  constructor
  · rintro ⟨o, log, h, hsuccess⟩
    rcases classify_cases h with ⟨hblank, -⟩ | ⟨d, -, rfl⟩ | rfl
    · exact hblank
    · exact absurd hsuccess (status_ofDocument d)
    · simp [status] at hsuccess
  · intro hall
    exact ⟨_, _, classify_of_blank room ms hall, rfl⟩

theorem classify_exhausted_iff (room : Nat) (r : Reply) (ms : List String) :
    classify room r ms = .error .exhausted ↔ Json.Overflows room .element r.chars := by
  constructor
  · intro h
    unfold classify at h
    simp only at h
    split at h
    case isTrue => cases h
    case isFalse =>
      unfold ofReply at h
      split at h
      case h_1 => cases h
      case h_2 f hparse =>
        split at h
        case isTrue hf => exact Json.parse_tooDeep_iff.mp ⟨f, hparse, hf⟩
        case isFalse => cases h
  · exact classify_of_overflows ms

/-! ## What outcomes hold -/

/-- An outcome with data comes of a document that has been read, and is that document. -/
theorem parse_of_classify {d : Value} (h : classify room r ms = .ok (.data d, log)) :
    Json.parse room r.chars = .ok d := by
  rcases classify_cases h with ⟨-, ho⟩ | ⟨d', hparse, ho⟩ | ho
  · cases ho
  · rcases ofDocument_eq d' with ⟨-, reason, ho'⟩ | ⟨-, ho'⟩
    · cases ho.trans ho'
    · cases ho.trans ho'
      exact hparse
  · cases ho

/-- The reason that a document gives for a failure has a literal if the document has one. -/
theorem hasLiteral_of_ofDocument {d reason : Value} {malformed : Bool} (hd : d.hasLiteral = true)
    (h : ofDocument d = .failure reason malformed) : reason.hasLiteral = true := by
  unfold ofDocument at h
  split at h
  case h_1 hreason =>
    cases h
    unfold reportedError? at hreason
    split at hreason
    case h_1 vs hvs =>
      obtain ⟨v, hv, hget⟩ := List.exists_of_findSome?_eq_some hreason
      refine Value.hasLiteral_of_get? ?_ hget
      cases resultItems?_eq_some_iff.mp hvs with
      | bare => exact Value.haveLiterals_iff.mp hd v hv
      | entry hlist =>
        have hlist : (Value.list vs).hasLiteral = true :=
          Value.hasLiteral_of_get? (v := .object _) hd hlist
        exact Value.haveLiterals_iff.mp hlist v hv
    case h_2 => exact Value.hasLiteral_of_get? hd hreason
  case h_2 => cases h

/-- The reason of a failure can be told. -/
theorem hasLiteral_of_classify {reason : Value} {malformed : Bool}
    (h : classify room r ms = .ok (.failure reason malformed, log)) : reason.hasLiteral = true := by
  rcases classify_cases h with ⟨-, ho⟩ | ⟨d, hparse, ho⟩ | ho
  · cases ho
  · exact hasLiteral_of_ofDocument (Json.writable_of_parse hparse).hasLiteral ho.symm
  · cases ho
    rfl

/-- **Text is never read as success.**  A reply is a success without data if and only if it is
blank.  It has no outcome if and only if it overflows the room that there is.  If it is neither
blank nor a document that can be read, and has an outcome, then it is a failure with the text as the
reason, which is malformed if and only if no marker occurs in the text; there is one warning then and
none otherwise, and the caller is told of a malformed reply or of a plain error.  And no outcome has
data but a success with data, or a reason but a failure. -/
theorem classify_text (room : Nat) (r : Reply) (ms : List String) :
    ((∃ o log, classify room r ms = .ok (o, log) ∧ o.status = "success") ↔
      ∀ c ∈ r.chars, Text.isBlank c = true) ∧
    (classify room r ms = .error .exhausted ↔ Json.Overflows room .element r.chars) ∧
    ((∃ c ∈ r.chars, Text.isBlank c = false) → ¬ Json.IsReadable room r.chars →
      ¬ Json.Overflows room .element r.chars →
      ∃ reason malformed log, classify room r ms = .ok (.failure reason malformed, log) ∧
        reason = .str (String.ofList (Text.trim r.chars)) ∧
        (malformed = true ↔ ∀ m ∈ ms, ¬ m.toList <:+: Text.trim r.chars) ∧
        (warnings log).length = (if malformed then 1 else 0) ∧
        (failure reason malformed).orRaise =
          .error (if malformed then .malformed reason else .reported reason)) ∧
    ∀ o log, classify room r ms = .ok (o, log) →
      (o.data?.isNull = false → o.status = "success_with_data") ∧
      (o.reason?.isNull = false ∨ o.isMalformed = true → o.status = "failure") := by
  refine ⟨status_classify_iff room r ms, classify_exhausted_iff room r ms,
    fun hblank hd ho ↦ ?_, fun o log _ ↦ ⟨?_, ?_⟩⟩
  · have hfst := ofText_fst ms r.chars
    refine ⟨_, !marked ms (Text.trim r.chars), (ofText ms r.chars).2, ?_, rfl, ?_, ?_, ?_⟩
    · rw [classify_of_text ms hblank hd ho, ← hfst]
    · rw [Bool.not_eq_true', marked_eq_false_iff]
    · rw [length_warnings_ofText]
      cases marked ms (Text.trim r.chars) <;> rfl
    · cases marked ms (Text.trim r.chars) <;> rfl
  · cases o with
    | data d => exact fun _ ↦ rfl
    | success | failure => simp [data?]
  · cases o with
    | failure reason malformed => exact fun _ ↦ rfl
    | success | data => simp [reason?, isMalformed]

/-- A word between blanks, the first of which is none of those of a document, and with a byte after
it that is no character. -/
def brokenReply : Reply :=
  .bytes [0xC2, 0xA0, 0x6F, 0x6F, 0x70, 0x73, 0xFF, 0x0A]

/-- The blanks are dropped and the byte is replaced, and nothing says that this is an error. -/
theorem classify_text_brokenReply :
    ∃ log, classify 1 brokenReply = .ok (.failure (.str "oops\uFFFD") true, log) ∧
      (warnings log).length = 1 ∧
      (failure (.str "oops\uFFFD") true).orRaise = .error (.malformed (.str "oops\uFFFD")) := by
  have hchars : brokenReply.chars = "\u00A0oops\uFFFD\n".toList := by decide +kernel
  have htrim : Text.trim brokenReply.chars = "oops\uFFFD".toList := by decide +kernel
  have hparse : Json.parse 1 brokenReply.chars = .error ⟨.expectedValue, 7⟩ := by decide +kernel
  have hd : ¬ Json.IsReadable 1 brokenReply.chars := by
    rw [← Json.exists_parse_iff]
    rintro ⟨v, hv⟩
    cases hparse.symm.trans hv
  have ho : ¬ Json.Overflows 1 .element brokenReply.chars := by
    rw [← Json.parse_tooDeep_iff]
    rintro ⟨f, hf, hproblem⟩
    cases hparse.symm.trans hf
    cases hproblem
  obtain ⟨reason, malformed, log, hclassify, hreason, hmalformed, hwarnings, hraise⟩ :=
    (classify_text 1 brokenReply defaultMarkers).2.2.1 ⟨'o', by rw [hchars]; decide, rfl⟩ hd ho
  rw [htrim, String.ofList_toList] at hreason
  have hunmarked : marked defaultMarkers (Text.trim brokenReply.chars) = false := by
    decide +kernel
  obtain rfl : malformed = true := hmalformed.mpr (marked_eq_false_iff.mp hunmarked)
  rw [hreason] at hclassify hraise
  exact ⟨log, hclassify, hwarnings, hraise⟩

/-- Two thousand brackets are neither blank nor a document, and where there is room for a thousand lists
they are no failure either. -/
theorem brackets_have_no_outcome :
    (∃ c ∈ List.replicate 2000 '[', Text.isBlank c = false) ∧
      ¬ Json.IsDocument (List.replicate 2000 '[') ∧
      classify 1000 (.text (List.replicate 2000 '[')) = .error .exhausted := by
  have hbrackets : List.replicate 2000 '[' = List.replicate 1001 '[' ++ List.replicate 999 '[' := by
    rw [List.replicate_append_replicate]
  have hoverflows : Json.Overflows 1000 .element (List.replicate 2000 '[') := by
    rw [hbrackets]
    exact Json.overflows_element (Json.overflows_replicate 1000 _)
  exact ⟨exists_of_overflows hoverflows, Json.not_isDocument_replicate 2000,
    classify_of_overflows defaultMarkers hoverflows⟩

end Outcome
end Nftables
