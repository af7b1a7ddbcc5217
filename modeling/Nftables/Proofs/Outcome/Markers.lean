import Mathlib.Data.List.Basic
import Nftables.Outcome

/-!
# Markers only refine failures

Error markers tell known error texts from unknown ones.  Whatever else an outcome says does not
depend on them, and more of them leave less texts unknown.
-/

namespace Nftables

namespace Outcome

/-- An outcome that says the same as another one, and is malformed only if that is. -/
structure Refines (o p : Outcome) : Prop where
  status : o.status = p.status
  data : o.data? = p.data?
  reason : o.reason? = p.reason?
  malformed : o.isMalformed = true → p.isMalformed = true

theorem Refines.refl (o : Outcome) : o.Refines o :=
  ⟨rfl, rfl, rfl, id⟩

variable {ms ns : List String} {text : List Char}

/-- Does one of some markers occur in a text? -/
def marked (ms : List String) (text : List Char) : Bool :=
  ms.any fun m ↦ Text.occursIn m.toList text

theorem marked_mono (h : ∀ m ∈ ms, m ∈ ns) (hm : marked ms text = true) :
    marked ns text = true := by
  obtain ⟨m, hmem, hoccurs⟩ := List.any_eq_true.mp hm
  exact List.any_eq_true.mpr ⟨m, h m hmem, hoccurs⟩

/-- A text that is no document is a failure with itself as the reason, and malformed if nothing
marks it. -/
theorem ofText_fst (ms : List String) (text : List Char) :
    (ofText ms text).1 =
      .failure (.str (String.ofList (Text.trim text))) (!marked ms (Text.trim text)) := by
  rw [marked, ← List.isSome_find?, ofText]
  cases ms.find? fun m ↦ Text.occursIn m.toList (Text.trim text) with
  | some m => rfl
  | none => rfl

theorem refines_ofText (text : List Char) (h : ∀ m ∈ ms, m ∈ ns) :
    (ofText ns text).1.Refines (ofText ms text).1 := by
  rw [ofText_fst, ofText_fst]
  refine ⟨rfl, rfl, rfl, fun hmalformed ↦ ?_⟩
  simp only [isMalformed, Bool.not_eq_true'] at hmalformed ⊢
  by_contra hmarked
  rw [marked_mono h (Bool.not_eq_false _ ▸ hmarked)] at hmalformed
  cases hmalformed

/-- What comes of one reply twice: two outcomes, of which one refines the other, or twice the error
that there is no room. -/
inductive Refined : (r s : Except StackError (Outcome × List Log.Record)) → Prop where
  | outcome {o p : Outcome} {log log' : List Log.Record} (h : o.Refines p) :
      Refined (.ok (o, log)) (.ok (p, log'))
  | error (e : StackError) : Refined (.error e) (.error e)

/-- With more markers an outcome is at most malformed no longer. -/
theorem refined_classify (room : Nat) (r : Reply) (h : ∀ m ∈ ms, m ∈ ns) :
    Refined (classify room r ns) (classify room r ms) := by
  unfold classify
  dsimp only
  split
  case isTrue => exact .outcome (.refl _)
  case isFalse =>
    unfold ofReply
    split
    case h_1 => exact .outcome (.refl _)
    case h_2 =>
      split
      case isTrue => exact .error _
      case isFalse => exact .outcome (refines_ofText _ h)

end Outcome

end Nftables
