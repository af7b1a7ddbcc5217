import Nftables.Expr.Call
import Nftables.Proofs.Success

/-!
# Steps that calls name

Not every step is one that a call can name.  Those that are add a condition on the header of GRE
only after asking for GRE, and translate addresses only in one of three ways.  Which of them end the
evaluation of the rule is seen from the name of the call.
-/

namespace Nftables

/-- Is a condition on the header of GRE? -/
def Condition.ReadsGre : Condition → Prop
  | .number f _ _ => f = .greVersion ∨ f = .greKey ∨ f = .greFlags
  | _ => False

namespace Expr.Step

/-- The steps that calls name. -/
def Named : Step → Prop
  | .append _ => False
  | .within p _ => p = .gre
  | .condition c => ¬ c.ReadsGre
  | .action (.translate kind _ _) => kind = "snat" ∨ kind = "dnat" ∨ kind = "masquerade"
  | _ => True

/-- Does a step add a verdict at which the evaluation of the rule ends? -/
def closes : Step → Bool
  | .action (.verdict v _) => v ≠ .pass
  | .action (.reject _) => true
  | _ => false

/-- The calls after which an expression is closed. -/
def closingCalls : List String :=
  ["accept", "drop", "return_", "jump", "goto", "reject"]

variable {c : Call} {s : Step}

theorem conditionOfCall?_ok (h : conditionOfCall? c = .ok (some s)) :
    s.Named ∧ s.closes = closingCalls.contains c.name := by
  unfold conditionOfCall? at h
  split at h
  -- In each case the arguments are bound to the parameters, and make up the step.
  all_goals
    rename_i hname
    simp only [unary, nullary, negatable, number, greField, comparison, fingerprint, bind_ok_iff,
      pure_ok_iff, exists_eq_right, Option.some.injEq, reduceCtorEq] at h
  all_goals
    obtain ⟨arguments, -, h⟩ := h
    split at h
    · cases h
      simp [Named, Condition.ReadsGre, closes, closingCalls, hname]
    · cases h

theorem actionOfCall?_ok (h : actionOfCall? c = .ok (some s)) :
    s.Named ∧ s.closes = closingCalls.contains c.name := by
  unfold actionOfCall? at h
  split at h
  all_goals
    rename_i hname
    simp only [unary, nullary, translation, meter, bind_ok_iff, pure_ok_iff, exists_eq_right,
      Option.some.injEq, reduceCtorEq] at h
  all_goals
    obtain ⟨arguments, -, h⟩ := h
    split at h
    · cases h
      simp [Named, closes, closingCalls, hname]
    · cases h

/-- What a call names is a step of those, and closes as its name says. -/
theorem ofCall_ok (h : ofCall c = .ok s) :
    s.Named ∧ s.closes = closingCalls.contains c.name := by
  unfold ofCall at h
  split at h
  case isTrue hname =>
    simp only [unary, bind_ok_iff] at h
    obtain ⟨arguments, -, h⟩ := h
    split at h
    · cases h
      simp [Named, closes, closingCalls, hname]
    · cases h
  case isFalse =>
    obtain ⟨s?, hcondition, h⟩ := bind_ok_iff.mp h
    cases s? with
    | some s' =>
      cases h
      exact conditionOfCall?_ok hcondition
    | none =>
      obtain ⟨s?, haction, h⟩ := bind_ok_iff.mp h
      cases s? with
      | some s' =>
        cases h
        exact actionOfCall?_ok haction
      | none => cases h

end Expr.Step
end Nftables
