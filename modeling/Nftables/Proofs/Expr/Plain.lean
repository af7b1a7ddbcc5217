import Nftables.Proofs.Expr.Run
import Nftables.Proofs.Fragment.Plain
import Nftables.Proofs.Value.Entries

/-!
# Plain expressions

An expression that is built of plain arguments is plain: its comment and all its fragments are.
-/

namespace Nftables

namespace Expr

/-- What a step takes over as it is given is plain. -/
def Step.Plain : Step → Prop
  | .comment text => text.Plain
  | .append f => f.value.Plain
  | .protocol _ => True
  | .within _ c | .condition c => c.Plain
  | .action a => a.Plain

/-- The comment and all fragments of an expression are plain. -/
structure Plain (e : Expr) : Prop where
  comment : e.comment.Plain
  fragments : ∀ f ∈ e.fragments, f.value.Plain

variable {e e' : Expr} {s : Step} {f : Fragment}

/-! ## Expressions -/

theorem Plain.push (he : e.Plain) (hf : f.value.Plain) : (e.push f).Plain where
  comment := he.comment
  fragments g hg := by
    rcases List.mem_append.mp hg with hg | hg
    · exact he.fragments g hg
    · exact List.mem_singleton.mp hg ▸ hf

theorem Plain.setProtocol {p : Protocol} (he : e.Plain) (h : e.setProtocol p = .ok e') :
    e'.Plain := by
  obtain ⟨-, rfl⟩ := setProtocol_ok_iff.mp h
  have hf : (protocolFragment e.family p).value.Plain := by
    unfold protocolFragment
    split <;> simp
  exact ⟨he.comment, (he.push hf).fragments⟩

theorem Plain.require {c : Condition} (he : e.Plain) (hc : c.Plain) (h : e.require c = .ok e') :
    e'.Plain := by
  obtain ⟨f, hf, -, rfl⟩ := require_ok_iff.mp h
  exact he.push (hc.fragment hf)

/-- A step that takes over plain values alone keeps an expression plain. -/
theorem Plain.apply (he : e.Plain) (hs : s.Plain) (h : e.apply s = .ok e') : e'.Plain := by
  cases s with
  | comment text =>
    cases h
    exact ⟨hs, he.fragments⟩
  | append f =>
    obtain ⟨-, rfl⟩ := append_ok_iff.mp h
    exact he.push hs
  | protocol name =>
    obtain ⟨p, -, h⟩ := bind_ok_iff.mp h
    exact he.setProtocol h
  | within p c =>
    obtain ⟨e₁, h₁, h⟩ := bind_ok_iff.mp h
    obtain ⟨-, rfl⟩ | ⟨-, h₁⟩ := ensureProtocol_ok_iff.mp h₁
    · exact he.require hs h
    · exact (he.setProtocol h₁).require hs h
  | condition c => exact he.require hs h
  | action a =>
    obtain ⟨f, hf, rfl⟩ := perform_ok_iff.mp h
    exact he.push (hs.fragment hf)

end Expr

/-! ## Calls -/

/-- All arguments of a call are plain. -/
structure Call.Plain (c : Call) : Prop where
  positional : ∀ v ∈ c.positional, v.Plain
  named : ∀ e ∈ c.named, e.2.Plain

/-- Arguments are bound to what is given or to a default. -/
theorem Call.plain_of_assign {ps : List Parameter} {vs ws : List Value}
    {named : List (String × Value)} (hps : ∀ p ∈ ps, ∀ v, p.default = some v → v.Plain)
    (hvs : ∀ v ∈ vs, v.Plain) (hnamed : ∀ e ∈ named, e.2.Plain)
    (h : assign ps vs named = .ok ws) : ∀ w ∈ ws, w.Plain := by
  induction ps generalizing vs ws named with
  | nil =>
    cases vs with
    | nil =>
      cases named with
      | nil =>
        cases h
        simp
      | cons => cases h
    | cons => cases h
  | cons p ps ih =>
    rw [List.forall_mem_cons] at hps
    cases vs with
    | cons v vs =>
      rw [List.forall_mem_cons] at hvs
      rw [assign] at h
      split at h
      · cases h
      · obtain ⟨us, hus, rfl⟩ := map_ok_iff.mp h
        exact List.forall_mem_cons.mpr ⟨hvs.1, ih hps.2 hvs.2 hnamed hus⟩
    | nil =>
      have hrest {v : Value} (hv : v.Plain)
          (h : (v :: ·) <$> assign ps [] (named.filter fun e ↦ e.1 ≠ p.name) = .ok ws) :
          ∀ w ∈ ws, w.Plain := by
        obtain ⟨us, hus, rfl⟩ := map_ok_iff.mp h
        refine List.forall_mem_cons.mpr ⟨hv, ih hps.2 (by simp) (fun e he ↦ ?_) hus⟩
        exact hnamed e (List.mem_of_mem_filter he)
      rw [assign] at h
      split at h
      case h_1 v _ hv => exact hrest (hnamed _ (Value.mem_of_lookup hv)) h
      case h_2 v _ hv => exact hrest (hps.1 v hv) h
      case h_3 => cases h

theorem Call.Plain.bind {c : Call} {ps : List Parameter} {vs : List Value} (hc : c.Plain)
    (hps : ∀ p ∈ ps, ∀ v, p.default = some v → v.Plain) (h : c.bind ps = .ok vs) :
    ∀ v ∈ vs, v.Plain :=
  plain_of_assign hps hc.positional hc.named h

namespace Expr

namespace Step

variable {c : Call} {s : Step}

theorem plain_conditionOfCall? (hc : c.Plain) (h : conditionOfCall? c = .ok (some s)) :
    s.Plain := by
  unfold conditionOfCall? at h
  split at h
  -- In each case the arguments are bound to the parameters, and make up the step.
  all_goals
    simp only [unary, nullary, negatable, number, greField, comparison, fingerprint, bind_ok_iff,
      pure_ok_iff, exists_eq_right, Option.some.injEq, reduceCtorEq] at h
  all_goals
    obtain ⟨arguments, hbind, h⟩ := h
    have hplain := hc.bind (by simp [Parameter.required, Parameter.optional, equality, above,
      negation]) hbind
    split at h
    · cases h
      simp_all [Step.Plain, Condition.Plain]
    · cases h

theorem plain_actionOfCall? (hc : c.Plain) (h : actionOfCall? c = .ok (some s)) : s.Plain := by
  unfold actionOfCall? at h
  split at h
  all_goals
    simp only [unary, nullary, translation, meter, bind_ok_iff, pure_ok_iff, exists_eq_right,
      Option.some.injEq, reduceCtorEq] at h
  all_goals
    obtain ⟨arguments, hbind, h⟩ := h
    have hplain := hc.bind (by simp [Parameter.required, Parameter.optional]) hbind
    split at h
    · cases h
      simp_all [Step.Plain, Action.Plain]
    · cases h

/-- A step that is called with plain arguments takes over plain values alone. -/
theorem plain_ofCall (hc : c.Plain) (h : ofCall c = .ok s) : s.Plain := by
  unfold ofCall at h
  split at h
  case isTrue =>
    simp only [unary, bind_ok_iff] at h
    obtain ⟨arguments, hbind, h⟩ := h
    have hplain := hc.bind (by simp [Parameter.required]) hbind
    split at h
    · cases h
      simpa [Step.Plain] using hplain
    · cases h
  case isFalse =>
    obtain ⟨s?, hcondition, h⟩ := bind_ok_iff.mp h
    cases s? with
    | some s' =>
      cases h
      exact plain_conditionOfCall? hc hcondition
    | none =>
      obtain ⟨s?, haction, h⟩ := bind_ok_iff.mp h
      cases s? with
      | some s' =>
        cases h
        exact plain_actionOfCall? hc haction
      | none => cases h

end Step

/-- A call with plain arguments, or a plain fragment. -/
def Move.Plain : Move → Prop
  | .call c => c.Plain
  | .append f => f.value.Plain

/-- **Plain expressions.**  Moves with plain values build plain expressions of plain ones, whether
or not some of them are refused. -/
theorem Plain.after {e : Expr} {ms : List Move} (he : e.Plain) (hms : ∀ m ∈ ms, m.Plain) :
    (e.after ms).Plain := by
  refine after_induction (P := Plain) (fun e₁ m e₂ hm he h ↦ ?_) he
  obtain ⟨s, hs, h⟩ := move_ok_iff.mp h
  refine he.apply ?_ h
  cases m with
  | call c => exact Step.plain_ofCall (hms _ hm) hs
  | append f =>
    cases hs
    exact hms _ hm

end Expr
end Nftables
