import Nftables.Proofs.Expr.Protocol
import Nftables.Proofs.Listing.Ranges

/-!
# Spans of ports

A span of ports can be given as a progression, which is without its last number, or as the pair of
the first and the last.  On the wire both bounds are ports of the span; in a listing the span is a
progression again.  A condition on such a span comes back as it was given, wherever in a rule it
stands.
-/

namespace Nftables

/-- The ports from `a` up to but without `b`, in one of the ways in which they can be given. -/
inductive Value.SpansPorts (a b : Int) : Value → Prop where
  | progression : SpansPorts a b (.range a b 1)
  | pair : SpansPorts a b (.tuple [.int a, .int (b - 1)])

namespace Ports

variable {a b : Int} {v : Value} {ps : Ports} {n : Int}

theorem port_ok_iff : port v = .ok n ↔ v = .int n ∧ 0 ≤ n ∧ n ≤ 65535 :=
  Value.bounded_ok_iff

theorem ofValue_of_spansPorts (hv : v.SpansPorts a b) (h : ofValue v = .ok ps) :
    ps = .span a (b - 1) := by
  cases hv with
  | progression =>
    simp only [ofValue] at h
    split at h
    · simp at h
    simp only [bind_ok_iff, liftM_argument_ok_iff, pure_ok_iff, port_ok_iff,
      Value.int.injEq] at h
    obtain ⟨_, ⟨rfl, -⟩, _, ⟨rfl, -⟩, rfl⟩ := h
    rfl
  | pair =>
    simp only [ofValue, bind_ok_iff, liftM_argument_ok_iff, port_ok_iff, Value.int.injEq] at h
    obtain ⟨_, ⟨rfl, -⟩, _, ⟨rfl, -⟩, h⟩ := h
    split at h
    · simp at h
    · exact (pure_ok_iff.mp h).symm

end Ports

namespace Value

/-- In a condition on a field of a header, only what the field is compared with can change. -/
theorem convertRanges_condition (protocol field relation : String) (right : Value) :
    (Fragment.condition (Term.payload protocol (.str field)) right relation).body.convertRanges =
      (Fragment.condition (Term.payload protocol (.str field)) right.convertRanges
        relation).body :=
  rfl

end Value

namespace Expr

variable {e e' : Expr} {a b : Int} {v : Value} {side : Endpoint} {negated : Bool}

/-- No move takes back a fragment. -/
theorem fragments_prefix_after (e : Expr) (ms : List Move) :
    e.fragments <+: (e.after ms).fragments := by
  refine after_induction (P := fun e' ↦ e.fragments <+: e'.fragments) (fun e₁ m e₂ _ he h ↦ ?_)
    (List.prefix_refl _)
  obtain ⟨s, -, h⟩ := move_ok_iff.mp h
  exact apply_induction (P := fun e' ↦ e.fragments <+: e'.fragments)
    (fun _ _ _ he ↦ he.trans (List.prefix_append _ _)) (fun _ _ ↦ id) (fun _ _ ↦ id) he h

/-- The condition that the ports of one side are those from `a` up to but without `b`, as it is
listed. -/
def listedPorts (protocol : Protocol) (side : Endpoint) (a b : Int) (negated : Bool) : Value :=
  (Fragment.condition (Term.payload (Vocabulary.wire protocol) (.str side.portField))
    (.range a b 1) (Condition.equality negated)).body

theorem require_port (hv : v.SpansPorts a b) (h : e.require (.port side v negated) = .ok e') :
    ∃ protocol f, e.protocol = some protocol ∧ e'.fragments = e.fragments ++ [f] ∧
      f.body.convertRanges = listedPorts protocol side a b negated := by
  obtain ⟨f, hf, -, rfl⟩ := require_ok_iff.mp h
  simp only [Condition.fragment, bind_ok_iff, liftM_context_ok_iff, pure_ok_iff] at hf
  obtain ⟨p, hp, ps, hps, rfl⟩ := hf
  obtain ⟨protocol, -, hprotocol, rfl⟩ := Condition.portProtocol_ok hp
  refine ⟨protocol, _, hprotocol, rfl, ?_⟩
  rw [Ports.ofValue_of_spansPorts hv hps, Value.convertRanges_condition, Ports.term,
    Value.convertRanges_range, Int.sub_add_cancel]
  rfl

/-- **Spans of ports.**  A condition on a span of ports is listed with that span, at the place in
the rule at which it was asked for and whatever the expression is built up to. -/
theorem listed_port (hv : v.SpansPorts a b) (h : e.require (.port side v negated) = .ok e')
    (ms : List Move) :
    ∃ protocol vs, e.protocol = some protocol ∧
      (Value.list (e'.after ms).toList).convertRanges = .list vs ∧
      vs[e.fragments.length]? = some (listedPorts protocol side a b negated) := by
  obtain ⟨protocol, f, hprotocol, hfragments, hf⟩ := require_port hv h
  obtain ⟨rest, hrest⟩ := fragments_prefix_after e' ms
  refine ⟨protocol, (e'.after ms).toList.map Value.convertRanges, hprotocol, ?_, ?_⟩
  · rw [Value.convertRanges, Value.convertRangesItems_eq_map]
  · rw [toList, ← hrest, hfragments]
    simp [hf]

end Expr
end Nftables
