import Nftables.Proofs.Operation.Layout
import Nftables.Proofs.Transaction.Run

/-!
# Well-formed operations

Nothing is checked when it becomes ambient, and the fields of a spec may hold anything.  Still every
operation that a transaction comes to hold is well formed: whatever is not is refused when it would
be added.
-/

namespace Nftables

namespace Transaction

variable {t t' : Transaction} {verb : Verb} {s : Spec}

/-- What one call adds is well formed. -/
theorem wellFormed_of_apply (h : t.apply verb s = .ok t') :
    ∃ os, t'.operations = t.operations ++ os ∧ ∀ o ∈ os, o.WellFormed := by
  obtain ⟨os, -, heq, -, hcaptured⟩ := apply_ok h
  refine ⟨os, heq, fun o ho ↦ ?_⟩
  obtain ⟨s', hs', ho⟩ := hcaptured o ho
  obtain ⟨hverb, hkind, hattributes⟩ := operation_ok ho
  have hv : verb ∈ s'.kind.verbs := (said_of_mem_expand hs').1 ▸ admitted_of_apply h
  rw [Operation.WellFormed, hverb, hkind]
  exact ⟨hv, Layout.laysOut_attributes hattributes hv⟩

/-- Every operation that changes something is well formed. -/
def WellFormed (t : Transaction) : Prop :=
  ∀ o ∈ t.operations, o.verb ≠ .list → o.WellFormed

theorem wellFormed_of_perform {call : Call} (ht : t.WellFormed) (h : t.perform call = .ok t') :
    t'.WellFormed := by
  intro o ho hv
  cases call with
  | apply verb s =>
    obtain ⟨os, heq, hos⟩ := wellFormed_of_apply h
    rw [heq, List.mem_append] at ho
    exact ho.elim (fun ho ↦ ht o ho hv) (hos o)
  | withContext changes =>
    rw [operations_of_withContext (liftM_argument_ok_iff.mp h)] at ho
    exact ht o ho hv
  | list queries =>
    obtain ⟨hqueries, rfl⟩ := list_ok (liftM_argument_ok_iff.mp h)
    exact (List.mem_append.mp ho).elim (fun ho ↦ ht o ho hv) fun ho ↦ absurd (hqueries o ho) hv

/-- **Well-formed operations.**  Along any calls, and from any context, all operations that change
something are well formed.  None of them has an attribute twice. -/
theorem operations_wellFormed {c : Context} {calls : List Call}
    (h : run { context := c } calls = .ok t) {o : Operation} (ho : o ∈ t.operations)
    (hv : o.verb ≠ .list) :
    o.WellFormed ∧ ∀ as, o.attributes = some as → (as.map Prod.fst).Nodup := by
  have hstart : WellFormed { context := c } := fun _ ho ↦ absurd ho List.not_mem_nil
  have hwell : o.WellFormed := run_induction (fun _ _ _ ↦ wellFormed_of_perform) hstart h o ho hv
  refine ⟨hwell, fun as has ↦ ?_⟩
  obtain ⟨-, hfits⟩ := hwell
  rw [has] at hfits
  obtain ⟨l, hl, hfits⟩ := hfits
  exact hfits.sublist.nodup (Layout.nodup_keys hl)

/-- A family that is ambient, next to a table and a chain that are no names. -/
def unchecked : Context :=
  { family := .str "ip6", table := .int 0, chain := .list [] }

/-- A query, a base chain in a new table, and a rule at the head of the chain. -/
def guardedInput : List Call :=
  [.list [{ verb := .list, kind := .tables, attributes := some [] }],
    .apply .add (.table { name := .str "filter" }),
    .apply .add (.chain { name := .str "input", hook := .str "INPUT", policy := .str "drop" }),
    .apply .insert (.rule
      { body := .value (.list [.object [("accept", .null)]]), index := .int 0 })]

/-- From a context of which two parts are no names, the rule comes out well formed. -/
theorem operations_wellFormed_guardedInput :
    ∃ t o, run { context := unchecked } guardedInput = .ok t ∧ o ∈ t.operations ∧
      o.verb = .insert ∧ o.attribute? "chain" = some (.str "input") ∧
      o.WellFormed ∧ ∀ as, o.attributes = some as → (as.map Prod.fst).Nodup :=
  ⟨_, _, rfl, .tail _ (.tail _ (.tail _ (.head _))), rfl, rfl,
    operations_wellFormed (show run { context := unchecked } guardedInput = .ok _ from rfl)
      (.tail _ (.tail _ (.tail _ (.head _)))) (by decide)⟩

end Transaction
end Nftables
