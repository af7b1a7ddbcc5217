import Nftables.Proofs.Spec.Plain
import Nftables.Proofs.Transaction.Run
import Nftables.Query

/-!
# Plain transactions

A transaction that is built of plain values has plain values in all its operations.  What is ambient
does not matter: nothing of it gets into an operation unchecked.
-/

namespace Nftables

theorem RuleBody.Plain.items? {b : RuleBody} {bs : List RuleBody} (hb : b.Plain)
    (h : b.items? = some bs) : ∀ b' ∈ bs, b'.Plain := by
  simp only [RuleBody.items?, Option.ite_none_right_eq_some, Option.some.injEq] at h
  obtain ⟨-, rfl⟩ := h
  cases hb with
  | expr => simp
  | sequence hbs => exact hbs
  | value hv =>
    cases hv with
    | list hp =>
      intro b' hb'
      obtain ⟨v, hv, rfl⟩ := List.mem_map.mp hb'
      exact .value (hp v hv)
    | _ => simp

/-! ## Queries -/

namespace Query

variable {family name table : Value} {c : Call} {o : Operation}

/-- The family of a query stands in front of names that are taken over as they are given. -/
theorem plain_operation {kind : ObjectKind} {restriction names : Attributes}
    (hscope : scope family = .ok restriction) (hkeys : ("family" :: names.map Prod.fst).Nodup)
    (hnames : ∀ e ∈ names, e.2.Plain) :
    (operation kind (restriction ++ names)).attributeValue.Plain := by
  unfold scope at hscope
  split at hscope
  · cases hscope
    exact .object hkeys.of_cons hnames
  · obtain ⟨f, -, h⟩ := bind_ok_iff.mp hscope
    cases h
    exact .object hkeys (List.forall_mem_cons.mpr ⟨.str f, hnames⟩)

theorem plain_tables (h : tables family = .ok o) : o.attributeValue.Plain := by
  obtain ⟨restriction, hscope, ⟨⟩⟩ := bind_ok_iff.mp h
  exact restriction.append_nil ▸ plain_operation hscope (by simp) (by simp)

theorem plain_ruleset (h : ruleset family = .ok o) : o.attributeValue.Plain := by
  obtain ⟨restriction, hscope, ⟨⟩⟩ := bind_ok_iff.mp h
  exact restriction.append_nil ▸ plain_operation hscope (by simp) (by simp)

theorem plain_table (hname : name.Plain) (h : Query.table name family = .ok o) :
    o.attributeValue.Plain := by
  obtain ⟨restriction, hscope, ⟨⟩⟩ := bind_ok_iff.mp h
  exact plain_operation hscope (by simp) (by simp [hname])

theorem plain_chain (htable : table.Plain) (hname : name.Plain)
    (h : chain table name family = .ok o) : o.attributeValue.Plain := by
  obtain ⟨restriction, hscope, ⟨⟩⟩ := bind_ok_iff.mp h
  exact plain_operation hscope (by simp) (by simp [htable, hname])

theorem plain_set (htable : table.Plain) (hname : name.Plain)
    (h : set table name family = .ok o) : o.attributeValue.Plain := by
  obtain ⟨restriction, hscope, ⟨⟩⟩ := bind_ok_iff.mp h
  exact plain_operation hscope (by simp) (by simp [htable, hname])

/-- A query that is called with plain arguments is plain. -/
theorem plain_ofCall (hc : c.Plain) (h : ofCall c = .ok o) : o.attributeValue.Plain := by
  unfold ofCall at h
  simp only at h
  split at h
  case h_8 => cases h
  -- In each case the arguments are bound to the parameters, and make up the query.
  all_goals
    obtain ⟨arguments, hbind, h⟩ := bind_ok_iff.mp h
    have hplain := hc.bind (by simp [Parameter.required, Parameter.optional])
      (liftM_shape_ok_iff.mp hbind)
    split at h
    case h_2 => cases h
    have h := liftM_argument_ok_iff.mp h
  · exact plain_tables h
  · exact plain_ruleset h
  · exact plain_ruleset h
  · exact plain_ruleset h
  · exact plain_table (by simp_all) h
  · exact plain_chain (by simp_all) (by simp_all) h
  · exact plain_set (by simp_all) (by simp_all) h

end Query

namespace Transaction

variable {t t' : Transaction} {s s' : Spec} {verb : Verb}

/-- The values that a call hands over are plain, so far as they are not checked. -/
def Call.Plain : Call → Prop
  | .apply _ s => s.Plain
  | .withContext _ => True
  | .list queries => ∀ o ∈ queries, o.attributeValue.Plain

/-- All attributes of all operations are plain. -/
def Plain (t : Transaction) : Prop :=
  ∀ o ∈ t.operations, o.attributeValue.Plain

end Transaction
end Nftables
