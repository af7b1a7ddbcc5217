import Nftables.Proofs.Spec.Refusal
import Nftables.Proofs.Transaction.Qualified

/-!
# Details of added objects

An add says all that its spec does: each detail that is given stands in the operation, and a name
that stands for no word is refused.  The exceptions are the details that a chain drops, and these
are exceptions always.
-/

namespace Nftables

/-- The kinds of objects that have details. -/
def ObjectKind.detailed : List ObjectKind :=
  [.chain, .set, .map, .counter, .quota, .limit, .flowtable]

/-- The operation says what a detail does. -/
def Operation.Says (o : Operation) (d : Detail) : Prop :=
  ∃ w, o.attribute? d.key = some w ∧ d.reading.Writes d.value w

namespace Transaction

variable {t t' : Transaction} {s : Spec} {d : Detail}

theorem admits_add (hk : s.kind ∈ ObjectKind.detailed) : .add ∈ s.kind.verbs := by
  revert hk
  cases s.kind <;> decide

theorem ne_of_detailed (hk : s.kind ∈ ObjectKind.detailed) :
    s.kind ≠ .ruleset ∧ s.kind ≠ .table ∧ s.kind ≠ .rule := by
  revert hk
  cases s.kind <;> decide

/-- What is wrong with the attributes of an object is wrong with its add. -/
theorem add_error_of_attributes (hk : s.kind ∈ ObjectKind.detailed) {e : BuildError}
    (h : s.attributes .add t.context = .error e) : t.add s = .error e := by
  have hadmit : ObjectKind.admit s.kind .add = .ok () := if_pos (admits_add hk)
  have hop : operation .add t.context s = .error e := bind_error_iff.mpr (.inl h)
  have hoperations : (expand s).mapM (operation .add t.context) = .error e := by
    rw [expand_eq_singleton (ne_of_detailed hk).2.2, List.mapM_cons]
    exact bind_error_iff.mpr (.inl hop)
  rw [add, apply, hadmit]
  refine bind_error_iff.mpr (.inr ⟨(), rfl, ?_⟩)
  rw [if_neg (by simp)]
  exact bind_error_iff.mpr (.inl hoperations)

/-- An object that is added comes to one operation, with the attributes that its spec has. -/
theorem attributes_of_add (hk : s.kind ∈ ObjectKind.detailed) (h : t.add s = .ok t') :
    ∃ o as, t'.operations = t.operations ++ [o] ∧ o.verb = .add ∧ o.kind = s.kind ∧
      o.attributes = some as ∧ s.attributes .add t.context = .ok (some as) := by
  obtain ⟨-, -, os, c, hos, -, rfl⟩ := apply_ok_iff.mp h
  rw [expand_eq_singleton (ne_of_detailed hk).2.2, mapM_ok_iff] at hos
  obtain _ | ⟨ho, ⟨⟩⟩ := hos
  obtain ⟨hverb, hkind, ha⟩ := operation_ok ho
  obtain ⟨as, has, -⟩ := Spec.identify_attributes (ne_of_detailed hk).1 (ne_of_detailed hk).2.1 ha
  exact ⟨_, as, rfl, hverb, hkind, has, has ▸ ha⟩

/-- An object whose attributes come out has an identity. -/
theorem identity_of_attributes (hk : s.kind ∈ ObjectKind.detailed) {c : Context}
    {a : Option Attributes} (h : s.attributes .add c = .ok a) :
    ∃ as n, scope c s = .ok as ∧ c.nameOf s = .ok n := by
  obtain ⟨-, -, f, table, n, -, hf, htable, hn, -⟩ :=
    Spec.identify_attributes (ne_of_detailed hk).1 (ne_of_detailed hk).2.1 h
  refine ⟨[("family", .str f), ("table", .str table)], n, ?_, hn⟩
  simp [scope, hf, htable]

/-- **Nothing is dropped silently.**  Of an object that is added, a given detail stands in the
operation if and only if it is none of those that a chain drops.  A detail that is a name for no
word is refused unless it is dropped, and it is refused as an argument if the object has an
identity. -/
theorem add_says_details (hk : s.kind ∈ ObjectKind.detailed) :
    (∀ t', t.add s = .ok t' → ∃ o, t'.operations = t.operations ++ [o] ∧ o.verb = .add ∧
      o.kind = s.kind ∧ ∀ d ∈ s.details, d.Given → (o.Says d ↔ ¬ s.Drops d.key)) ∧
    ∀ d ∈ s.details, d.Given → d.Misnamed → ¬ s.Drops d.key →
      ∃ e, t.add s = .error e ∧
        ∀ as n, scope t.context s = .ok as → t.context.nameOf s = .ok n → ∃ a, e = .argument a := by
  constructor
  · intro t' h
    obtain ⟨o, as, hos, hverb, hkind, hattributes, has⟩ := attributes_of_add hk h
    refine ⟨o, hos, hverb, hkind, fun d hd hgiven ↦ ?_⟩
    rw [← Spec.writtenIn_iff has (admits_add hk) hd hgiven, Operation.Says, Operation.attribute?,
      hattributes]
    rfl
  · intro d hd hgiven hmisnamed hdrops
    have hrefuses {as : Attributes} {n : String} (hscope : scope t.context s = .ok as)
        (hn : t.context.nameOf s = .ok n) :=
      Spec.refuses_attributes hscope hn hd hgiven hmisnamed hdrops
    cases ha : s.attributes .add t.context with
    | ok a =>
      obtain ⟨as, n, hscope, hn⟩ := identity_of_attributes hk ha
      obtain ⟨e, he⟩ := hrefuses hscope hn
      cases ha.symm.trans he
    | error e =>
      refine ⟨e, add_error_of_attributes hk ha, fun as n hscope hn ↦ ?_⟩
      obtain ⟨a, he⟩ := hrefuses hscope hn
      exact ⟨a, Except.error.inj (ha.symm.trans he)⟩

/-- The ambient table is `t`, and nothing else is said. -/
def inTable : Transaction := { context := { table := .str "t" } }

/-- A base chain with a given policy. -/
def filteredInput (policy : String) : Spec :=
  .chain
    { name := .str "input", type := .str " Filter", hook := .str "INPUT", priority := .int 0,
      policy := .str policy, devices := .tuple [.str "eth0"] }

/-- No policy is called `reject`. -/
theorem not_names_reject (a : ChainPolicy) : ¬ (Value.str "reject").Names a := by
  rintro ⟨_, ⟨⟩, ha⟩
  have hnone : Vocabulary.find? (α := ChainPolicy) "reject" = none := by decide
  cases hnone.symm.trans ha

/-- All that is said of a base chain is written, and a policy that is none is refused. -/
theorem add_says_details_filteredInput :
    (∃ t o, inTable.add (filteredInput "DROP") = .ok t ∧ t.operations = [o] ∧
      ∀ d ∈ (filteredInput "DROP").details, o.Says d) ∧
    ∃ a, inTable.add (filteredInput "reject") = .error (.argument a) := by
  have hkeeps (policy key : String) : ¬ (filteredInput policy).Drops key := by
    simp [filteredInput, Spec.Drops, ChainSpec.Drops, ChainSpec.isBase, Value.givenEmpty,
      Value.isNull, Value.truthy]
  constructor
  · obtain ⟨t, h⟩ : ∃ t, inTable.add (filteredInput "DROP") = .ok t := ⟨_, rfl⟩
    obtain ⟨o, hos, -, -, hwritten⟩ := (add_says_details (by decide)).1 t h
    refine ⟨t, o, h, hos, fun d hd ↦ (hwritten d hd ?_).mpr (hkeeps _ _)⟩
    revert d
    simp [filteredInput, Spec.details, ChainSpec.details, Detail.Given, Reading.word, Reading.same,
      Reading.oneOrMany]
  · obtain ⟨e, he, hargument⟩ := (add_says_details (t := inTable) (s := filteredInput "reject")
      (by decide)).2 ⟨"policy", .str "reject", .word ChainPolicy⟩
      (by simp [filteredInput, Spec.details, ChainSpec.details])
      (by simp [Detail.Given, Reading.word])
      not_names_reject (hkeeps _ _)
    obtain ⟨a, rfl⟩ := hargument _ "input" rfl rfl
    exact ⟨a, he⟩

/-- A policy alone does not make a chain a base chain. -/
def policyAlone : Spec := .chain { name := .str "input", policy := .str "reject" }

/-- The policy of a chain that is nothing else is passed over, and is not even looked up. -/
theorem policy_alone_is_dropped :
    ∃ t o d, inTable.add policyAlone = .ok t ∧ t.operations = [o] ∧ d ∈ policyAlone.details ∧
      d.Given ∧ d.Misnamed ∧ ¬ o.Says d := by
  refine ⟨_, _, ⟨"policy", .str "reject", .word ChainPolicy⟩, rfl, rfl, ?_, ?_,
    not_names_reject, ?_⟩
  · simp [policyAlone, Spec.details, ChainSpec.details]
  · simp [Detail.Given, Reading.word]
  · rintro ⟨w, hw, -⟩
    cases hw

end Transaction
end Nftables
