import Nftables.Proofs.Spec.Qualified
import Nftables.Proofs.Transaction.Run

/-!
# Qualified runs

What is ambient saves saying the identity of an object again and again, and does nothing else.  A
run can be repeated with each spec saying the identity which its operations had: then it makes no
difference from which context it starts, and where on the way the context is switched.
-/

namespace Nftables

namespace Transaction

variable {t t' u : Transaction} {verb : Verb} {s s' : Spec} {c c' : Context}

/-! ## Batches -/

theorem expand_eq_singleton (h : s.kind ≠ .rule) : expand s = [s] := by
  cases s with
  | rule r => exact absurd rfl h
  | _ => rfl

theorem expand_withIdentity {F T N : Value} :
    expand (s.withIdentity F T N) = (expand s).map (·.withIdentity F T N) := by
  cases s with
  | rule r =>
    simp only [expand, Spec.withIdentity]
    split
    · simp
    · rfl
  | _ => rfl

/-- The rules of a batch have their identity from the batch. -/
theorem identity_of_mem_expand (h : s' ∈ expand s) :
    c.familyOf s' = c.familyOf s ∧ c.tableOf s' = c.tableOf s ∧ c.nameOf s' = c.nameOf s := by
  rcases mem_expand h with rfl | ⟨r, body, rfl, rfl⟩ <;> exact ⟨rfl, rfl, rfl⟩

/-- A context is moved on by a batch as by each of its rules. -/
theorem advance_of_mem_expand (h : s' ∈ expand s) : c.advance verb s' = c.advance verb s := by
  rcases mem_expand h with rfl | ⟨r, body, rfl, rfl⟩ <;> rfl

/-- All rules of a batch capture the identity that the batch resolves to. -/
theorem captured_of_mem_expand {a : Option Attributes} (hrule : s.kind = .rule)
    (hs : s' ∈ expand s) (h : s'.attributes verb c = .ok a) :
    ∃ f t n, c.familyOf s = .ok f ∧ c.tableOf s = .ok t ∧ c.nameOf s = .ok n ∧
      captured a "family" = .str f ∧ captured a "table" = .str t ∧ captured a "chain" = .str n := by
  have hk : s'.kind = .rule := (said_of_mem_expand hs).1.trans hrule
  obtain ⟨hf, ht, hn⟩ := identity_of_mem_expand (c := c) hs
  have hcaptured := Spec.captured_of_attributes (by simp [hk]) (by simp [hk]) h
  rwa [hf, ht, hn, hk] at hcaptured

/-- All operations of a batch qualify a spec in the same way. -/
theorem qualified_of_mem_expand {s₁ s₂ : Spec} {a₁ a₂ : Option Attributes} (h₁ : s₁ ∈ expand s)
    (h₂ : s₂ ∈ expand s) (ha₁ : s₁.attributes verb c = .ok a₁)
    (ha₂ : s₂.attributes verb c = .ok a₂) (hk : s'.kind = s.kind) :
    s'.qualified a₁ = s'.qualified a₂ := by
  by_cases hrule : s.kind = .rule
  · obtain ⟨f, t, n, hf, ht, hn, hcf₁, hct₁, hcn₁⟩ := captured_of_mem_expand hrule h₁ ha₁
    obtain ⟨_, _, _, hf₂, ht₂, hn₂, hcf₂, hct₂, hcn₂⟩ := captured_of_mem_expand hrule h₂ ha₂
    cases hf.symm.trans hf₂
    cases ht.symm.trans ht₂
    cases hn.symm.trans hn₂
    have hkey : s'.kind.nameKey = "chain" := by rw [hk, hrule]; rfl
    simp only [Spec.qualified, hkey, hcf₁, hct₁, hcn₁, hcf₂, hct₂, hcn₂]
  · rw [expand_eq_singleton hrule, List.mem_singleton] at h₁ h₂
    subst h₁ h₂
    cases ha₁.symm.trans ha₂
    rfl

/-- The specs that a qualified spec stands for come to the same operations in every context. -/
theorem mapM_operation_qualified {os : List Operation} {o : Operation}
    (h : (expand s).mapM (operation verb c) = .ok os) (ho : o ∈ os) :
    (expand (s.qualified o.attributes)).mapM (operation verb c') = .ok os := by
  obtain ⟨s₀, hs₀, hop⟩ := exists_mem_of_mapM_ok h ho
  have ha₀ := (operation_ok hop).2.2
  rw [Spec.qualified, expand_withIdentity, mapM_ok_iff, List.forall₂_map_left_iff]
  have hmem := (List.forall₂_and_left (p := (· ∈ expand s)) _ _).mpr
    ⟨fun _ ↦ id, mapM_ok_iff.mp h⟩
  refine hmem.imp fun s' o' hso ↦ ?_
  obtain ⟨hs', ho'⟩ := hso
  obtain ⟨hverb, hkind, ha'⟩ := operation_ok ho'
  have hk := (said_of_mem_expand hs').1
  have hq : s'.qualified o'.attributes = s'.withIdentity (captured o.attributes "family")
      (captured o.attributes "table") (captured o.attributes s.kind.nameKey) := by
    rw [qualified_of_mem_expand hs' hs₀ ha' ha₀ hk, Spec.qualified, hk]
  rw [← hq, operation_ok_iff]
  refine ⟨hverb, ?_, (Spec.attributes_qualified ha' c').1⟩
  rw [hkind, hq, Spec.kind_withIdentity]

/-- **One call.**  With the identity that any of its operations has captured, a spec comes to the
same operations after every other transaction. -/
theorem apply_qualified (h : t.apply verb s = .ok t') :
    ∃ os, os ≠ [] ∧ t'.operations = t.operations ++ os ∧ ∀ o ∈ os, ∀ u : Transaction,
      ∃ c, u.apply verb (s.qualified o.attributes) = .ok ⟨c, u.operations ++ os⟩ := by
  obtain ⟨hverb, hbatch, os, c, hos, hc, rfl⟩ := apply_ok_iff.mp h
  refine ⟨os, ne_nil_of_mapM_ok hos (expand_ne_nil s), rfl, fun o ho u ↦ ?_⟩
  obtain ⟨s', hs', hop⟩ := exists_mem_of_mapM_ok hos ho
  have hk := (said_of_mem_expand hs').1
  obtain ⟨e, he⟩ := (Spec.attributes_qualified (operation_ok hop).2.2 u.context).2
  have hadvance : u.context.advance verb (s.qualified o.attributes) = .ok e := by
    rw [← he, Spec.qualified, Spec.qualified, hk]
    refine (advance_of_mem_expand ?_).symm
    rw [expand_withIdentity]
    exact List.mem_map_of_mem hs'
  refine ⟨e, apply_ok_iff.mpr ⟨?_, ?_, os, e, mapM_operation_qualified hos ho, hadvance, rfl⟩⟩
  · rwa [Spec.qualified, Spec.kind_withIdentity]
  · rwa [Spec.qualified, expand_withIdentity, List.length_map]

/-! ## Runs -/

/-- Does a call add operations?  All do but those that switch the context. -/
def Call.adds : Call → Bool
  | .withContext _ => false
  | _ => true

/-- A call on a spec, with the identity that what it adds has captured. -/
def Call.qualified (call : Call) (added : List Operation) : Call :=
  match call, added with
  | .apply verb s, o :: _ => .apply verb (s.qualified o.attributes)
  | call, _ => call

/-- The calls of a run, in which all specs now say their identity. -/
def qualified (t : Transaction) : List Call → List Call
  | [] => []
  | call :: calls =>
    match t.perform call with
    | .ok t' => call.qualified (t'.operations.drop t.operations.length) :: t'.qualified calls
    | .error _ => []

/-- A switch is admitted if each family it switches to is one. -/
def Admitted (changes : List Switch) : Prop :=
  ∀ v, .family v ∈ changes → ∃ n, Context.familyName v = .ok n

/-- Calls lead from some operations to others, whatever is ambient before each of them. -/
inductive Leads : List Operation → List Call → List Operation → Prop where
  | nil (os : List Operation) : Leads os [] os
  | cons {os os₁ os' : List Operation} {call : Call} {calls : List Call}
      (hcall : ∀ c, ∃ c', perform ⟨c, os⟩ call = .ok ⟨c', os₁⟩) (h : Leads os₁ calls os') :
      Leads os (call :: calls) os'

theorem exists_withContext {changes : List Switch} (h : Admitted changes) (c : Context)
    (os : List Operation) : ∃ c', withContext ⟨c, os⟩ changes = .ok ⟨c', os⟩ := by
  induction changes generalizing c with
  | nil => exact ⟨c, rfl⟩
  | cons change changes ih =>
    have hswitch : ∃ c₁, switch ⟨c, os⟩ change = .ok ⟨c₁, os⟩ := by
      cases change with
      | family v =>
        obtain ⟨n, hn⟩ := h v List.mem_cons_self
        exact ⟨_, bind_ok_iff.mpr ⟨n, hn, rfl⟩⟩
      | table v | chain v | collection v => exact ⟨_, rfl⟩
    obtain ⟨c₁, h₁⟩ := hswitch
    obtain ⟨c', h'⟩ := ih (fun v hv ↦ h v (List.mem_cons_of_mem _ hv)) c₁
    exact ⟨c', by rw [withContext, List.foldlM_cons, bind_ok_iff]; exact ⟨_, h₁, h'⟩⟩

/-- Only switches that are admitted are made. -/
theorem admitted_of_withContext {changes : List Switch} (h : t.withContext changes = .ok t') :
    Admitted changes := by
  intro v hv
  induction changes generalizing t with
  | nil => cases hv
  | cons change changes ih =>
    rw [withContext, List.foldlM_cons, bind_ok_iff] at h
    obtain ⟨t₁, h₁, h⟩ := h
    rcases List.mem_cons.mp hv with rfl | hv
    · obtain ⟨n, hn, -⟩ := bind_ok_iff.mp h₁
      exact ⟨n, hn⟩
    · exact ih h hv

theorem admitted_of_run {calls : List Call} (h : t.run calls = .ok t') {changes : List Switch}
    (hmem : .withContext changes ∈ calls) : Admitted changes := by
  induction calls generalizing t with
  | nil => cases hmem
  | cons call calls ih =>
    rw [run, List.foldlM_cons, bind_ok_iff] at h
    obtain ⟨t₁, h₁, h⟩ := h
    rcases List.mem_cons.mp hmem with rfl | hmem
    · exact admitted_of_withContext (liftM_argument_ok_iff.mp h₁)
    · exact ih h hmem

/-- The qualified calls of a run lead where the run did. -/
theorem leads_qualified {calls : List Call} (h : t.run calls = .ok t') :
    Leads t.operations ((t.qualified calls).filter Call.adds) t'.operations := by
  induction calls generalizing t with
  | nil =>
    cases h
    exact .nil _
  | cons call calls ih =>
    rw [run, List.foldlM_cons, bind_ok_iff] at h
    obtain ⟨t₁, h₁, h⟩ := h
    have ih := ih h
    simp only [qualified, h₁]
    cases call with
    | apply verb s =>
      obtain ⟨os, hne, heq, hsame⟩ := apply_qualified h₁
      obtain ⟨o, os', rfl⟩ := List.exists_cons_of_ne_nil hne
      have hcall (c : Context) : ∃ c', perform ⟨c, t.operations⟩
          (.apply verb (s.qualified o.attributes)) = .ok ⟨c', t.operations ++ o :: os'⟩ :=
        hsame o List.mem_cons_self ⟨c, t.operations⟩
      rw [heq, List.drop_left]
      rw [heq] at ih
      exact .cons hcall ih
    | withContext changes =>
      rw [operations_of_withContext (liftM_argument_ok_iff.mp h₁)] at ih
      exact ih
    | list queries =>
      obtain ⟨hqueries, rfl⟩ := list_ok (liftM_argument_ok_iff.mp h₁)
      refine .cons (fun c ↦ ⟨c, liftM_argument_ok_iff.mpr ?_⟩) ih
      exact if_pos (by simpa using hqueries)

/-- Where calls lead does not depend on switches of the context between them. -/
theorem run_of_leads {os os' : List Operation} {others : List Call}
    (h : Leads os (others.filter Call.adds) os')
    (hswitches : ∀ changes, .withContext changes ∈ others → Admitted changes) (c : Context) :
    ∃ c', run ⟨c, os⟩ others = .ok ⟨c', os'⟩ := by
  induction others generalizing c os with
  | nil =>
    cases h
    exact ⟨c, rfl⟩
  | cons call others ih =>
    have hrest (changes) (hmem : .withContext changes ∈ others) : Admitted changes :=
      hswitches changes (List.mem_cons_of_mem _ hmem)
    cases hadds : call.adds with
    | true =>
      rw [List.filter_cons_of_pos hadds] at h
      cases h with
      | cons hcall h =>
        obtain ⟨c₁, h₁⟩ := hcall c
        obtain ⟨c', h'⟩ := ih h hrest c₁
        exact ⟨c', by rw [run, List.foldlM_cons, bind_ok_iff]; exact ⟨_, h₁, h'⟩⟩
    | false =>
      rw [List.filter_cons_of_neg (by simp [hadds])] at h
      cases call with
      | withContext changes =>
        obtain ⟨c₁, h₁⟩ := exists_withContext (hswitches changes List.mem_cons_self) c os
        obtain ⟨c', h'⟩ := ih h hrest c₁
        refine ⟨c', ?_⟩
        rw [run, List.foldlM_cons, bind_ok_iff]
        exact ⟨_, liftM_argument_ok_iff.mpr h₁, h'⟩
      | apply verb s | list queries => cases hadds

/-- **What is ambient is a shorthand.**  A call that succeeds can be made with the identity that its
operations captured, after any other transaction, and adds the same operations there.  So a run can
be repeated with all specs qualified, from any context and with any switches of the context on the
way, and comes to the same document; it fails only if one of these switches is refused itself. -/
theorem ambient_is_shorthand :
    (∀ (t t' : Transaction) (verb : Verb) (s : Spec), t.apply verb s = .ok t' →
      ∃ os, os ≠ [] ∧ t'.operations = t.operations ++ os ∧ ∀ o ∈ os, ∀ u : Transaction,
        ∃ c, u.apply verb (s.qualified o.attributes) = .ok ⟨c, u.operations ++ os⟩) ∧
    ∀ (t t' : Transaction) (calls : List Call), t.run calls = .ok t' →
      ∀ others : List Call, others.filter Call.adds = (t.qualified calls).filter Call.adds →
        ∀ u : Transaction, u.operations = t.operations →
          ((∃ u', u.run others = .ok u' ∧ u'.operations = t'.operations ∧ u'.toJson = t'.toJson) ↔
            ∀ changes, .withContext changes ∈ others → Admitted changes) := by
  refine ⟨fun _ _ _ _ ↦ apply_qualified, fun t t' calls h others hothers u hu ↦ ⟨?_, ?_⟩⟩
  · rintro ⟨u', hrun, -⟩ changes hmem
    exact admitted_of_run hrun hmem
  · intro hswitches
    have hleads := leads_qualified h
    rw [← hothers, ← hu] at hleads
    obtain ⟨c, hrun⟩ := run_of_leads hleads hswitches u.context
    exact ⟨⟨c, t'.operations⟩, hrun, rfl, rfl⟩

/-- A rule that lets a packet pass. -/
def acceptBody : RuleBody := .value (.list [.object [("accept", .null)]])

/-- A chain in a new table. -/
def newChain : List Call :=
  [.apply .add (.table { name := .str "filter" }), .apply .add (.chain { name := .str "input" })]

/-- The chain and a rule for it, with all identity said.  What is ambient is another family, and
something that is no table. -/
def saidInFull : List Call :=
  [.apply .add (.table { name := .str "filter", family := .str "inet" }),
    .withContext [.family (.str "ip6"), .table (.int 7)],
    .apply .add (.chain { name := .str "input", table := .str "filter", family := .str "inet" }),
    .apply .add (.rule
      { body := acceptBody, chain := .str "input", table := .str "filter", family := .str "inet" })]

theorem admitted_of_mem_saidInFull {changes : List Switch}
    (h : .withContext changes ∈ saidInFull) : Admitted changes := by
  simp only [saidInFull, List.mem_cons, reduceCtorEq, Call.withContext.injEq, List.not_mem_nil,
    false_or, or_false] at h
  subst h
  intro v hv
  simp only [List.mem_cons, Switch.family.injEq, reduceCtorEq, List.not_mem_nil, or_false] at hv
  subst hv
  exact ⟨"ip6", rfl⟩

/-- A rule that says no more than what it does can be added with its identity instead, and the run
that ends with it can be made from another context. -/
theorem ambient_is_shorthand_newChain :
    (∃ t t', run {} newChain = .ok t ∧ t.apply .add (.rule { body := acceptBody }) = .ok t' ∧
      ∃ os, os ≠ [] ∧ t'.operations = t.operations ++ os ∧ ∀ o ∈ os, ∀ u : Transaction, ∃ c,
        u.apply .add ((Spec.rule { body := acceptBody }).qualified o.attributes) =
          .ok ⟨c, u.operations ++ os⟩) ∧
    ∃ t u, run {} (newChain ++ [.apply .add (.rule { body := acceptBody })]) = .ok t ∧
      run { context := { chain := .str "output" } } saidInFull = .ok u ∧
      u.operations = t.operations ∧ u.toJson = t.toJson := by
  refine ⟨⟨_, _, rfl, rfl, ambient_is_shorthand.1 _ _ .add (.rule { body := acceptBody }) rfl⟩, ?_⟩
  obtain ⟨u, hu, hsame⟩ := (ambient_is_shorthand.2 {} _
    (newChain ++ [.apply .add (.rule { body := acceptBody })]) rfl saidInFull rfl
    { context := { chain := .str "output" } } rfl).mpr fun _ ↦ admitted_of_mem_saidInFull
  exact ⟨_, u, rfl, hu, hsame⟩

end Transaction
end Nftables
