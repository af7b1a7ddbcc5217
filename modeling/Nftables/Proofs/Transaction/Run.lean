import Nftables.Proofs.Spec.Identity
import Nftables.Transaction

/-!
# Runs

A transaction is built by calls, each of which returns a new one.  This file says what a single call
adds to the operations and does to the context, and what holds after every run of calls.
-/

namespace Nftables

/-- The value of an attribute of what an operation is about. -/
def Operation.attribute? (o : Operation) (key : String) : Option Value :=
  o.attributes.bind (Value.lookup key)

namespace Transaction

/-- The calls by which a transaction is built. -/
inductive Call where
  | apply (verb : Verb) (s : Spec)
  | withContext (changes : List Switch)
  | list (queries : List Operation)

def perform (t : Transaction) : Call → Except BuildError Transaction
  | .apply verb s => t.apply verb s
  | .withContext changes => liftM (t.withContext changes)
  | .list queries => liftM (t.list queries)

/-- Performs calls one after another, as long as they are admitted. -/
def run (t : Transaction) (calls : List Call) : Except BuildError Transaction :=
  calls.foldlM perform t

/-- What every call preserves holds after every run. -/
theorem run_induction {P : Transaction → Prop}
    (step : ∀ t call t', P t → perform t call = .ok t' → P t')
    {calls : List Call} {t t' : Transaction} (ht : P t) (h : t.run calls = .ok t') : P t' := by
  induction calls generalizing t with
  | nil =>
    cases h
    exact ht
  | cons call calls ih =>
    rw [run, List.foldlM_cons, bind_ok_iff] at h
    obtain ⟨t₁, h₁, h⟩ := h
    exact ih (step t call t₁ ht h₁) h

theorem run_append_singleton {calls : List Call} {call : Call} {t t' : Transaction} :
    t.run (calls ++ [call]) = .ok t' ↔ ∃ t₁, t.run calls = .ok t₁ ∧ t₁.perform call = .ok t' := by
  simp [run, List.foldlM_append]

/-! ## Batches -/

variable {t t' : Transaction} {verb : Verb} {s s' : Spec}

theorem expand_ne_nil (s : Spec) : expand s ≠ [] := by
  unfold expand
  split
  · rename_i r
    split
    case h_1 bodies h =>
      intro he
      rw [List.map_eq_nil_iff] at he
      subst he
      simp only [RuleBody.items?, Option.ite_none_right_eq_some, Option.some.injEq] at h
      simp [h.2] at h
    case h_2 => simp
  · simp

/-- What a spec stands for is the spec itself, or is a rule of the batch that the spec is. -/
theorem mem_expand (h : s' ∈ expand s) :
    s' = s ∨ ∃ (r : RuleSpec) (body : RuleBody), s = .rule r ∧ s' = .rule { r with body } := by
  unfold expand at h
  split at h
  case h_1 r =>
    split at h
    · obtain ⟨body, -, rfl⟩ := List.mem_map.mp h
      exact .inr ⟨r, body, rfl, rfl⟩
    · exact .inl (List.mem_singleton.mp h)
  case h_2 => exact .inl (List.mem_singleton.mp h)

/-- The rules of a batch differ in nothing that identifies them. -/
theorem said_of_mem_expand (h : s' ∈ expand s) :
    s'.kind = s.kind ∧ s'.said = s.said ∧ s'.unsaid = s.unsaid := by
  rcases mem_expand h with rfl | ⟨r, body, rfl, rfl⟩
  · exact ⟨rfl, rfl, rfl⟩
  · refine ⟨rfl, ?_, ?_⟩
    · funext _ p
      cases p <;> rfl
    · funext _ _ p
      cases p <;> rfl

theorem resolves_of_mem_expand {c : Context} {p : IdentityPart} {n : String} (h : s' ∈ expand s)
    (hn : s'.Resolves verb c p n) : s.Resolves verb c p n := by
  obtain ⟨-, hsaid, hunsaid⟩ := said_of_mem_expand h
  rw [Spec.Resolves, ← hsaid, ← hunsaid]
  exact hn

/-! ## One call -/

/-- A verb is applied if the kind of object admits it, if it is one for batches or there is no
batch, and if the operations and the context after them come out. -/
theorem apply_ok_iff : t.apply verb s = .ok t' ↔
    verb ∈ s.kind.verbs ∧ ¬(1 < (expand s).length ∧ verb ≠ .add ∧ verb ≠ .insert) ∧
      ∃ os c, (expand s).mapM (operation verb t.context) = .ok os ∧
        t.context.advance verb s = .ok c ∧ t' = ⟨c, t.operations ++ os⟩ := by
  have hverb : (∃ u, s.kind.admit verb = .ok u) ↔ verb ∈ s.kind.verbs := by
    unfold ObjectKind.admit
    split <;> simp_all
  simp only [apply, bind_ok_iff, liftM_argument_ok_iff, ← hverb, exists_and_right]
  refine and_congr_right fun _ ↦ ?_
  split
  case isTrue hbatch => simp [hbatch]
  case isFalse hbatch =>
    simp only [bind_ok_iff, pure_ok_iff, hbatch, not_false_eq_true, true_and, exists_and_left,
      eq_comm (a := t')]

theorem admitted_of_apply (h : t.apply verb s = .ok t') : verb ∈ s.kind.verbs :=
  (apply_ok_iff.mp h).1

/-- A call that applies a verb adds operations, at least one, and moves the context on. -/
theorem apply_ok (h : t.apply verb s = .ok t') :
    ∃ os, os ≠ [] ∧ t'.operations = t.operations ++ os ∧
      t.context.advance verb s = .ok t'.context ∧
      ∀ o ∈ os, ∃ s' ∈ expand s, operation verb t.context s' = .ok o := by
  obtain ⟨-, -, os, c, hos, hc, rfl⟩ := apply_ok_iff.mp h
  exact ⟨os, ne_nil_of_mapM_ok hos (expand_ne_nil s), rfl, hc,
    fun o ho ↦ exists_mem_of_mapM_ok hos ho⟩

theorem operation_ok_iff {c : Context} {o : Operation} : operation verb c s = .ok o ↔
    o.verb = verb ∧ o.kind = s.kind ∧ s.attributes verb c = .ok o.attributes := by
  simp only [operation, bind_ok_iff, pure_ok_iff]
  constructor
  · rintro ⟨a, ha, rfl⟩
    exact ⟨rfl, rfl, ha⟩
  · rintro ⟨rfl, hkind, ha⟩
    exact ⟨_, ha, by rw [← hkind]⟩

theorem operation_ok {c : Context} {o : Operation} (h : operation verb c s = .ok o) :
    o.verb = verb ∧ o.kind = s.kind ∧ s.attributes verb c = .ok o.attributes :=
  operation_ok_iff.mp h

/-- A switch of the context adds no operation. -/
theorem operations_of_withContext {changes : List Switch} (h : t.withContext changes = .ok t') :
    t'.operations = t.operations := by
  induction changes generalizing t with
  | nil =>
    cases h
    rfl
  | cons change changes ih =>
    rw [withContext, List.foldlM_cons, bind_ok_iff] at h
    obtain ⟨t₁, h₁, h⟩ := h
    rw [ih h]
    cases change with
    | family v =>
      obtain ⟨_, -, h₁⟩ := bind_ok_iff.mp h₁
      cases h₁
      rfl
    | table v | chain v | collection v =>
      cases h₁
      rfl

/-- Queries are added as they are. -/
theorem list_ok {queries : List Operation} (h : t.list queries = .ok t') :
    (∀ o ∈ queries, o.verb = .list) ∧
      t' = { t with operations := t.operations ++ queries } := by
  unfold list at h
  split at h
  case isTrue hq =>
    cases h
    exact ⟨by simpa using hq, rfl⟩
  case isFalse => cases h

/-- An operation captures a part of the identity, and the context after it has the part too, or has
the empty value that the spec says in its place. -/
structure Captures (o : Operation) (verb : Verb) (s : Spec) (c c' : Context) : Prop where
  kind : o.kind = s.kind
  part : ∀ p key, p.key? verb s.kind = some key → ∃ n, s.Resolves verb c p n ∧
    o.attribute? key = some (.str n) ∧
    c'.part p = if (s.takenOver p).givenEmpty then s.takenOver p else .str n

/-- What is captured is ambient, unless something empty was taken over in its place. -/
theorem Captures.attribute?_eq_iff {o : Operation} {c c' : Context} (h : Captures o verb s c c')
    {p : IdentityPart} {key : String} (hk : p.key? verb s.kind = some key) :
    o.attribute? key = some (c'.part p) ↔ (s.takenOver p).givenEmpty = false := by
  obtain ⟨n, hn, hlookup, hpart⟩ := h.part p key hk
  rw [hlookup, hpart, Option.some.injEq]
  cases he : (s.takenOver p).givenEmpty with
  | true => simpa using (Value.ne_str_of_givenEmpty he hn.1).symm
  | false => simp

/-- **One call.**  Every operation that a call adds captures what the context becomes. -/
theorem apply_captures (ht : t.context.HasFamily) (h : t.apply verb s = .ok t') :
    ∃ os, os ≠ [] ∧ t'.operations = t.operations ++ os ∧
      ∀ o ∈ os, Captures o verb s t.context t'.context := by
  obtain ⟨os, hos, heq, hadvance, hcaptured⟩ := apply_ok h
  refine ⟨os, hos, heq, fun o ho ↦ ?_⟩
  obtain ⟨s', hs', ho⟩ := hcaptured o ho
  obtain ⟨-, hkind, hattributes⟩ := operation_ok ho
  have hs := (said_of_mem_expand hs').1
  refine ⟨hkind.trans hs, fun p key hk ↦ ?_⟩
  obtain ⟨n, hn, hlookup⟩ := Spec.captures hattributes (hs ▸ hk)
  have hn := resolves_of_mem_expand hs' hn
  exact ⟨n, hn, hlookup, Spec.part_of_advance ht hadvance hk hn⟩

/-! ## The ambient family -/

theorem hasFamily_of_apply (ht : t.context.HasFamily) (h : t.apply verb s = .ok t') :
    t'.context.HasFamily := by
  by_cases hr : s.kind = .ruleset
  · obtain ⟨_, -, -, hadvance, -⟩ := apply_ok h
    cases s with
    | ruleset _ =>
      have heq : t.context = t'.context := Except.ok.inj hadvance
      exact heq ▸ ht
    | _ => cases hr
  · obtain ⟨os, hos, -, hcaptures⟩ := apply_captures ht h
    obtain ⟨o, ho⟩ := List.exists_mem_of_ne_nil os hos
    obtain ⟨n, hn, -, hpart⟩ := (hcaptures o ho).part .family "family" (if_neg hr)
    obtain ⟨f, rfl⟩ := Context.familyName_of_ok hn.2
    exact ⟨f, hpart⟩

theorem hasFamily_of_switch {change : Switch} (ht : t.context.HasFamily)
    (h : t.switch change = .ok t') : t'.context.HasFamily := by
  cases change with
  | family v =>
    obtain ⟨n, hn, h⟩ := bind_ok_iff.mp h
    cases h
    obtain ⟨f, rfl⟩ := Context.familyName_of_ok hn
    exact ⟨f, rfl⟩
  | table v | chain v | collection v =>
    cases h
    exact ht

/-- The ambient family stays a family with every call. -/
theorem hasFamily_of_perform {call : Call} (ht : t.context.HasFamily)
    (h : t.perform call = .ok t') : t'.context.HasFamily := by
  cases call with
  | apply verb s => exact hasFamily_of_apply ht h
  | withContext changes =>
    have h : changes.foldlM switch t = .ok t' := liftM_argument_ok_iff.mp h
    induction changes generalizing t with
    | nil =>
      cases h
      exact ht
    | cons change changes ih =>
      rw [List.foldlM_cons, bind_ok_iff] at h
      obtain ⟨t₁, h₁, h⟩ := h
      exact ih (hasFamily_of_switch ht h₁) (liftM_argument_ok_iff.mpr h) h
  | list queries =>
    have h : t.list queries = .ok t' := liftM_argument_ok_iff.mp h
    unfold list at h
    split at h
    · cases h
      exact ht
    · cases h

theorem hasFamily_of_run {calls : List Call} (h : run {} calls = .ok t) : t.context.HasFamily :=
  run_induction (fun _ _ _ ↦ hasFamily_of_perform) ⟨.inet, rfl⟩ h

end Transaction
end Nftables
