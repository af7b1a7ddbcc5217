import Nftables.Proofs.Spec.Identity

/-!
# Qualified specs

A spec that says its identity in full does not depend on what is ambient.  If a spec comes to some
attributes in one context, then with the identity that these have it comes to the same attributes in
every context, and a context can be moved on by it.
-/

namespace Nftables

open Context (familyName nameOr)

/-- What attributes say under a key, or null. -/
def captured (a : Option Attributes) (key : String) : Value :=
  (a.bind (Value.lookup key)).getD .null

namespace Spec

/-- The spec with another identity, which is all that differs.  A part that the object does not have
is dropped. -/
def withIdentity (s : Spec) (family table name : Value) : Spec :=
  match s with
  | .ruleset _ => .ruleset family
  | .table s => .table { s with family, name }
  | .chain s => .chain { s with family, table, name }
  | .rule s => .rule { s with family, table, chain := name }
  | .set s => .set { s with family, table, name }
  | .map s => .map { s with family, table, name }
  | .element s => .element { s with family, table, set := name }
  | .counter s => .counter { s with family, table, name }
  | .quota s => .quota { s with family, table, name }
  | .limit s => .limit { s with family, table, name }
  | .flowtable s => .flowtable { s with family, table, name }

/-- The spec with the identity that attributes have. -/
def qualified (s : Spec) (a : Option Attributes) : Spec :=
  s.withIdentity (captured a "family") (captured a "table") (captured a s.kind.nameKey)

variable {s : Spec} {verb : Verb} {c d : Context} {f t n : String} {F T N : Value}

@[simp] theorem kind_withIdentity : (s.withIdentity F T N).kind = s.kind := by
  cases s <;> rfl

@[simp] theorem family_withIdentity : (s.withIdentity F T N).family = F := by
  cases s <;> rfl

theorem table?_withIdentity (hr : s.kind ≠ .ruleset) (ht : s.kind ≠ .table) :
    (s.withIdentity F T N).table? = T := by
  cases s with
  | ruleset _ => exact absurd rfl hr
  | table _ => exact absurd rfl ht
  | _ => rfl

/-! ## Names that are given -/

theorem nameOr_str {ambient : Value} {what : String} {missing : ContextError} (hn : n ≠ "") :
    nameOr (.str n) ambient what missing = .ok n :=
  Context.nameOr_ok_iff.mpr ⟨by simp [Value.orElse, hn], hn⟩

theorem familyName_str {v : Value} (h : familyName v = .ok f) : familyName (.str f) = .ok f := by
  obtain ⟨F, rfl⟩ := Context.familyName_of_ok h
  exact Context.familyName_wire F

theorem familyOf_withIdentity (h : c.familyOf s = .ok f) :
    d.familyOf (s.withIdentity (.str f) T N) = .ok f := by
  rw [Context.familyOf, family_withIdentity]
  exact familyName_str h

theorem scope_withIdentity (hr : s.kind ≠ .ruleset) (ht : s.kind ≠ .table)
    (hf : c.familyOf s = .ok f) (htable : c.tableOf s = .ok t) :
    scope d (s.withIdentity (.str f) (.str t) N) = scope c s := by
  have htable' : d.tableOf (s.withIdentity (.str f) (.str t) N) = .ok t := by
    rw [Context.tableOf, table?_withIdentity hr ht]
    exact nameOr_str (Context.nameOr_ok_iff.mp htable).2
  simp only [scope, hf, htable, familyOf_withIdentity hf, htable']

theorem nameOf_withIdentity (hr : s.kind ≠ .ruleset) (hn : c.nameOf s = .ok n) :
    d.nameOf (s.withIdentity F T (.str n)) = c.nameOf s := by
  rw [hn]
  cases s with
  | ruleset _ => exact absurd rfl hr
  | counter s | quota s | limit s | flowtable s =>
    have hne := (Value.nonEmpty_ok_iff.mp (liftM_argument_ok_iff.mp hn)).2
    exact liftM_argument_ok_iff.mpr (Value.nonEmpty_ok_iff.mpr ⟨rfl, hne⟩)
  | _ => exact nameOr_str (Context.nameOr_ok_iff.mp hn).2

/-! ## Attributes -/

/-- Where the scope and the name are the same, so is all that is made of them. -/
theorem eq_of_scope {s' : Spec} {g : Attributes → String → Except BuildError Attributes}
    (hs : scope d s' = scope c s) (hn : d.nameOf s' = c.nameOf s) :
    (do let scope ← scope d s'; let name ← d.nameOf s'; g scope name) =
      (do let scope ← scope c s; let name ← c.nameOf s; g scope name) := by
  rw [hs, hn]

/-- Beside its identity, nothing of a spec depends on what is ambient. -/
theorem attributes_withIdentity (hr : s.kind ≠ .ruleset) (ht : s.kind ≠ .table)
    (hf : c.familyOf s = .ok f) (htable : c.tableOf s = .ok t) (hname : c.nameOf s = .ok n) :
    (s.withIdentity (.str f) (.str t) (.str n)).attributes verb d = s.attributes verb c := by
  have hs := scope_withIdentity (d := d) (N := .str n) hr ht hf htable
  have hn := nameOf_withIdentity (d := d) (F := .str f) (T := .str t) hr hname
  cases s with
  | ruleset _ => exact absurd rfl hr
  | table _ => exact absurd rfl ht
  | element s =>
    refine congrArg (some <$> ·) (bind_congr fun _ ↦ ?_)
    exact eq_of_scope (s := .element s) hs hn
  | chain s => exact congrArg (some <$> ·) (eq_of_scope (s := .chain s) hs hn)
  | rule s => exact congrArg (some <$> ·) (eq_of_scope (s := .rule s) hs hn)
  | set s => exact congrArg (some <$> ·) (eq_of_scope (s := .set s) hs hn)
  | map s => exact congrArg (some <$> ·) (eq_of_scope (s := .map s) hs hn)
  | counter s => exact congrArg (some <$> ·) (eq_of_scope (s := .counter s) hs hn)
  | quota s => exact congrArg (some <$> ·) (eq_of_scope (s := .quota s) hs hn)
  | limit s => exact congrArg (some <$> ·) (eq_of_scope (s := .limit s) hs hn)
  | flowtable s => exact congrArg (some <$> ·) (eq_of_scope (s := .flowtable s) hs hn)

/-- The attributes of an object in a table hold the identity that the spec resolves to. -/
theorem captured_of_attributes {a : Option Attributes} (hr : s.kind ≠ .ruleset)
    (ht : s.kind ≠ .table) (h : s.attributes verb c = .ok a) :
    ∃ f t n, c.familyOf s = .ok f ∧ c.tableOf s = .ok t ∧ c.nameOf s = .ok n ∧
      captured a "family" = .str f ∧ captured a "table" = .str t ∧
      captured a s.kind.nameKey = .str n := by
  obtain ⟨_, rfl, f, t, n, rest, hf, htable, hn, rfl⟩ := identify_attributes hr ht h
  refine ⟨f, t, n, hf, htable, hn, rfl, rfl, ?_⟩
  cases s <;> rfl

/-! ## Moving on -/

theorem enter_withIdentity (hf : c.familyOf s = .ok f) :
    ∃ e, d.enter (s.withIdentity (.str f) T N) = .ok e := by
  have hname : familyName (.str f) = .ok f := familyName_str hf
  simp [Context.enter, Value.isNull, hname, bind, Except.bind]

/-- A context can be moved on by a spec that says its identity. -/
theorem advance_withIdentity (hr : s.kind ≠ .ruleset) (hf : c.familyOf s = .ok f)
    (hn : c.nameOf s = .ok n) :
    ∃ e, d.advance verb (s.withIdentity (.str f) T (.str n)) = .ok e := by
  obtain ⟨e, he⟩ := enter_withIdentity (d := d) (T := T) (N := .str n) hf
  have he := liftM_argument_ok_iff.mpr he
  have hname (d : Context) : d.nameOf (s.withIdentity (.str f) T (.str n)) = .ok n :=
    (nameOf_withIdentity hr hn).trans hn
  cases s with
  | ruleset _ => exact absurd rfl hr
  | table s =>
    by_cases hsame : e.table.isText n = true
    · exact ⟨_, bind_ok_iff.mpr ⟨n, hname d, bind_ok_iff.mpr ⟨e, he, if_pos hsame⟩⟩⟩
    · exact ⟨_, bind_ok_iff.mpr ⟨n, hname d, bind_ok_iff.mpr ⟨e, he, if_neg hsame⟩⟩⟩
  | chain s =>
    by_cases hv : verb = .rename
    · exact ⟨_, bind_ok_iff.mpr ⟨e, he, if_pos hv⟩⟩
    · exact ⟨_, bind_ok_iff.mpr ⟨e, he,
        (if_neg hv).trans (bind_ok_iff.mpr ⟨n, hname e, rfl⟩)⟩⟩
  | set s | map s => exact ⟨_, bind_ok_iff.mpr ⟨e, he, bind_ok_iff.mpr ⟨n, hname e, rfl⟩⟩⟩
  | rule s | element s => exact ⟨_, bind_ok_iff.mpr ⟨e, he, rfl⟩⟩
  | counter s | quota s | limit s | flowtable s => exact ⟨e, he⟩

/-! ## Qualified specs -/

theorem attributes_qualified_ruleset {family : Value} {a : Option Attributes}
    (h : (Spec.ruleset family).attributes verb c = .ok a) :
    ((Spec.ruleset family).qualified a).attributes verb d = .ok a := by
  simp only [attributes] at h
  split at h
  · cases h
    rfl
  · simp only [bind_ok_iff, liftM_argument_ok_iff, pure_ok_iff] at h
    obtain ⟨f, hf, rfl⟩ := h
    exact bind_ok_iff.mpr ⟨f, liftM_argument_ok_iff.mpr (familyName_str hf), rfl⟩

theorem attributes_qualified_table {s : TableSpec} {a : Option Attributes}
    (h : (Spec.table s).attributes verb c = .ok a) :
    ((Spec.table s).qualified a).attributes verb d = .ok a ∧
      ∃ e, d.advance verb ((Spec.table s).qualified a) = .ok e := by
  simp only [attributes, TableSpec.attributes, map_ok_iff, bind_ok_iff, liftM_argument_ok_iff,
    pure_ok_iff] at h
  obtain ⟨_, ⟨f, hf, n, hn, rfl⟩, rfl⟩ := h
  have hn' : d.tableName { s with family := .str f, name := .str n } = .ok n :=
    nameOr_str (Context.nameOr_ok_iff.mp hn).2
  refine ⟨map_ok_iff.mpr ⟨_, bind_ok_iff.mpr ⟨f, ?_, bind_ok_iff.mpr ⟨n, hn', rfl⟩⟩, rfl⟩,
    advance_withIdentity (s := .table s) (by simp [kind]) hf hn⟩
  exact liftM_argument_ok_iff.mpr (familyOf_withIdentity (s := .table s) (T := .null) hf)

/-- With the identity that its attributes have, a spec comes to the same attributes in every
context, and every context can be moved on by it. -/
theorem attributes_qualified {a : Option Attributes} (h : s.attributes verb c = .ok a)
    (d : Context) :
    (s.qualified a).attributes verb d = .ok a ∧
      ∃ e, d.advance verb (s.qualified a) = .ok e := by
  by_cases hr : s.kind = .ruleset
  · cases s with
    | ruleset family => exact ⟨attributes_qualified_ruleset h, d, rfl⟩
    | _ => cases hr
  by_cases ht : s.kind = .table
  · cases s with
    | table s => exact attributes_qualified_table h
    | _ => cases ht
  obtain ⟨f, t, n, hf, htable, hn, hcf, hct, hcn⟩ := captured_of_attributes hr ht h
  rw [qualified, hcf, hct, hcn, attributes_withIdentity hr ht hf htable hn]
  exact ⟨h, advance_withIdentity hr hf hn⟩

end Spec
end Nftables
