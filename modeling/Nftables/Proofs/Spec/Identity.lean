import Nftables.Proofs.Success

/-!
# Identity

What an operation is about is identified by up to four parts, and so is what the next operation is
read against: a family, a table, a chain and a collection.  A part is worked out twice: once when
the operation captures it as an attribute, and once more when the context takes it over.  Here both
are reduced to what the spec says and what is ambient.
-/

namespace Nftables

open Context (familyName nameOr)

/-! ## Parts -/

/-- The parts of the identity that operations share. -/
inductive IdentityPart where
  | family | table | chain | collection
deriving DecidableEq, Repr

def Context.part (c : Context) : IdentityPart → Value
  | .family => c.family
  | .table => c.table
  | .chain => c.chain
  | .collection => c.collection

/-- The attribute by which an operation captures a part.  A chain that is renamed goes on under its
new name. -/
def IdentityPart.key? (verb : Verb) (kind : ObjectKind) : IdentityPart → Option String
  | .family => if kind = .ruleset then none else some "family"
  | .table =>
    match kind with
    | .ruleset => none
    | .table => some "name"
    | _ => some "table"
  | .chain =>
    match kind with
    | .chain => some (if verb = .rename then "newname" else "name")
    | .rule => some "chain"
    | _ => none
  | .collection =>
    match kind with
    | .set | .map | .element => some "name"
    | _ => none

namespace Spec

/-- What a spec says a part is. -/
def said (s : Spec) (verb : Verb) : IdentityPart → Value
  | .family => s.family
  | .table =>
    match s with
    | .table t => t.name
    | s => s.table?
  | .chain =>
    match s with
    | .chain t => if verb = .rename then t.newName else t.name
    | .rule t => t.chain
    | _ => .null
  | .collection =>
    match s with
    | .set t => t.name
    | .map t => t.name
    | .element t => t.set
    | _ => .null

/-- What a spec says a part is, where the context takes that over as it was said. -/
def takenOver (s : Spec) : IdentityPart → Value
  | .family => .null
  | .table => s.table?
  | .chain =>
    match s with
    | .rule t => t.chain
    | _ => .null
  | .collection =>
    match s with
    | .element t => t.set
    | _ => .null

/-- What a part is if a spec says nothing: what is ambient, but nothing for the new name of a
chain. -/
def unsaid (s : Spec) (verb : Verb) (c : Context) : IdentityPart → Value
  | .chain =>
    match s with
    | .chain _ => if verb = .rename then .null else c.chain
    | _ => c.chain
  | p => c.part p

/-- `n` is what a part resolves to. -/
def Resolves (s : Spec) (verb : Verb) (c : Context) (p : IdentityPart) (n : String) : Prop :=
  n ≠ "" ∧
    if p = .family then familyName ((s.said verb p).orNull (s.unsaid verb c p)) = .ok n
    else (s.said verb p).orElse (s.unsaid verb c p) = .str n

end Spec

/-- Something is given, but nothing that counts as a name. -/
def Value.givenEmpty (v : Value) : Bool :=
  !v.isNull && !v.truthy

/-- The ambient family is a family. -/
def Context.HasFamily (c : Context) : Prop :=
  ∃ f : Family, c.family = .str (Vocabulary.wire f)

/-! ## Left out and empty

What is left out and what is given but empty are told apart by one reading of a part and not by the
other. -/

namespace Value

variable {v w : Value} {n : String}

theorem orNull_of_orElse (h : v.orElse w = .str n) :
    v.orNull w = if v.givenEmpty then v else .str n := by
  cases hn : v.isNull with
  | true =>
    rw [isNull_eq_true_iff] at hn
    subst hn
    exact h
  | false =>
    cases ht : v.truthy with
    | true => simpa [orNull, orElse, givenEmpty, hn, ht] using h
    | false => simp [orNull, givenEmpty, hn, ht]

theorem eq_of_orElse_null (h : v.orElse .null = .str n) : v = .str n := by
  unfold orElse at h
  split at h
  · exact h
  · cases h

theorem ne_str_of_givenEmpty (h : v.givenEmpty = true) (hn : n ≠ "") : v ≠ .str n := by
  rintro rfl
  simp [givenEmpty, isNull, truthy, hn] at h

theorem isText_iff {v : Value} {s : String} : v.isText s = true ↔ v = .str s := by
  cases v <;> simp [isText]

end Value

/-! ## Captured parts -/

theorem familyName_ne_empty {v : Value} {w : String} (h : familyName v = .ok w) : w ≠ "" := by
  obtain ⟨f, rfl⟩ := Context.familyName_of_ok h
  cases f <;> decide

/-- The attribute with the name of an object, or of the chain a rule is in. -/
def ObjectKind.nameKey : ObjectKind → String
  | .rule => "chain"
  | _ => "name"

/-- The name of an object in a table, or of the chain a rule is in. -/
def Context.nameOf (c : Context) : Spec → Except BuildError String
  | .chain s => c.chainName s
  | .rule s => c.chainOf s
  | .set s => c.setName s.name
  | .map s => c.mapName s.name
  | .element s => c.collectionOf s
  | .counter s => liftM (s.name.nonEmpty "Counter name")
  | .quota s => liftM (s.name.nonEmpty "Quota name")
  | .limit s => liftM (s.name.nonEmpty "Limit name")
  | .flowtable s => liftM (s.name.nonEmpty "Flowtable name")
  | .table s => c.tableName s
  | .ruleset _ => throw (.context .noTableName)

/-- Whatever attributes come out begin with `as` and then `e`. -/
def Begin (as : Attributes) (e : String × Value) (x : Except BuildError Attributes) : Prop :=
  ∀ bs, x = .ok bs → ∃ rest, bs = as ++ e :: rest

namespace Begin

variable {as rest : Attributes} {e : String × Value} {α : Type}

theorem pure : Begin as e (pure (as ++ e :: rest)) :=
  fun _ h ↦ ⟨rest, (pure_ok_iff.mp h).symm⟩

theorem bind {x : Except BuildError α} {f : α → Except BuildError Attributes}
    (h : ∀ a, Begin as e (f a)) : Begin as e (x >>= f) := fun bs hx ↦ by
  obtain ⟨a, -, ha⟩ := bind_ok_iff.mp hx
  exact h a bs ha

theorem ite {p : Prop} [Decidable p] {x y : Except BuildError Attributes} (hx : Begin as e x)
    (hy : Begin as e y) : Begin as e (if p then x else y) := by
  split
  · exact hx
  · exact hy

end Begin

namespace Spec

variable {s : Spec} {verb : Verb} {c c' : Context}

/-- The attributes of an object in a table: its family, its table, a name, and then anything. -/
def Identify (s : Spec) (c : Context) (as : Attributes) : Prop :=
  ∃ f t n rest, c.familyOf s = .ok f ∧ c.tableOf s = .ok t ∧ c.nameOf s = .ok n ∧
    as = ("family", .str f) :: ("table", .str t) :: (s.kind.nameKey, .str n) :: rest

/-- The family and the table come first, then the name, whatever is checked after these. -/
theorem identify_of_begin {as : Attributes} {f : Attributes → String → Except BuildError Attributes}
    (h : (do let scope ← scope c s; let name ← c.nameOf s; f scope name) = .ok as)
    (hf : ∀ scope name, Begin scope (s.kind.nameKey, .str name) (f scope name)) :
    s.Identify c as := by
  simp only [bind_ok_iff, scope, liftM_argument_ok_iff, pure_ok_iff] at h
  obtain ⟨_, ⟨family, hfamily, table, htable, rfl⟩, name, hname, h⟩ := h
  obtain ⟨rest, rfl⟩ := hf _ _ _ h
  exact ⟨family, table, name, rest, hfamily, htable, hname, rfl⟩

/-- All attributes of objects in tables identify them. -/
theorem identify_attributes {a : Option Attributes} (hr : s.kind ≠ .ruleset)
    (ht : s.kind ≠ .table) (h : s.attributes verb c = .ok a) :
    ∃ as, a = some as ∧ s.Identify c as := by
  cases s with
  | ruleset family => exact absurd rfl hr
  | table s => exact absurd rfl ht
  | chain s =>
    obtain ⟨as, has, rfl⟩ := map_ok_iff.mp h
    exact ⟨as, rfl, identify_of_begin has fun _ _ ↦
      .ite (.bind fun _ ↦ .bind fun _ ↦ .bind fun _ ↦ .pure)
        (.ite (.bind fun _ ↦ .pure) (.bind fun _ ↦ .pure))⟩
  | rule s =>
    obtain ⟨as, has, rfl⟩ := map_ok_iff.mp h
    exact ⟨as, rfl, identify_of_begin has fun _ _ ↦
      .bind fun _ ↦ .ite (.bind fun _ ↦ .pure) (.bind fun _ ↦ .pure)⟩
  | set s =>
    obtain ⟨as, has, rfl⟩ := map_ok_iff.mp h
    exact ⟨as, rfl, identify_of_begin has fun _ _ ↦
      .ite (.bind fun _ ↦ .bind fun _ ↦ .bind fun _ ↦ .bind fun _ ↦ .pure)
        (.bind fun _ ↦ .pure)⟩
  | map s =>
    obtain ⟨as, has, rfl⟩ := map_ok_iff.mp h
    exact ⟨as, rfl, identify_of_begin has fun _ _ ↦
      .ite (.bind fun _ ↦ .bind fun _ ↦ .bind fun _ ↦ .bind fun _ ↦ .bind fun _ ↦
        .bind fun _ ↦ .pure) (.bind fun _ ↦ .pure)⟩
  | element s =>
    obtain ⟨as, has, rfl⟩ := map_ok_iff.mp h
    obtain ⟨_, -, has⟩ := bind_ok_iff.mp has
    exact ⟨as, rfl, identify_of_begin has fun _ _ ↦ .pure⟩
  | counter s | quota s =>
    obtain ⟨as, has, rfl⟩ := map_ok_iff.mp h
    exact ⟨as, rfl, identify_of_begin has fun _ _ ↦
      .ite (.bind fun _ ↦ .bind fun _ ↦ .bind fun _ ↦ .pure) (.bind fun _ ↦ .pure)⟩
  | limit s =>
    obtain ⟨as, has, rfl⟩ := map_ok_iff.mp h
    exact ⟨as, rfl, identify_of_begin has fun _ _ ↦
      .ite (.bind fun _ ↦ .bind fun _ ↦ .bind fun _ ↦ .bind fun _ ↦ .bind fun _ ↦
        .bind fun _ ↦ .pure) (.bind fun _ ↦ .pure)⟩
  | flowtable s =>
    obtain ⟨as, has, rfl⟩ := map_ok_iff.mp h
    exact ⟨as, rfl, identify_of_begin has fun _ _ ↦
      .ite (.bind fun _ ↦ .pure) (.bind fun _ ↦ .pure)⟩

/-- A chain that is renamed has its new name after its old one. -/
theorem newname_of_attributes {t : ChainSpec} {as : Attributes}
    (h : t.attributes .rename c = .ok as) :
    ∃ n, t.newName = .str n ∧ n ≠ "" ∧ Value.lookup "newname" as = some (.str n) := by
  simp only [ChainSpec.attributes, reduceIte, bind_ok_iff, liftM_argument_ok_iff, pure_ok_iff,
    Value.require_ok_iff, Value.nonEmpty_ok_iff, scope] at h
  obtain ⟨_, ⟨_, _, _, _, rfl⟩, _, _, _, ⟨_, rfl⟩, n, ⟨hn, hne⟩, _, rfl, rfl⟩ := h
  exact ⟨n, hn, hne, rfl⟩

/-- An operation on a table captures the family and the name of the table. -/
theorem captures_table {t : TableSpec} {a : Option Attributes} {p : IdentityPart} {key : String}
    (h : (Spec.table t).attributes verb c = .ok a) (hk : p.key? verb .table = some key) :
    ∃ n, (Spec.table t).Resolves verb c p n ∧ a.bind (Value.lookup key) = some (.str n) := by
  simp only [attributes, TableSpec.attributes, map_ok_iff, bind_ok_iff, liftM_argument_ok_iff,
    pure_ok_iff] at h
  obtain ⟨_, ⟨f, hf, n, hn, rfl⟩, rfl⟩ := h
  cases p with
  | family =>
    cases hk
    exact ⟨f, ⟨familyName_ne_empty hf, hf⟩, rfl⟩
  | table =>
    cases hk
    exact ⟨n, (Context.nameOr_ok_iff.mp hn).symm, rfl⟩
  | chain | collection => cases hk

/-- An operation on a chain captures the name that the chain has after it. -/
theorem captures_chain {t : ChainSpec} {a : Option Attributes} {key : String}
    (h : (Spec.chain t).attributes verb c = .ok a)
    (hk : IdentityPart.key? verb .chain .chain = some key) :
    ∃ n, (Spec.chain t).Resolves verb c .chain n ∧ a.bind (Value.lookup key) = some (.str n) := by
  cases hk
  by_cases hv : verb = .rename
  · subst hv
    obtain ⟨as, has, rfl⟩ := map_ok_iff.mp h
    obtain ⟨new, hnew, hne, hl⟩ := newname_of_attributes has
    exact ⟨new, ⟨hne, by simp [said, hnew, Value.orElse, hne]⟩, hl⟩
  · have hkind : (Spec.chain t).kind = .chain := rfl
    obtain ⟨as, rfl, _, _, n, _, -, -, hn, rfl⟩ :=
      identify_attributes (by simp [hkind]) (by simp [hkind]) h
    rw [if_neg hv]
    have hn := (Context.nameOr_ok_iff.mp hn).symm
    exact ⟨n, by simpa [Resolves, said, unsaid, hv] using hn, rfl⟩

/-- An operation captures each part of what it is about as that to which the part resolves. -/
theorem captures {a : Option Attributes} {p : IdentityPart} {key : String}
    (h : s.attributes verb c = .ok a) (hk : p.key? verb s.kind = some key) :
    ∃ n, s.Resolves verb c p n ∧ a.bind (Value.lookup key) = some (.str n) := by
  by_cases hr : s.kind = .ruleset
  · cases p <;> simp [IdentityPart.key?, hr] at hk
  by_cases ht : s.kind = .table
  · cases s with
    | table t => exact captures_table h hk
    | _ => cases ht
  obtain ⟨as, rfl, f, t, n, rest, hf, htable, hn, rfl⟩ := identify_attributes hr ht h
  cases p with
  | family =>
    simp only [IdentityPart.key?, hr, reduceIte, Option.some.injEq] at hk
    subst hk
    exact ⟨f, ⟨familyName_ne_empty hf, hf⟩, rfl⟩
  | table =>
    have hn := (Context.nameOr_ok_iff.mp htable).symm
    cases s with
    | ruleset _ => exact absurd rfl hr
    | table _ => exact absurd rfl ht
    | _ =>
      cases hk
      exact ⟨t, hn, rfl⟩
  | chain =>
    cases s with
    | chain t => exact captures_chain h hk
    | rule t =>
      cases hk
      exact ⟨n, (Context.nameOr_ok_iff.mp hn).symm, rfl⟩
    | _ => cases hk
  | collection =>
    cases s with
    | set t | map t | element t =>
      cases hk
      exact ⟨n, (Context.nameOr_ok_iff.mp hn).symm, rfl⟩
    | _ => cases hk

/-- What a spec that says no family resolves to is the ambient family. -/
theorem familyOf_of_family_eq_null {f : String} (hc : c.HasFamily) (hs : s.family = .null)
    (h : c.familyOf s = .ok f) : c.family = .str f := by
  obtain ⟨F, hF⟩ := hc
  rw [Context.familyOf, hs, hF, Value.orNull, if_pos Value.isNull_null,
    Context.familyName_wire] at h
  cases h
  exact hF

/-- What a spec leaves out is resolved to what is ambient. -/
theorem part_of_resolves {p : IdentityPart} {n : String} (hc : c.HasFamily)
    (h : s.Resolves verb c p n) (hs : s.said verb p = .null) : c.part p = .str n := by
  cases p with
  | family => exact familyOf_of_family_eq_null hc hs h.2
  | table | collection =>
    have hn := h.2
    rw [hs] at hn
    exact hn
  | chain =>
    have hn := h.2
    rw [hs] at hn
    simp only [unsaid, reduceCtorEq, reduceIte] at hn
    split at hn
    · split at hn
      · cases hn
      · exact hn
    · exact hn

/-- The table an operation captures has a name. -/
theorem table_of_attributes {a : Option Attributes} {v : Value} (h : s.attributes verb c = .ok a)
    (hv : a.bind (Value.lookup "table") = some v) : ∃ n, n ≠ "" ∧ v = .str n := by
  cases s with
  | ruleset family =>
    simp only [attributes] at h
    split at h
    · cases h
      cases hv
    · obtain ⟨_, -, h⟩ := bind_ok_iff.mp h
      cases h
      cases hv
  | table t =>
    simp only [attributes, TableSpec.attributes, map_ok_iff, bind_ok_iff, pure_ok_iff] at h
    obtain ⟨_, ⟨_, -, _, -, rfl⟩, rfl⟩ := h
    cases hv
  | _ =>
    obtain ⟨n, hn, hl⟩ := captures (p := .table) h rfl
    exact ⟨n, hn.1, Option.some.inj (hv.symm.trans hl)⟩

/-! ## Parts that are taken over -/

/-- A context that is entered has the family of the object, and the table that was said. -/
theorem enter_ok (hc : c.HasFamily) (h : c.enter s = .ok c') :
    ∃ f, c.familyOf s = .ok f ∧
      c' = { c with family := .str f, table := s.table?.orNull c.table } := by
  obtain ⟨F, hF⟩ := hc
  unfold Context.enter at h
  simp only at h
  split at h
  case isTrue hn =>
    refine ⟨Vocabulary.wire F, ?_, ?_⟩
    · rw [Context.familyOf, Value.orNull, if_pos hn, hF]
      exact Context.familyName_wire F
    · cases h
      rw [hF]
  case isFalse hn =>
    obtain ⟨f, hf, h⟩ := bind_ok_iff.mp h
    cases h
    exact ⟨f, by rw [Context.familyOf, Value.orNull, if_neg hn]; exact hf, rfl⟩

/-- An operation on an object in a table enters the family and the table of the object, and leaves
alone what else it does not capture. -/
theorem enter_of_advance (hr : s.kind ≠ .ruleset) (ht : s.kind ≠ .table)
    (h : c.advance verb s = .ok c') :
    ∃ e, c.enter s = .ok e ∧ ∀ p, p = .family ∨ p = .table ∨ p.key? verb s.kind = none →
      c'.part p = e.part p := by
  cases s with
  | ruleset _ => exact absurd rfl hr
  | table _ => exact absurd rfl ht
  | chain t =>
    simp only [Context.advance, bind_ok_iff, liftM_argument_ok_iff] at h
    obtain ⟨e, he, h⟩ := h
    refine ⟨e, he, fun p hp ↦ ?_⟩
    split at h
    · cases h
      cases p <;> first | rfl | simp [IdentityPart.key?, kind] at hp
    · obtain ⟨n, -, h⟩ := bind_ok_iff.mp h
      cases h
      cases p <;> first | rfl | simp [IdentityPart.key?, kind] at hp
  | set t | map t =>
    simp only [Context.advance, bind_ok_iff, liftM_argument_ok_iff, pure_ok_iff] at h
    obtain ⟨e, he, _, -, rfl⟩ := h
    refine ⟨e, he, fun p hp ↦ ?_⟩
    cases p <;> first | rfl | simp [IdentityPart.key?, kind] at hp
  | rule t | element t =>
    simp only [Context.advance, bind_ok_iff, liftM_argument_ok_iff, pure_ok_iff] at h
    obtain ⟨e, he, rfl⟩ := h
    refine ⟨e, he, fun p hp ↦ ?_⟩
    cases p <;> first | rfl | simp [IdentityPart.key?, kind] at hp
  | counter t | quota t | limit t | flowtable t =>
    exact ⟨c', liftM_argument_ok_iff.mp h, fun _ _ ↦ rfl⟩

/-- The context after an operation on a table is in that table.  What was in another table is
gone. -/
theorem advance_table {t : TableSpec} (hc : c.HasFamily) (h : c.advance verb (.table t) = .ok c') :
    ∃ f n, c.familyOf (.table t) = .ok f ∧ c.tableName t = .ok n ∧
      (c.table = .str n ∧ c' = { c with family := .str f } ∨
        c' = ⟨.str f, .str n, .null, .null⟩) := by
  simp only [Context.advance, bind_ok_iff, liftM_argument_ok_iff] at h
  obtain ⟨n, hn, e, he, h⟩ := h
  obtain ⟨f, hf, rfl⟩ := enter_ok hc he
  refine ⟨f, n, hf, hn, ?_⟩
  split at h
  case isTrue heq =>
    cases h
    exact .inl ⟨Value.isText_iff.mp heq, rfl⟩
  case isFalse =>
    cases h
    exact .inr rfl

/-- After an operation on a table the ambient family and table are those of the table. -/
theorem part_of_advance_table {t : TableSpec} {p : IdentityPart} {key n : String}
    (hc : c.HasFamily) (h : c.advance verb (.table t) = .ok c')
    (hk : p.key? verb .table = some key) (hn : (Spec.table t).Resolves verb c p n) :
    c'.part p = .str n := by
  obtain ⟨f, m, hf, hm, hc'⟩ := advance_table hc h
  cases p with
  | family =>
    cases hf.symm.trans hn.2
    rcases hc' with ⟨-, rfl⟩ | rfl <;> rfl
  | table =>
    cases (Context.nameOr_ok_iff.mp hm).1.symm.trans hn.2
    rcases hc' with ⟨hm, rfl⟩ | rfl
    · exact hm
    · rfl
  | chain | collection => cases hk

/-- After an operation on a chain the ambient chain is the one that the operation captures. -/
theorem part_of_advance_chain {t : ChainSpec} {n : String} (hc : c.HasFamily)
    (h : c.advance verb (.chain t) = .ok c') (hn : (Spec.chain t).Resolves verb c .chain n) :
    c'.part .chain = .str n := by
  simp only [Context.advance, bind_ok_iff, liftM_argument_ok_iff] at h
  obtain ⟨e, he, h⟩ := h
  obtain ⟨f, -, rfl⟩ := enter_ok hc he
  have hn := hn.2
  by_cases hv : verb = .rename
  · rw [if_pos hv] at h
    cases h
    simp only [said, unsaid, hv, reduceIte] at hn
    exact Value.eq_of_orElse_null hn
  · rw [if_neg hv] at h
    obtain ⟨m, hm, h⟩ := bind_ok_iff.mp h
    cases h
    simp only [said, unsaid, hv, reduceIte] at hn
    exact (Context.nameOr_ok_iff.mp hm).1.symm.trans hn

/-- **The context after an operation.**  A part that the operation captures becomes that to which it
resolves, except where the context takes over something empty as it was said. -/
theorem part_of_advance {p : IdentityPart} {key n : String} (hc : c.HasFamily)
    (h : c.advance verb s = .ok c') (hk : p.key? verb s.kind = some key)
    (hn : s.Resolves verb c p n) :
    c'.part p = if (s.takenOver p).givenEmpty then s.takenOver p else .str n := by
  by_cases hr : s.kind = .ruleset
  · cases p <;> simp [IdentityPart.key?, hr] at hk
  by_cases ht : s.kind = .table
  · cases s with
    | table t =>
      rw [part_of_advance_table hc h hk hn]
      cases p <;> rfl
    | _ => cases ht
  obtain ⟨e, he, heq⟩ := enter_of_advance hr ht h
  obtain ⟨f, hf, rfl⟩ := enter_ok hc he
  cases p with
  | family =>
    cases hf.symm.trans hn.2
    exact heq _ (.inl rfl)
  | table =>
    cases s with
    | ruleset _ => exact absurd rfl hr
    | table _ => exact absurd rfl ht
    | _ => exact (heq .table (.inr (.inl rfl))).trans (Value.orNull_of_orElse hn.2)
  | chain =>
    cases s with
    | chain t => exact part_of_advance_chain hc h hn
    | rule t =>
      simp only [Context.advance, bind_ok_iff, liftM_argument_ok_iff, pure_ok_iff] at h
      obtain ⟨e', he', rfl⟩ := h
      obtain ⟨f', -, rfl⟩ := enter_ok hc he'
      exact Value.orNull_of_orElse hn.2
    | _ => cases hk
  | collection =>
    cases s with
    | set t | map t =>
      simp only [Context.advance, bind_ok_iff, liftM_argument_ok_iff, pure_ok_iff] at h
      obtain ⟨e', he', m, hm, rfl⟩ := h
      obtain ⟨f', -, rfl⟩ := enter_ok hc he'
      exact (Context.nameOr_ok_iff.mp hm).1.symm.trans hn.2
    | element t =>
      simp only [Context.advance, bind_ok_iff, liftM_argument_ok_iff, pure_ok_iff] at h
      obtain ⟨e', he', rfl⟩ := h
      obtain ⟨f', -, rfl⟩ := enter_ok hc he'
      exact Value.orNull_of_orElse hn.2
    | _ => cases hk

/-- A part that the operation does not capture stays as it was, or is left behind. -/
theorem part_of_advance_of_key?_eq_none {p : IdentityPart} (hc : c.HasFamily)
    (h : c.advance verb s = .ok c') (hk : p.key? verb s.kind = none) :
    c'.part p = c.part p ∨ c'.part p = .null := by
  by_cases hr : s.kind = .ruleset
  · cases s with
    | ruleset _ =>
      cases h
      exact .inl rfl
    | _ => cases hr
  by_cases ht : s.kind = .table
  · cases s with
    | table t =>
      obtain ⟨_, _, -, -, ⟨-, rfl⟩ | rfl⟩ := advance_table hc h
      · cases p <;> first | exact .inl rfl | cases hk
      · cases p <;> first | exact .inr rfl | cases hk
    | _ => cases ht
  obtain ⟨e, he, heq⟩ := enter_of_advance hr ht h
  obtain ⟨_, -, rfl⟩ := enter_ok hc he
  refine .inl ((heq p (.inr (.inr hk))).trans ?_)
  cases p with
  | family => simp [IdentityPart.key?, hr] at hk
  | table =>
    cases s with
    | ruleset _ => exact absurd rfl hr
    | table _ => exact absurd rfl ht
    | _ => cases hk
  | chain | collection => rfl

/-- A spec that says neither a family nor the table it is in moves on only to a table of its own,
and then leaves nothing behind. -/
theorem place_of_advance (hc : c.HasFamily) (h : c.advance verb s = .ok c')
    (hfamily : s.family = .null) (htable : s.table? = .null) :
    c'.family = c.family ∧ c'.table = c.table ∨ c'.chain = .null ∧ c'.collection = .null := by
  by_cases hr : s.kind = .ruleset
  · cases s with
    | ruleset _ =>
      cases h
      exact .inl ⟨rfl, rfl⟩
    | _ => cases hr
  by_cases ht : s.kind = .table
  · cases s with
    | table t =>
      obtain ⟨f, n, hf, -, ⟨-, rfl⟩ | rfl⟩ := advance_table hc h
      · exact .inl ⟨(familyOf_of_family_eq_null hc hfamily hf).symm, rfl⟩
      · exact .inr ⟨rfl, rfl⟩
    | _ => cases ht
  obtain ⟨e, he, heq⟩ := enter_of_advance hr ht h
  obtain ⟨f, hf, rfl⟩ := enter_ok hc he
  refine .inl ⟨(heq .family (.inl rfl)).trans ?_, (heq .table (.inr (.inl rfl))).trans ?_⟩
  · exact (familyOf_of_family_eq_null hc hfamily hf).symm
  · rw [htable]
    rfl

end Spec
end Nftables
