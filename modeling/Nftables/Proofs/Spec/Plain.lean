import Nftables.Proofs.Expr.Plain
import Nftables.Proofs.Operation.Layout

/-!
# Plain attributes

Most of what an operation has in its attributes has been checked, and is plain for that reason.  A
few attributes are taken over as they are given; they are plain if what is given is.
-/

namespace Nftables

/-! ## Checked attributes -/

namespace Value

variable {v : Value}

theorem IsName.plain (h : v.IsName) : v.Plain := by
  obtain ⟨s, -, rfl⟩ := h
  exact .str s

theorem IsInteger.plain (h : v.IsInteger) : v.Plain := by
  obtain ⟨n, rfl⟩ := h
  exact .int n

theorem IsCount.plain (h : v.IsCount) : v.Plain := by
  obtain ⟨n, -, rfl⟩ := h
  exact .int n

theorem IsTruth.plain (h : v.IsTruth) : v.Plain := by
  obtain ⟨b, rfl⟩ := h
  exact .bool b

theorem IsText.plain (h : v.IsText) : v.Plain := by
  obtain ⟨s, rfl⟩ := h
  exact .str s

theorem IsWord.plain {α : Type} [Vocabulary α] (h : v.IsWord α) : v.Plain := by
  obtain ⟨a, rfl⟩ := h
  exact .str _

theorem IsListOf.plain {P : Value → Prop} (hP : ∀ w, P w → w.Plain) (h : v.IsListOf P) :
    v.Plain := by
  obtain ⟨vs, rfl, hvs⟩ := h
  exact .list fun w hw ↦ hP w (hvs w hw)

theorem IsSomeOf.plain {P : Value → Prop} (hP : ∀ w, P w → w.Plain) (h : v.IsSomeOf P) :
    v.Plain := by
  obtain ⟨vs, rfl, -, hvs⟩ := h
  exact .list fun w hw ↦ hP w (hvs w hw)

theorem IsElementType.plain (h : v.IsElementType) : v.Plain :=
  h.elim IsName.plain (IsSomeOf.plain fun _ ↦ IsName.plain)

end Value

/-- What may stand in a field is plain. -/
def Field.Plain (f : Field) : Prop :=
  ∀ v, f.admits v → v.Plain

namespace Field

@[simp] theorem plain_name (key : String) : (name key).Plain := fun _ ↦ Value.IsName.plain

@[simp] theorem plain_count (key : String) : (count key).Plain := fun _ ↦ Value.IsCount.plain

@[simp] theorem plain_integer (key : String) : (integer key).Plain := fun _ ↦ Value.IsInteger.plain

@[simp] theorem plain_truth (key : String) : (truth key).Plain := fun _ ↦ Value.IsTruth.plain

@[simp] theorem plain_word (α : Type) [Vocabulary α] (key : String) : (word α key).Plain :=
  fun _ ↦ Value.IsWord.plain

@[simp] theorem plain_maybe {f : Field} : f.maybe.Plain ↔ f.Plain := Iff.rfl

end Field

/-- The attributes that are taken over as they are given. -/
def ObjectKind.openKeys : ObjectKind → List String
  | .chain => ["dev"]
  | .rule => ["expr", "comment"]
  | .element => ["elem"]
  | _ => []

namespace Layout

variable {l : Layout} {as : Attributes} {f : Field} {kind : ObjectKind} {verb : Verb}

theorem Fits.exists_field {e : String × Value} (h : Fits l as) (he : e ∈ as) :
    ∃ f ∈ l, f.key = e.1 ∧ f.admits e.2 := by
  induction h with
  | nil => cases he
  | said hv _ ih =>
    rcases List.mem_cons.mp he with rfl | he
    · exact ⟨_, List.mem_cons_self, rfl, hv⟩
    · obtain ⟨f, hf, h⟩ := ih he
      exact ⟨f, List.mem_cons_of_mem _ hf, h⟩
  | unsaid _ _ ih =>
    obtain ⟨f, hf, h⟩ := ih he
    exact ⟨f, List.mem_cons_of_mem _ hf, h⟩

@[simp] theorem plain_flags {P : Value → Prop} (hP : ∀ w, P w → w.Plain) : (flags P).Plain :=
  fun _ ↦ Value.IsListOf.plain hP

@[simp] theorem plain_elementType : elementType.Plain := fun _ ↦ Value.IsElementType.plain

@[simp] theorem plain_ingress : ingress.Plain := by
  rintro _ rfl
  exact .str _

@[simp] theorem plain_interfaces : interfaces.Plain :=
  fun _ ↦ Value.IsSomeOf.plain fun _ ↦ Value.IsName.plain

theorem plain_limits : ∀ f ∈ limits, f.Plain := by
  simp [limits, plain_flags fun _ ↦ Value.IsWord.plain]

theorem plain_flowtable : ∀ f ∈ flowtable, f.Plain := by
  simp [flowtable, plain_flags fun _ ↦ Value.IsText.plain]

theorem plain_identity (kind : ObjectKind) : ∀ f ∈ identity kind, f.Plain := by
  simp [identity]

theorem plain_details (kind : ObjectKind) (verb : Verb) :
    ∀ l ∈ details kind verb, ∀ f ∈ l, f.key ∉ kind.openKeys → f.Plain := by
  cases kind <;> cases verb <;>
    simp +contextual [details, base, devices, content, elements, ObjectKind.openKeys, plain_limits,
      plain_flowtable]

/-- Beside the open attributes, all that a layout admits is plain. -/
theorem plain_of_mem_layouts (hl : l ∈ kind.layouts verb) (hf : f ∈ l)
    (hopen : f.key ∉ kind.openKeys) : f.Plain := by
  have hin (kind : ObjectKind) (hopen : f.key ∉ kind.openKeys)
      (hl : l ∈ (details kind verb).map (identity kind ++ ·)) : f.Plain := by
    obtain ⟨rest, hrest, rfl⟩ := List.mem_map.mp hl
    rcases List.mem_append.mp hf with hf | hf
    · exact plain_identity kind f hf
    · exact plain_details kind verb rest hrest f hf hopen
  cases kind with
  | ruleset =>
    obtain rfl := List.mem_singleton.mp hl
    obtain rfl := List.mem_singleton.mp hf
    exact Field.plain_word Family "family"
  | table =>
    obtain rfl := List.mem_singleton.mp hl
    simp only [List.mem_cons, List.not_mem_nil, or_false] at hf
    rcases hf with rfl | rfl
    · exact Field.plain_word Family "family"
    · exact Field.plain_name "name"
  | _ => exact hin _ hopen hl

theorem Fits.forall_plain (h : Fits l as) (hl : ∀ f ∈ l, f.Plain) : ∀ e ∈ as, e.2.Plain := by
  intro e he
  obtain ⟨f, hf, -, hv⟩ := h.exists_field he
  exact hl f hf _ hv

/-- Attributes are plain if the open ones among them are. -/
theorem Fits.plain (h : Fits l as) (hl : l ∈ kind.layouts verb)
    (hopen : ∀ e ∈ as, e.1 ∈ kind.openKeys → e.2.Plain) : (Value.object as).Plain := by
  refine .object (h.sublist.nodup (nodup_keys hl)) fun e he ↦ ?_
  by_cases hk : e.1 ∈ kind.openKeys
  · exact hopen e he hk
  · obtain ⟨f, hf, hkey, hv⟩ := h.exists_field he
    exact plain_of_mem_layouts hl hf (hkey ▸ hk) _ hv

end Layout

/-! ## Open attributes -/

theorem Value.Plain.items {v : Value} {vs : List Value} (hv : v.Plain) (h : v.items = .ok vs) :
    ∀ w ∈ vs, w.Plain := by
  cases hv with
  | null | bool | int => cases h
  | str s =>
    cases h
    simp
  | list hp =>
    cases h
    exact hp
  | object =>
    cases h
    intro w hw
    obtain ⟨e, -, rfl⟩ := List.mem_map.mp hw
    exact .str e.1

/-- The body of a rule is plain: the expression, or the statements that are given themselves. -/
inductive RuleBody.Plain : RuleBody → Prop where
  | expr {e : Expr} (he : e.Plain) : Plain (.expr e)
  | value {v : Value} (hv : v.Plain) : Plain (.value v)
  | sequence {bs : List RuleBody} (hbs : ∀ b ∈ bs, Plain b) : Plain (.sequence bs)

/-- What an operation takes over from a spec as it is given is plain. -/
def Spec.Plain : Spec → Prop
  | .chain s => s.devices.Plain
  | .rule s => s.body.Plain ∧ s.comment.Plain
  | .element s => s.elements.Plain
  | _ => True

variable {verb : Verb} {c : Context} {as : Attributes}

theorem ChainSpec.plain_deviceValue {v w : Value} (hv : v.Plain) (h : deviceValue v = .ok w) :
    w.Plain := by
  unfold deviceValue at h
  split at h
  · cases h
    exact .str _
  · obtain ⟨vs, hvs, rfl⟩ := map_ok_iff.mp h
    exact .list (hv.items hvs)

theorem ChainSpec.plain_baseAttributes {s : ChainSpec} (hs : s.devices.Plain)
    (h : s.baseAttributes = .ok as) : ∀ e ∈ as, e.1 = "dev" → e.2.Plain := by
  simp only [baseAttributes, bind_ok_iff, liftM_argument_ok_iff] at h
  obtain ⟨type, -, _, -, hook, -, n, -, policy, hpolicy, h⟩ := h
  have hpolicy : ∀ e ∈ policy, e.1 ≠ "dev" := by
    rcases optionalAttribute_ok_iff.mp hpolicy with ⟨-, rfl⟩ | ⟨-, _, -, rfl⟩ <;> simp
  have hbase {devices : Attributes} (hdevices : ∀ e ∈ devices, e.2.Plain) :
      ∀ e ∈ [("type", type), ("hook", hook), ("prio", .int n)] ++ policy ++ devices,
        e.1 = "dev" → e.2.Plain := by
    intro e he hk
    rcases List.mem_append.mp he with he | he
    · rcases List.mem_append.mp he with he | he
      · simp only [List.mem_cons, List.not_mem_nil, or_false] at he
        rcases he with rfl | rfl | rfl <;> simp at hk
      · exact absurd hk (hpolicy e he)
    · exact hdevices e he
  split at h
  · simp only [bind_ok_iff, pure_ok_iff] at h
    obtain ⟨_, rfl, rfl⟩ := h
    exact hbase (by simp)
  · simp only [bind_ok_iff, liftM_shape_ok_iff, pure_ok_iff] at h
    obtain ⟨w, hw, _, rfl, rfl⟩ := h
    exact hbase (by simpa using plain_deviceValue hs hw)

/-- What identifies an object in a table is plain. -/
theorem plain_of_identity {keys : List String} {family table key n : String} {rest : Attributes}
    (hrest : ∀ e ∈ rest, e.1 ∈ keys → e.2.Plain) :
    ∀ e ∈ [("family", Value.str family), ("table", .str table)] ++ (key, .str n) :: rest,
      e.1 ∈ keys → e.2.Plain := by
  intro e he hk
  simp only [List.cons_append, List.nil_append, List.mem_cons] at he
  rcases he with rfl | rfl | rfl | he
  · exact .str family
  · exact .str table
  · exact .str n
  · exact hrest e he hk

theorem ChainSpec.plain_devices {s : ChainSpec} (hs : s.devices.Plain)
    (h : s.attributes verb c = .ok as) : ∀ e ∈ as, e.1 ∈ ObjectKind.chain.openKeys → e.2.Plain := by
  simp only [attributes, scope, bind_ok_iff, liftM_argument_ok_iff, pure_ok_iff] at h
  obtain ⟨_, ⟨family, -, table, -, rfl⟩, n, -, h⟩ := h
  split at h
  · simp only [bind_ok_iff, liftM_argument_ok_iff, pure_ok_iff] at h
    obtain ⟨_, -, _, -, _, rfl, rfl⟩ := h
    exact plain_of_identity (by simp)
  · split at h
    · simp only [bind_ok_iff, pure_ok_iff] at h
      obtain ⟨rest, hrest, rfl⟩ := h
      exact plain_of_identity fun e he hk ↦
        plain_baseAttributes hs hrest e he (List.mem_singleton.mp hk)
    · simp only [bind_ok_iff, pure_ok_iff] at h
      obtain ⟨_, rfl, rfl⟩ := h
      exact plain_of_identity (by simp)

theorem RuleBody.Plain.statements {b : RuleBody} {vs : List Value} (hb : b.Plain)
    (h : b.statements = .ok vs) : ∀ v ∈ vs, v.Plain := by
  cases hb with
  | expr he =>
    cases h
    intro v hv
    obtain ⟨f, hf, rfl⟩ := List.mem_map.mp hv
    exact Term.plain_single.mpr (he.fragments f hf)
  | value hv =>
    cases hv with
    | list hp =>
      simp only [RuleBody.statements] at h
      split at h
      · cases h
        exact hp
      · cases h
    | _ => cases h
  | sequence => cases h

theorem RuleBody.Plain.comment {b : RuleBody} (hb : b.Plain) : b.comment.Plain := by
  cases hb with
  | expr he => exact he.comment
  | value | sequence => exact .null

theorem RuleSpec.plain_content {s : RuleSpec} (hbody : s.body.Plain) (hcomment : s.comment.Plain)
    (h : s.content verb = .ok as) : ∀ e ∈ as, e.2.Plain := by
  unfold content at h
  split at h
  · simp at h
  simp only [bind_ok_iff, pure_ok_iff] at h
  obtain ⟨vs, hvs, rfl⟩ := h
  have hc : (s.comment.orNull s.body.comment).Plain := by
    unfold Value.orNull
    split
    · exact hbody.comment
    · exact hcomment
  rw [List.forall_mem_cons]
  refine ⟨.list (hbody.statements hvs), ?_⟩
  split
  · simp
  · simpa using hc

/-- What says where a rule is, is a number. -/
theorem RuleSpec.plain_position {s : RuleSpec} (h : s.position verb = .ok as) :
    ∀ e ∈ as, e.2.Plain := by
  have hcount (key : String) : ∀ f ∈ [Field.count key], f.Plain := by simp
  cases verb with
  | delete => exact (Layout.fits_handle (.inl rfl) h).forall_plain (hcount "handle")
  | replace => exact (Layout.fits_handle (.inr rfl) h).forall_plain (hcount "handle")
  | insert =>
    rcases Layout.fits_insert h with hfits | hfits
    · exact hfits.forall_plain (by simp)
    · exact hfits.forall_plain (hcount "handle")
  | add | flush | rename | list =>
    cases h
    simp

theorem RuleSpec.plain_attributes {s : RuleSpec} (hbody : s.body.Plain) (hcomment : s.comment.Plain)
    (h : s.attributes verb c = .ok as) : ∀ e ∈ as, e.1 ∈ ObjectKind.rule.openKeys → e.2.Plain := by
  simp only [attributes, scope, bind_ok_iff, liftM_argument_ok_iff, pure_ok_iff] at h
  obtain ⟨_, ⟨family, -, table, -, rfl⟩, n, -, position, hposition, h⟩ := h
  have hrule {content : Attributes} (hcontent : ∀ e ∈ content, e.2.Plain) :
      ∀ e ∈ position ++ content, e.1 ∈ ObjectKind.rule.openKeys → e.2.Plain :=
    fun e he _ ↦ (List.mem_append.mp he).elim (plain_position hposition e) (hcontent e)
  split at h
  · simp only [bind_ok_iff, pure_ok_iff] at h
    obtain ⟨_, rfl, rfl⟩ := h
    exact plain_of_identity (hrule (by simp))
  · simp only [bind_ok_iff, liftM_argument_ok_iff, pure_ok_iff] at h
    obtain ⟨content, hcontent, rfl⟩ := h
    exact plain_of_identity (hrule (plain_content hbody hcomment hcontent))

theorem ElementSpec.plain_elements {s : ElementSpec} (hs : s.elements.Plain)
    (h : s.attributes c = .ok as) :
    ∀ e ∈ as, e.1 ∈ ObjectKind.element.openKeys → e.2.Plain := by
  simp only [attributes, scope, bind_ok_iff, liftM_argument_ok_iff, pure_ok_iff] at h
  obtain ⟨vs, hvs, _, ⟨family, -, table, -, rfl⟩, n, -, rfl⟩ := h
  have hplain : ∀ v ∈ vs, v.Plain := by
    unfold elementValues at hvs
    split at hvs
    case h_1 ws heq =>
      split at hvs
      case isTrue => cases hvs
      case isFalse =>
        cases hvs
        rw [heq, Value.plain_list_iff] at hs
        intro v hv
        obtain ⟨w, hw, rfl⟩ := List.mem_map.mp hv
        have hp := hs w hw
        split
        · cases hp
        · exact hp
    case h_2 ws heq =>
      rw [heq] at hs
      cases hs
    case h_3 => cases hvs
  exact plain_of_identity (by simpa [ObjectKind.openKeys] using hplain)

/-! ## All attributes -/

/-- What an operation captures is plain if what it takes over from its spec is. -/
theorem Spec.Plain.attributes {s : Spec} {a : Option Attributes} (hs : s.Plain)
    (h : s.attributes verb c = .ok a) (hv : verb ∈ s.kind.verbs) :
    ∀ as, a = some as → (Value.object as).Plain := by
  rintro as rfl
  obtain ⟨l, hl, hfits⟩ := Layout.laysOut_attributes h hv
  refine hfits.plain hl ?_
  cases s with
  | chain s =>
    obtain ⟨as, has, ⟨⟩⟩ := map_ok_iff.mp h
    exact ChainSpec.plain_devices hs has
  | rule s =>
    obtain ⟨as, has, ⟨⟩⟩ := map_ok_iff.mp h
    exact RuleSpec.plain_attributes hs.1 hs.2 has
  | element s =>
    obtain ⟨as, has, ⟨⟩⟩ := map_ok_iff.mp h
    exact ElementSpec.plain_elements hs has
  | _ => exact fun e _ hk ↦ absurd hk List.not_mem_nil

end Nftables
