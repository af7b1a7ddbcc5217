import Nftables.Proofs.Operation.Layout
import Nftables.Proofs.Value.Entries

/-!
# Details

What a spec says of an object beside its identity.  A detail is a value together with the attribute
that it should end up in and the reading that says how it is written there.  When an object is
added, all details that are given are written, and a name that stands for no word is refused.

Chains make an exception.  What belongs to base chains only is passed over if nothing else makes the
chain a base chain, and an empty type is taken for one that is left out (`ChainSpec.Drops`).
-/

namespace Nftables

/-! ## Readings -/

/-- A value is a name of a word. -/
def Value.Names {α : Type} [Vocabulary α] (v : Value) (a : α) : Prop :=
  ∃ s, v = .str s ∧ Vocabulary.find? s = some a

/-- How a given value is written. -/
structure Reading where
  Writes : Value → Value → Prop
  Given : Value → Prop := (· ≠ .null)
  /-- a name is expected, and the value is none -/
  Misnames : Value → Prop := fun _ ↦ False

namespace Reading

/-- The value itself is written. -/
def same : Reading where
  Writes := Eq

def text : Reading where
  Writes v w := w = .str v.showText

def truth : Reading where
  Writes v w := w = .bool v.truthy

/-- The word that is named is written. -/
def word (α : Type) [Vocabulary α] : Reading where
  Writes v w := ∃ a : α, v.Names a ∧ w = .str (Vocabulary.wire a)
  Misnames v := ∀ a : α, ¬ v.Names a

/-- A text is written as it is, and the items of any collection as a list. -/
def oneOrMany : Reading where
  Writes v w :=
    match v with
    | .str _ => w = v
    | v => ∃ vs, v.items = .ok vs ∧ w = .list vs

/-- All items of a collection are written, in their order; no items need not be. -/
def each (r : Reading) : Reading where
  Writes v w := ∃ vs ws, v.items = .ok vs ∧ w = .list ws ∧ List.Forall₂ r.Writes vs ws
  Given v := v.truthy = true
  Misnames v := ∃ vs, v.items = .ok vs ∧ ∃ u ∈ vs, r.Misnames u

end Reading

/-- What a spec says of an object, and the attribute it should end up in. -/
structure Detail where
  key : String
  value : Value
  reading : Reading

namespace Detail

variable {d : Detail} {as bs : Attributes} {w : Value}

def Given (d : Detail) : Prop := d.reading.Given d.value

def Misnamed (d : Detail) : Prop := d.reading.Misnames d.value

/-- The attributes say what the detail does. -/
def WrittenIn (d : Detail) (as : Attributes) : Prop :=
  ∃ w, Value.lookup d.key as = some w ∧ d.reading.Writes d.value w

/-- One of the attributes says what the detail does, if the detail says anything. -/
def Among (d : Detail) (as : Attributes) : Prop :=
  d.Given → ∃ w, (d.key, w) ∈ as ∧ d.reading.Writes d.value w

theorem Among.mono (h : d.Among as) (hsub : as ⊆ bs) : d.Among bs := fun hd ↦ by
  obtain ⟨w, hw, hwrites⟩ := h hd
  exact ⟨w, hsub hw, hwrites⟩

theorem among_of_mem (hw : (d.key, w) ∈ as) (h : d.reading.Writes d.value w) : d.Among as :=
  fun _ ↦ ⟨w, hw, h⟩

end Detail

/-! ## The details of specs -/

open Reading (same text truth word oneOrMany each)

def ChainSpec.details (s : ChainSpec) : List Detail :=
  [⟨"type", s.type, word ChainType⟩, ⟨"hook", s.hook, word Hook⟩, ⟨"prio", s.priority, same⟩,
    ⟨"policy", s.policy, word ChainPolicy⟩, ⟨"dev", s.devices, oneOrMany⟩]

def CollectionOptions.details (o : CollectionOptions) : List Detail :=
  [⟨"flags", o.flags, each (word SetFlag)⟩, ⟨"timeout", o.timeout, same⟩,
    ⟨"gc-interval", o.gcInterval, same⟩, ⟨"size", o.size, same⟩]

def FlowtableSpec.details (s : FlowtableSpec) : List Detail :=
  [⟨"hook", s.hook, word Hook⟩, ⟨"prio", s.priority, same⟩, ⟨"dev", s.devices, oneOrMany⟩,
    ⟨"flags", s.flags, each text⟩]

/-- What a spec says beside the identity of an object.  Rules and elements are nothing but what they
say. -/
def Spec.details : Spec → List Detail
  | .chain s => s.details
  | .set s => ⟨"type", s.type, oneOrMany⟩ :: s.options.details
  | .map s => ⟨"type", s.keyType, oneOrMany⟩ :: ⟨"map", s.valueType, same⟩ :: s.options.details
  | .counter s => [⟨"packets", s.packets, same⟩, ⟨"bytes", s.bytes, same⟩]
  | .quota s => [⟨"bytes", s.bytes, same⟩, ⟨"used", s.used, same⟩, ⟨"over", s.above, truth⟩]
  | .limit s => [⟨"rate", s.rate, same⟩, ⟨"per", s.per, word RateUnit⟩, ⟨"burst", s.burst, same⟩]
  | .flowtable s => s.details
  | .ruleset _ | .table _ | .rule _ | .element _ => []

/-- A detail of a chain that is passed over: the policy and the interfaces of a chain that has no
type, hook or priority, and a type that is given but empty. -/
def ChainSpec.Drops (s : ChainSpec) (key : String) : Prop :=
  key = "type" ∧ s.type.givenEmpty = true ∨ key ∈ ["policy", "dev"] ∧ s.isBase = false

def Spec.Drops : Spec → String → Prop
  | .chain s, key => s.Drops key
  | _, _ => False

/-! ## What checks write -/

section Checks

variable {α : Type} [Vocabulary α] {what key : String} {v w : Value} {as : Attributes}

theorem Vocabulary.resolve_ok_iff {a : α} : resolve what v = .ok a ↔ v.Names a := by
  unfold resolve Value.Names
  split
  case h_1 s =>
    split
    case h_1 b h => simp [h]
    case h_2 h => simp [h]
  case h_2 h =>
    simp only [reduceCtorEq, false_iff]
    rintro ⟨s, rfl, -⟩
    exact h s rfl

theorem wordAttribute_ok_iff :
    wordAttribute α what v = .ok w ↔ (word α).Writes v w := by
  simp only [wordAttribute, bind_ok_iff, Vocabulary.resolve_ok_iff, Except.ok.injEq, word,
    eq_comm (a := w)]

theorem not_misnames_of_wordAttribute (h : wordAttribute α what v = .ok w) :
    ¬ (word α).Misnames v := by
  obtain ⟨a, ha, -⟩ := wordAttribute_ok_iff.mp h
  exact fun hv ↦ hv a ha

theorem countAttribute_ok (h : countAttribute what v = .ok w) : v = w := by
  obtain ⟨n, hn, rfl⟩ := map_ok_iff.mp h
  exact (Value.count_ok_iff.mp hn).1

theorem Value.priority_ok_iff {n : Int} : v.priority what = .ok n ↔ v = .int n := by
  cases v <;> simp [priority]

/-- What is given and not empty is taken as it is. -/
theorem Value.orElse_of_given (hv : v ≠ .null) (h : v.givenEmpty = false) : v.orElse w = v := by
  have hn : v.isNull = false := by simpa [← Bool.not_eq_true] using hv
  have ht : v.truthy = true := by simpa [givenEmpty, hn] using h
  rw [orElse, if_pos ht]

theorem Value.orNull_of_given (hv : v ≠ .null) : v.orNull w = v := by
  rw [orNull, if_neg (by simpa using hv)]

/-- What may be left out is written if it is given. -/
theorem among_of_optionalAttribute {r : Reading} {check : Value → Except ArgumentError Value}
    (hcheck : ∀ w, check v = .ok w → r.Writes v w) (hgiven : r.Given v → v ≠ .null)
    (h : optionalAttribute key check v = .ok as) : Detail.Among ⟨key, v, r⟩ as := by
  intro hv
  rcases optionalAttribute_ok_iff.mp h with ⟨hnull, -⟩ | ⟨-, w, hw, rfl⟩
  · exact absurd hnull (hgiven hv)
  · exact ⟨w, List.mem_singleton_self _, hcheck w hw⟩

theorem among_of_optionalCount
    (h : optionalAttribute key (countAttribute what) v = .ok as) : Detail.Among ⟨key, v, same⟩ as :=
  among_of_optionalAttribute (fun _ ↦ countAttribute_ok) id h

/-- Names that are checked one by one are written as they are. -/
theorem eq_of_mapM_nonEmpty {vs ws : List Value}
    (h : vs.mapM (fun v ↦ .str <$> v.nonEmpty what) = .ok ws) : vs = ws := by
  rw [mapM_ok_iff] at h
  induction h with
  | nil => rfl
  | cons hv _ ih =>
    obtain ⟨s, hs, rfl⟩ := map_ok_iff.mp hv
    rw [(Value.nonEmpty_ok_iff.mp hs).1, ih]

theorem Reading.oneOrMany_writes_list {vs : List Value} (hv : ∀ s, v ≠ .str s)
    (hvs : v.items = .ok vs) : oneOrMany.Writes v (.list vs) := by
  cases v with
  | str s => exact absurd rfl (hv s)
  | _ => exact ⟨vs, hvs, rfl⟩

theorem elementType_ok (h : elementType v = .ok w) : oneOrMany.Writes v w := by
  unfold elementType at h
  split at h
  case h_1 vs | h_2 vs =>
    split at h
    case isTrue => cases h
    case isFalse =>
      obtain ⟨ws, hws, h⟩ := bind_ok_iff.mp h
      cases h
      exact ⟨vs, rfl, by rw [eq_of_mapM_nonEmpty hws]⟩
  case h_3 =>
    obtain ⟨s, hs, rfl⟩ := map_ok_iff.mp h
    rw [(Value.nonEmpty_ok_iff.mp hs).1]
    rfl

theorem deviceValue_ok (h : ChainSpec.deviceValue v = .ok w) : oneOrMany.Writes v w := by
  unfold ChainSpec.deviceValue at h
  split at h
  case h_1 => exact (Except.ok.inj h).symm
  case h_2 hstr =>
    obtain ⟨vs, hvs, rfl⟩ := map_ok_iff.mp h
    exact Reading.oneOrMany_writes_list hstr hvs

end Checks

/-! ## What is added -/

section Added

variable {c : Context} {as : Attributes}

/-- The words of a base chain are looked up as they are given, the type too if it is not empty. -/
theorem ChainSpec.among_baseAttributes {s : ChainSpec} (h : s.baseAttributes = .ok as) :
    ∀ d ∈ s.details, ¬ s.Drops d.key → d.Among as := by
  simp only [baseAttributes, bind_ok_iff, liftM_argument_ok_iff, Value.require_ok_iff,
    Value.priority_ok_iff] at h
  obtain ⟨type, htype, _, ⟨-, rfl⟩, hook, hhook, n, hn, policy, hpolicy, h⟩ := h
  have hpolicy : Detail.Among ⟨"policy", s.policy, word ChainPolicy⟩ policy :=
    among_of_optionalAttribute (fun _ ↦ wordAttribute_ok_iff.mp) id hpolicy
  have hbase {devices : Attributes}
      (hdevices : Detail.Among ⟨"dev", s.devices, oneOrMany⟩ devices) :
      ∀ d ∈ s.details, ¬ s.Drops d.key →
        d.Among ([("type", type), ("hook", hook), ("prio", .int n)] ++ policy ++ devices) := by
    simp only [details, List.forall_mem_cons, List.not_mem_nil, false_implies, implies_true,
      and_true]
    refine ⟨fun hdrops hgiven ↦ ⟨type, by simp, ?_⟩,
      fun _ ↦ Detail.among_of_mem (by simp) (wordAttribute_ok_iff.mp hhook),
      fun _ hgiven ↦ ⟨.int n, by simp, ?_⟩,
      fun _ ↦ hpolicy.mono fun _ he ↦ by simp [he],
      fun _ ↦ hdevices.mono fun _ he ↦ by simp [he]⟩
    · have hempty : s.type.givenEmpty = false := by simpa [Drops] using hdrops
      rw [Value.orElse_of_given hgiven hempty] at htype
      exact wordAttribute_ok_iff.mp htype
    · rwa [Value.orNull_of_given hgiven] at hn
  split at h
  case isTrue hnull =>
    simp only [bind_ok_iff, pure_ok_iff] at h
    obtain ⟨_, rfl, rfl⟩ := h
    exact hbase fun hgiven ↦ absurd (Value.isNull_eq_true_iff.mp hnull) hgiven
  case isFalse =>
    simp only [bind_ok_iff, liftM_shape_ok_iff, pure_ok_iff] at h
    obtain ⟨w, hw, _, rfl, rfl⟩ := h
    exact hbase (Detail.among_of_mem (List.mem_singleton_self _) (deviceValue_ok hw))

/-- What makes a chain a base chain is not given for any other chain. -/
theorem ChainSpec.drops_of_given {s : ChainSpec} (hbase : s.isBase = false) {d : Detail}
    (hd : d ∈ s.details) (hgiven : d.Given) : s.Drops d.key := by
  have hnull : (s.type = .null ∧ s.hook = .null) ∧ s.priority = .null := by
    simpa [isBase] using hbase
  simp only [details, List.mem_cons, List.not_mem_nil, or_false] at hd
  rcases hd with rfl | rfl | rfl | rfl | rfl
  · exact absurd hnull.1.1 hgiven
  · exact absurd hnull.1.2 hgiven
  · exact absurd hnull.2 hgiven
  · exact .inr ⟨by simp, hbase⟩
  · exact .inr ⟨by simp, hbase⟩

theorem ChainSpec.among_attributes {s : ChainSpec} (h : s.attributes .add c = .ok as) :
    ∀ d ∈ s.details, ¬ s.Drops d.key → d.Among as := by
  intro d hd hdrops
  simp only [attributes, bind_ok_iff] at h
  obtain ⟨sc, -, n, -, h⟩ := h
  rw [if_neg (by decide)] at h
  split at h
  case isTrue hbase =>
    simp only [bind_ok_iff, pure_ok_iff] at h
    obtain ⟨rest, hrest, rfl⟩ := h
    exact (among_baseAttributes hrest d hd hdrops).mono fun _ he ↦ by simp [he]
  case isFalse hbase =>
    have hbase : s.isBase = false := by simpa using hbase
    exact fun hgiven ↦ absurd (drops_of_given hbase hd hgiven) hdrops

theorem CollectionOptions.among_flagsAttribute {v : Value} (h : flagsAttribute v = .ok as) :
    Detail.Among ⟨"flags", v, each (word SetFlag)⟩ as := by
  intro (hgiven : v.truthy = true)
  rw [flagsAttribute, if_pos hgiven] at h
  simp only [bind_ok_iff, liftM_shape_ok_iff, liftM_argument_ok_iff, pure_ok_iff] at h
  obtain ⟨vs, hvs, ws, hws, rfl⟩ := h
  exact ⟨.list ws, List.mem_singleton_self _, vs, ws, hvs, rfl,
    (mapM_ok_iff.mp hws).imp fun _ _ ↦ wordAttribute_ok_iff.mp⟩

theorem CollectionOptions.among_attributes {o : CollectionOptions} (h : o.attributes = .ok as) :
    ∀ d ∈ o.details, d.Among as := by
  simp only [attributes, bind_ok_iff, liftM_argument_ok_iff, pure_ok_iff] at h
  obtain ⟨flags, hflags, timeout, htimeout, interval, hinterval, size, hsize, rfl⟩ := h
  simp only [details, List.forall_mem_cons, List.not_mem_nil, false_implies, implies_true,
    and_true]
  exact ⟨(among_flagsAttribute hflags).mono fun _ he ↦ by simp [he],
    (among_of_optionalCount htimeout).mono fun _ he ↦ by simp [he],
    (among_of_optionalCount hinterval).mono fun _ he ↦ by simp [he],
    (among_of_optionalCount hsize).mono fun _ he ↦ by simp [he]⟩

theorem FlowtableSpec.among_flagsAttribute {v : Value} (h : flagsAttribute v = .ok as) :
    Detail.Among ⟨"flags", v, each text⟩ as := by
  intro (hgiven : v.truthy = true)
  rw [flagsAttribute, if_pos hgiven] at h
  simp only [bind_ok_iff, pure_ok_iff] at h
  obtain ⟨vs, hvs, ws, hws, rfl⟩ := h
  refine ⟨.list ws, List.mem_singleton_self _, vs, ws, hvs, rfl, (mapM_ok_iff.mp hws).imp ?_⟩
  intro u w hw
  obtain ⟨t, ht, rfl⟩ := map_ok_iff.mp hw
  exact congrArg Value.str (Value.argumentText_ok_iff.mp ht).2.symm

/-- The interfaces of a flowtable are taken as they are given; they are no text. -/
theorem FlowtableSpec.deviceNames_ok {s : FlowtableSpec} {verb : Verb} {v : Value}
    (h : s.deviceNames verb = .ok v) : s.devices = v ∧ ∀ t, v ≠ .str t := by
  simp only [deviceNames, bind_ok_iff, Value.require_ok_iff] at h
  obtain ⟨u, ⟨-, hu⟩, h⟩ := h
  cases ht : u.truthy with
  | false => simp [ht] at h
  | true =>
    cases u with
    | str t => simp at h
    | _ =>
      simp only [ht, Bool.not_true, Bool.or_self, Bool.false_eq_true, reduceIte, pure_ok_iff] at h
      subst h
      exact ⟨hu, by simp⟩

theorem FlowtableSpec.names_of_hookValue {s : FlowtableSpec} {verb : Verb} {w : Value}
    (h : s.hookValue verb = .ok w) : s.hook.Names Hook.ingress := by
  simp only [hookValue, bind_ok_iff, Value.require_ok_iff, Vocabulary.resolve_ok_iff] at h
  obtain ⟨_, ⟨-, rfl⟩, hook, hnames, h⟩ := h
  split at h
  case isTrue hi => exact hi ▸ hnames
  case isFalse => simp at h

theorem FlowtableSpec.among_addAttributes {s : FlowtableSpec}
    (h : s.addAttributes .add = .ok as) : ∀ d ∈ s.details, d.Among as := by
  simp only [addAttributes, bind_ok_iff, liftM_argument_ok_iff, liftM_shape_ok_iff,
    pure_ok_iff, Value.require_ok_iff, Value.priority_ok_iff] at h
  obtain ⟨hook, hhook, _, ⟨-, rfl⟩, n, hn, v, hv, vs, hvs, names, hnames, flags, hflags, rfl⟩ := h
  obtain ⟨rfl, hstr⟩ := deviceNames_ok hv
  obtain rfl := eq_of_mapM_nonEmpty hnames
  simp only [details, List.forall_mem_cons, List.not_mem_nil, false_implies, implies_true,
    and_true]
  refine ⟨Detail.among_of_mem (w := hook) (by simp)
      ⟨_, names_of_hookValue hhook, Layout.hookValue_ok hhook⟩,
    Detail.among_of_mem (w := .int n) (by simp) hn,
    Detail.among_of_mem (w := .list vs) (by simp) (Reading.oneOrMany_writes_list hstr hvs),
    (among_flagsAttribute hflags).mono fun _ he ↦ by simp [he]⟩

theorem SetSpec.among_attributes {s : SetSpec} (h : s.attributes .add c = .ok as) :
    ∀ d ∈ (Spec.set s).details, d.Among as := by
  simp only [attributes, reduceIte, bind_ok_iff, liftM_argument_ok_iff, pure_ok_iff,
    Value.require_ok_iff] at h
  obtain ⟨sc, -, n, -, _, ⟨-, rfl⟩, type, htype, rest, hrest, _, rfl, rfl⟩ := h
  rw [Spec.details, List.forall_mem_cons]
  exact ⟨Detail.among_of_mem (w := type) (by simp) (elementType_ok htype),
    fun d hd ↦ (CollectionOptions.among_attributes hrest d hd).mono fun _ he ↦ by simp [he]⟩

theorem MapSpec.among_attributes {s : MapSpec} (h : s.attributes .add c = .ok as) :
    ∀ d ∈ (Spec.map s).details, d.Among as := by
  simp only [attributes, reduceIte, bind_ok_iff, liftM_argument_ok_iff, pure_ok_iff,
    Value.require_ok_iff, Value.nonEmpty_ok_iff] at h
  obtain ⟨sc, -, n, -, _, ⟨-, rfl⟩, type, htype, _, ⟨-, rfl⟩, m, hm, rest, hrest, _, rfl, rfl⟩ := h
  rw [Spec.details, List.forall_mem_cons, List.forall_mem_cons]
  exact ⟨Detail.among_of_mem (w := type) (by simp) (elementType_ok htype),
    Detail.among_of_mem (w := .str m) (by simp) hm.1,
    fun d hd ↦ (CollectionOptions.among_attributes hrest d hd).mono fun _ he ↦ by simp [he]⟩

theorem CounterSpec.among_attributes {s : CounterSpec} (h : s.attributes .add c = .ok as) :
    ∀ d ∈ (Spec.counter s).details, d.Among as := by
  simp only [attributes, reduceIte, bind_ok_iff, liftM_argument_ok_iff, pure_ok_iff] at h
  obtain ⟨sc, -, n, -, packets, hpackets, bytes, hbytes, _, rfl, rfl⟩ := h
  simp only [Spec.details, List.forall_mem_cons, List.not_mem_nil, false_implies, implies_true,
    and_true]
  exact ⟨Detail.among_of_mem (w := packets) (by simp) (countAttribute_ok hpackets),
    Detail.among_of_mem (w := bytes) (by simp) (countAttribute_ok hbytes)⟩

theorem QuotaSpec.among_attributes {s : QuotaSpec} (h : s.attributes .add c = .ok as) :
    ∀ d ∈ (Spec.quota s).details, d.Among as := by
  simp only [attributes, reduceIte, bind_ok_iff, liftM_argument_ok_iff, pure_ok_iff] at h
  obtain ⟨sc, -, n, -, bytes, hbytes, used, hused, _, rfl, rfl⟩ := h
  simp only [Spec.details, List.forall_mem_cons, List.not_mem_nil, false_implies, implies_true,
    and_true]
  exact ⟨Detail.among_of_mem (w := bytes) (by simp) (countAttribute_ok hbytes),
    Detail.among_of_mem (w := used) (by simp) (countAttribute_ok hused),
    Detail.among_of_mem (w := .bool s.above.truthy) (by simp) rfl⟩

theorem LimitSpec.among_attributes {s : LimitSpec} (h : s.attributes .add c = .ok as) :
    ∀ d ∈ (Spec.limit s).details, d.Among as := by
  simp only [attributes, reduceIte, bind_ok_iff, liftM_argument_ok_iff, pure_ok_iff,
    Value.require_ok_iff] at h
  obtain ⟨sc, -, n, -, _, ⟨-, rfl⟩, rate, hrate, _, ⟨-, rfl⟩, per, hper, burst, hburst, _, rfl,
    rfl⟩ := h
  simp only [Spec.details, List.forall_mem_cons, List.not_mem_nil, false_implies, implies_true,
    and_true]
  exact ⟨Detail.among_of_mem (w := rate) (by simp) (countAttribute_ok hrate),
    Detail.among_of_mem (w := per) (by simp) (wordAttribute_ok_iff.mp hper),
    Detail.among_of_mem (w := burst) (by simp) (countAttribute_ok hburst)⟩

theorem FlowtableSpec.among_attributes {s : FlowtableSpec} (h : s.attributes .add c = .ok as) :
    ∀ d ∈ (Spec.flowtable s).details, d.Among as := by
  simp only [attributes, reduceIte, bind_ok_iff, liftM_argument_ok_iff, pure_ok_iff] at h
  obtain ⟨sc, -, n, -, rest, hrest, _, rfl, rfl⟩ := h
  exact fun d hd ↦ (among_addAttributes hrest d hd).mono fun _ he ↦ by simp [he]

/-- An object that is added has all its details among its attributes, but for those that a chain is
not given. -/
theorem Spec.among_attributes {s : Spec} (h : s.attributes .add c = .ok (some as)) :
    ∀ d ∈ s.details, ¬ s.Drops d.key → d.Among as := by
  cases s with
  | ruleset | table | rule | element => simp [details]
  | chain s => exact ChainSpec.among_attributes (map_some_ok_iff.mp h)
  | set s => exact fun d hd _ ↦ SetSpec.among_attributes (map_some_ok_iff.mp h) d hd
  | map s => exact fun d hd _ ↦ MapSpec.among_attributes (map_some_ok_iff.mp h) d hd
  | counter s => exact fun d hd _ ↦ CounterSpec.among_attributes (map_some_ok_iff.mp h) d hd
  | quota s => exact fun d hd _ ↦ QuotaSpec.among_attributes (map_some_ok_iff.mp h) d hd
  | limit s => exact fun d hd _ ↦ LimitSpec.among_attributes (map_some_ok_iff.mp h) d hd
  | flowtable s => exact fun d hd _ ↦ FlowtableSpec.among_attributes (map_some_ok_iff.mp h) d hd

end Added

/-! ## What is not added -/

section Dropped

variable {c : Context} {as : Attributes} {d : Detail}

/-- No type of a chain has an empty name, and nothing but a text is a name. -/
theorem not_names_of_givenEmpty {v : Value} (h : v.givenEmpty = true) (a : ChainType) :
    ¬ v.Names a := by
  rintro ⟨s, rfl, ha⟩
  obtain rfl : s = "" := by simpa [Value.givenEmpty, Value.isNull, Value.truthy] using h
  have hnone : Vocabulary.find? (α := ChainType) "" = none := by decide
  rw [hnone] at ha
  cases ha

theorem ChainSpec.not_writtenIn {s : ChainSpec} (h : s.attributes .add c = .ok as)
    (hd : d ∈ s.details) (hdrops : s.Drops d.key) : ¬ d.WrittenIn as := by
  rintro ⟨w, hw, hwrites⟩
  rcases hdrops with ⟨hkey, hempty⟩ | ⟨hkey, hbase⟩
  · simp only [details, List.mem_cons, List.not_mem_nil, or_false] at hd
    rcases hd with rfl | rfl | rfl | rfl | rfl
    · obtain ⟨a, ha, -⟩ := hwrites
      exact not_names_of_givenEmpty hempty a ha
    all_goals simp at hkey
  · simp only [attributes, scope, hbase, bind_ok_iff, liftM_argument_ok_iff, pure_ok_iff,
      reduceCtorEq, Bool.false_eq_true, and_false, reduceIte] at h
    obtain ⟨_, ⟨family, -, table, -, rfl⟩, n, -, _, rfl, rfl⟩ := h
    have hmem := Value.lookup_isSome_iff.mp (Option.isSome_of_eq_some hw)
    simp only [List.mem_cons, List.not_mem_nil, or_false] at hkey
    rcases hkey with hkey | hkey <;> simp [hkey] at hmem

end Dropped

/-- When an object is added, a given detail is written if and only if it is none of those that a
chain is not given. -/
theorem Spec.writtenIn_iff {s : Spec} {c : Context} {as : Attributes} {d : Detail}
    (h : s.attributes .add c = .ok (some as)) (hv : .add ∈ s.kind.verbs) (hd : d ∈ s.details)
    (hgiven : d.Given) : d.WrittenIn as ↔ ¬ s.Drops d.key := by
  constructor
  · intro hw hdrops
    cases s with
    | chain s => exact ChainSpec.not_writtenIn (map_some_ok_iff.mp h) hd hdrops hw
    | _ => exact hdrops
  · intro hdrops
    obtain ⟨w, hw, hwrites⟩ := among_attributes h d hd hdrops hgiven
    obtain ⟨l, hl, hfits⟩ := Layout.laysOut_attributes h hv
    have hnodup : (as.map Prod.fst).Nodup := hfits.sublist.nodup (Layout.nodup_keys hl)
    exact ⟨w, Value.lookup_of_mem hnodup hw, hwrites⟩

end Nftables
