import Nftables.Proofs.Spec.Identity

/-!
# Layouts

What the attributes of an operation look like.  A layout lists them in the order in which they are
written, with the values that each of them may have; the kind of the object and the verb say which
layouts there are.  Whatever a spec holds and whatever is ambient: the attributes that come of it
are laid out in one of these ways, or there are none.
-/

namespace Nftables

/-! ## Values of attributes -/

namespace Value

/-- A text that is not empty. -/
def IsName (v : Value) : Prop := ∃ s, s ≠ "" ∧ v = .str s

def IsInteger (v : Value) : Prop := ∃ n, v = .int n

/-- An integer that is not negative. -/
def IsCount (v : Value) : Prop := ∃ n, 0 ≤ n ∧ v = .int n

def IsTruth (v : Value) : Prop := ∃ b, v = .bool b

def IsText (v : Value) : Prop := ∃ s, v = .str s

def IsObject (v : Value) : Prop := ∃ es, v = .object es

/-- The wire text of a word. -/
def IsWord (α : Type) [Vocabulary α] (v : Value) : Prop := ∃ a : α, v = .str (Vocabulary.wire a)

def IsListOf (P : Value → Prop) (v : Value) : Prop := ∃ vs, v = .list vs ∧ ∀ w ∈ vs, P w

/-- A list that is not empty. -/
def IsSomeOf (P : Value → Prop) (v : Value) : Prop :=
  ∃ vs, v = .list vs ∧ vs ≠ [] ∧ ∀ w ∈ vs, P w

/-- The type of the elements of a set: a name, or the names of a concatenation. -/
def IsElementType (v : Value) : Prop := v.IsName ∨ v.IsSomeOf IsName

end Value

/-! ## Layouts -/

/-- An attribute, with the values that it may have. -/
structure Field where
  key : String
  admits : Value → Prop
  optional : Bool := false

/-- Attributes in the order in which they are written. -/
abbrev Layout := List Field

namespace Field

def name (key : String) : Field := ⟨key, Value.IsName, false⟩

def count (key : String) : Field := ⟨key, Value.IsCount, false⟩

def integer (key : String) : Field := ⟨key, Value.IsInteger, false⟩

def truth (key : String) : Field := ⟨key, Value.IsTruth, false⟩

def word (α : Type) [Vocabulary α] (key : String) : Field := ⟨key, Value.IsWord α, false⟩

/-- A field that may be left out. -/
def maybe (f : Field) : Field := { f with optional := true }

end Field

namespace Layout

open Nftables.Field (name count integer truth word)

/-- Attributes are laid out as a layout says: all that it asks for is there, in its order, and
nothing else is. -/
inductive Fits : Layout → Attributes → Prop where
  | nil : Fits [] []
  | said {f : Field} {l : Layout} {v : Value} {as : Attributes} (hv : f.admits v) (h : Fits l as) :
      Fits (f :: l) ((f.key, v) :: as)
  | unsaid {f : Field} {l : Layout} {as : Attributes} (hf : f.optional = true) (h : Fits l as) :
      Fits (f :: l) as

/-- What identifies an object that is in a table. -/
def identity (kind : ObjectKind) : Layout :=
  [word Family "family", name "table", name kind.nameKey]

/-- The interfaces of a base chain: the name of one, or a list. -/
def devices : Field :=
  { key := "dev", admits := fun v ↦ v.IsText ∨ v.IsListOf fun _ ↦ True, optional := true }

/-- What makes a chain a base chain. -/
def base : Layout :=
  [word ChainType "type", word Hook "hook", integer "prio", (word ChainPolicy "policy").maybe,
    devices]

/-- What a rule says. -/
def content : Layout :=
  [{ key := "expr", admits := Value.IsListOf Value.IsObject },
    { key := "comment", admits := (· ≠ .null), optional := true }]

/-- The flags of an object, each of them as `P` says. -/
def flags (P : Value → Prop) : Field :=
  { key := "flags", admits := Value.IsListOf P, optional := true }

/-- What limits the elements of a set or map. -/
def limits : Layout :=
  [flags (Value.IsWord SetFlag), (count "timeout").maybe, (count "gc-interval").maybe,
    (count "size").maybe]

/-- The type of the elements of a set, or of the keys of a map. -/
def elementType : Field := { key := "type", admits := Value.IsElementType }

/-- The elements of a set, of which there is at least one. -/
def elements : Field := { key := "elem", admits := Value.IsSomeOf fun _ ↦ True }

/-- The hook of a flowtable is the one at which packets come in. -/
def ingress : Field := { key := "hook", admits := (· = .str (Vocabulary.wire Hook.ingress)) }

/-- The interfaces of a flowtable, of which there is at least one. -/
def interfaces : Field := { key := "dev", admits := Value.IsSomeOf Value.IsName }

def flowtable : Layout :=
  [ingress, integer "prio", interfaces, flags Value.IsText]

/-- What may stand after the identity of an object in a table. -/
def details : ObjectKind → Verb → List Layout
  | .chain, .add => [[], base]
  | .chain, .rename => [[name "newname"]]
  | .rule, .add => [content]
  | .rule, .insert =>
    [count "index" :: (count "handle").maybe :: content, count "handle" :: content]
  | .rule, .replace => [count "handle" :: content]
  | .rule, .delete => [[count "handle"]]
  | .set, .add => [elementType :: limits]
  | .map, .add => [elementType :: name "map" :: limits]
  | .element, _ => [[elements]]
  | .counter, .add => [[count "packets", count "bytes"]]
  | .quota, .add => [[count "bytes", count "used", truth "over"]]
  | .limit, .add => [[count "rate", word RateUnit "per", count "burst"]]
  | .flowtable, .add => [flowtable]
  | _, _ => [[]]

end Layout

/-- The layouts of operations with a verb on objects of a kind. -/
def ObjectKind.layouts (kind : ObjectKind) (verb : Verb) : List Layout :=
  match kind with
  | .ruleset => [[.word Family "family"]]
  | .table => [[.word Family "family", .name "name"]]
  | kind => (Layout.details kind verb).map (Layout.identity kind ++ ·)

/-- Attributes are laid out as a kind and a verb ask for.  Only the ruleset may have none. -/
def ObjectKind.LaysOut (kind : ObjectKind) (verb : Verb) : Option Attributes → Prop
  | none => kind = .ruleset
  | some as => ∃ l ∈ kind.layouts verb, Layout.Fits l as

/-- An operation has a verb that its kind of object admits, and attributes as the two ask for. -/
def Operation.WellFormed (o : Operation) : Prop :=
  o.verb ∈ o.kind.verbs ∧ o.kind.LaysOut o.verb o.attributes

namespace Layout

open Nftables.Field (name count integer truth word)

variable {l l' : Layout} {as bs : Attributes} {f : Field} {v w : Value}

theorem Fits.append (h : Fits l as) (h' : Fits l' bs) : Fits (l ++ l') (as ++ bs) := by
  induction h with
  | nil => exact h'
  | said hv _ ih => exact .said hv ih
  | unsaid hf _ ih => exact .unsaid hf ih

theorem Fits.singleton (hv : f.admits v) : Fits [f] [(f.key, v)] :=
  .said hv .nil

/-- The keys of attributes are some of those of their layout, in its order. -/
theorem Fits.sublist (h : Fits l as) : (as.map Prod.fst).Sublist (l.map Field.key) := by
  induction h with
  | nil => exact .slnil
  | said _ _ ih => exact ih.cons_cons _
  | unsaid _ _ ih => exact ih.cons _

/-- No layout has a key twice. -/
theorem nodup_keys {kind : ObjectKind} {verb : Verb} (h : l ∈ kind.layouts verb) :
    (l.map Field.key).Nodup := by
  revert l
  cases kind <;> cases verb <;> decide

/-! ## What checks let pass -/

theorem isWord_of_wordAttribute {α : Type} [Vocabulary α] {what : String}
    (h : wordAttribute α what v = .ok w) : w.IsWord α := by
  obtain ⟨a, -, h⟩ := bind_ok_iff.mp h
  exact ⟨a, (Except.ok.inj h).symm⟩

theorem isCount_of_countAttribute {what : String} (h : countAttribute what v = .ok w) :
    w.IsCount := by
  obtain ⟨n, hn, rfl⟩ := map_ok_iff.mp h
  exact ⟨n, (Value.count_ok_iff.mp hn).2, rfl⟩

theorem isName_of_nonEmpty {what s : String} (h : v.nonEmpty what = .ok s) :
    (Value.str s).IsName :=
  ⟨s, (Value.nonEmpty_ok_iff.mp h).2, rfl⟩

/-- Names that are checked one by one are names. -/
theorem isName_of_mem {what : String} {vs ws : List Value}
    (h : vs.mapM (fun v ↦ .str <$> v.nonEmpty what) = .ok ws) (hw : w ∈ ws) : w.IsName := by
  obtain ⟨v, -, hv⟩ := exists_mem_of_mapM_ok h hw
  obtain ⟨s, hs, rfl⟩ := map_ok_iff.mp hv
  exact isName_of_nonEmpty hs

theorem fits_optional {check : Value → Except ArgumentError Value}
    (hcheck : ∀ w, check v = .ok w → f.admits w) (h : optionalAttribute f.key check v = .ok as) :
    Fits [f.maybe] as := by
  rcases optionalAttribute_ok_iff.mp h with ⟨-, rfl⟩ | ⟨-, w, hw, rfl⟩
  · exact .unsaid rfl .nil
  · exact .singleton (f := f.maybe) (hcheck w hw)

theorem fits_optionalCount {what key : String}
    (h : optionalAttribute key (countAttribute what) v = .ok as) : Fits [(count key).maybe] as :=
  fits_optional (f := count key) (fun _ ↦ isCount_of_countAttribute) h

/-! ## What specs come to -/

variable {s : Spec} {verb : Verb} {c : Context}

theorem nameOf_ne_empty {n : String} (h : c.nameOf s = .ok n) : n ≠ "" := by
  cases s with
  | ruleset _ => cases h
  | counter s | quota s | limit s | flowtable s =>
    exact (Value.nonEmpty_ok_iff.mp (liftM_argument_ok_iff.mp h)).2
  | _ => exact (Context.nameOr_ok_iff.mp h).2

/-- An object in a table is identified first; what follows is laid out on its own. -/
theorem fits_identity {n : String} {rest : Attributes} (hs : scope c s = .ok as)
    (hn : c.nameOf s = .ok n) (hrest : Fits l rest) :
    Fits (identity s.kind ++ l) (as ++ (s.kind.nameKey, .str n) :: rest) := by
  simp only [scope, bind_ok_iff, liftM_argument_ok_iff, pure_ok_iff] at hs
  obtain ⟨family, hfamily, table, htable, rfl⟩ := hs
  obtain ⟨F, rfl⟩ := Context.familyName_of_ok hfamily
  have ht := (Context.nameOr_ok_iff.mp htable).2
  exact .said ⟨F, rfl⟩ (.said ⟨table, ht, rfl⟩ (.said ⟨n, nameOf_ne_empty hn, rfl⟩ hrest))

theorem fits_base {s : ChainSpec} (h : s.baseAttributes = .ok as) : Fits base as := by
  simp only [ChainSpec.baseAttributes, bind_ok_iff, liftM_argument_ok_iff] at h
  obtain ⟨type, htype, _, -, hook, hhook, n, -, policy, hpolicy, h⟩ := h
  have hpolicy : Fits [(word ChainPolicy "policy").maybe] policy :=
    fits_optional (f := word ChainPolicy "policy") (fun _ ↦ isWord_of_wordAttribute) hpolicy
  have hfirst : Fits [word ChainType "type", word Hook "hook", integer "prio"]
      [("type", type), ("hook", hook), ("prio", .int n)] :=
    .said (isWord_of_wordAttribute htype) (.said (isWord_of_wordAttribute hhook)
      (.singleton (f := integer "prio") ⟨n, rfl⟩))
  have hbase {rest : Attributes} (hrest : Fits [devices] rest) :=
    (hfirst.append hpolicy).append hrest
  split at h
  · simp only [bind_ok_iff, pure_ok_iff] at h
    obtain ⟨_, rfl, rfl⟩ := h
    exact hbase (.unsaid rfl .nil)
  · simp only [bind_ok_iff, liftM_shape_ok_iff, pure_ok_iff] at h
    obtain ⟨w, hw, _, rfl, rfl⟩ := h
    refine hbase (.singleton ?_)
    unfold ChainSpec.deviceValue at hw
    split at hw
    · exact .inl ⟨_, (Except.ok.inj hw).symm⟩
    · obtain ⟨vs, -, rfl⟩ := map_ok_iff.mp hw
      exact .inr ⟨vs, rfl, fun _ _ ↦ trivial⟩

/-- A chain is plain, is a base chain, or is renamed. -/
theorem fits_chain {s : ChainSpec} (h : s.attributes verb c = .ok as) :
    ∃ l ∈ details .chain verb, Fits (identity .chain ++ l) as := by
  simp only [ChainSpec.attributes, bind_ok_iff] at h
  obtain ⟨sc, hsc, n, hn, h⟩ := h
  split at h
  case isTrue hv =>
    subst hv
    simp only [bind_ok_iff, liftM_argument_ok_iff, pure_ok_iff] at h
    obtain ⟨_, -, m, hm, _, rfl, rfl⟩ := h
    exact ⟨_, List.mem_singleton_self _,
      fits_identity (s := .chain s) hsc hn (.singleton (isName_of_nonEmpty hm))⟩
  case isFalse hv =>
    split at h
    case isTrue hbase =>
      obtain ⟨rfl, -⟩ := hbase
      simp only [bind_ok_iff, pure_ok_iff] at h
      obtain ⟨rest, hrest, rfl⟩ := h
      exact ⟨base, by simp [details], fits_identity (s := .chain s) hsc hn (fits_base hrest)⟩
    case isFalse =>
      simp only [bind_ok_iff, pure_ok_iff] at h
      obtain ⟨_, rfl, rfl⟩ := h
      refine ⟨[], ?_, fits_identity (s := .chain s) hsc hn .nil⟩
      cases verb <;> simp_all [details]

theorem isObject_of_statements {b : RuleBody} {vs : List Value} (h : b.statements = .ok vs) :
    ∀ v ∈ vs, v.IsObject := by
  unfold RuleBody.statements at h
  cases b with
  | expr e =>
    cases h
    intro v hv
    obtain ⟨f, -, rfl⟩ := List.mem_map.mp hv
    exact ⟨_, rfl⟩
  | sequence items => cases h
  | value w =>
    cases w with
    | list ws | tuple ws =>
      simp only at h
      split at h
      case isTrue hall =>
        cases h
        intro v hv
        have hobject := List.all_eq_true.mp hall v hv
        cases v with
        | object es => exact ⟨es, rfl⟩
        | _ => cases hobject
      case isFalse => cases h
    | _ => cases h

theorem fits_content {s : RuleSpec} (h : s.content verb = .ok as) : Fits content as := by
  unfold RuleSpec.content at h
  split at h
  · simp only [bind_ok_iff, throw_ok_iff, false_and, exists_false] at h
  simp only [bind_ok_iff, pure_ok_iff] at h
  obtain ⟨vs, hvs, rfl⟩ := h
  refine .said ⟨vs, rfl, isObject_of_statements hvs⟩ ?_
  split
  case isTrue => exact .unsaid rfl .nil
  case isFalse hc => exact .singleton (by simpa using hc)

/-- A rule that is inserted has an index, a handle or both. -/
theorem fits_insert {s : RuleSpec} (h : s.position .insert = .ok as) :
    Fits [count "index", (count "handle").maybe] as ∨ Fits [count "handle"] as := by
  simp only [RuleSpec.position] at h
  split at h
  · simp only [bind_ok_iff, throw_ok_iff, false_and, exists_false] at h
  rename_i hgiven
  simp only [bind_ok_iff, pure_ok_iff] at h
  obtain ⟨index, hindex, handle, hhandle, rfl⟩ := h
  rcases optionalAttribute_ok_iff.mp hindex with ⟨hi, rfl⟩ | ⟨-, v, hv, rfl⟩
  · rcases optionalAttribute_ok_iff.mp hhandle with ⟨hh, rfl⟩ | ⟨-, w, hw, rfl⟩
    · simp [hi, hh] at hgiven
    · exact .inr (.singleton (isCount_of_countAttribute hw))
  · exact .inl (.said (isCount_of_countAttribute hv) (fits_optionalCount hhandle))

theorem fits_handle {s : RuleSpec} (hv : verb = .delete ∨ verb = .replace)
    (h : s.position verb = .ok as) : Fits [count "handle"] as := by
  rcases hv with rfl | rfl
  all_goals
    simp only [RuleSpec.position, bind_ok_iff, pure_ok_iff] at h
    obtain ⟨_, -, w, hw, rfl⟩ := h
    exact .singleton (isCount_of_countAttribute hw)

/-- A rule is added, or is changed where its handle says, or is inserted at a position. -/
theorem fits_rule {s : RuleSpec} (h : s.attributes verb c = .ok as)
    (hv : verb ∈ ObjectKind.rule.verbs) :
    ∃ l ∈ details .rule verb, Fits (identity .rule ++ l) as := by
  simp only [RuleSpec.attributes, bind_ok_iff, liftM_argument_ok_iff] at h
  obtain ⟨sc, hsc, n, hn, position, hposition, h⟩ := h
  split at h
  case isTrue hd =>
    subst hd
    simp only [bind_ok_iff, pure_ok_iff] at h
    obtain ⟨_, rfl, rfl⟩ := h
    rw [List.append_nil]
    exact ⟨_, List.mem_singleton_self _,
      fits_identity (s := .rule s) hsc hn (fits_handle (.inl rfl) hposition)⟩
  case isFalse hd =>
    simp only [bind_ok_iff, liftM_argument_ok_iff, pure_ok_iff] at h
    obtain ⟨body, hbody, rfl⟩ := h
    have hfits {l : Layout} (hp : Fits l position) :=
      fits_identity (s := .rule s) hsc hn (hp.append (fits_content hbody))
    cases verb with
    | add =>
      cases hposition
      exact ⟨_, List.mem_singleton_self _, hfits .nil⟩
    | insert =>
      rcases fits_insert hposition with hp | hp
      · exact ⟨_, List.mem_cons_self, hfits hp⟩
      · exact ⟨_, List.mem_cons_of_mem _ List.mem_cons_self, hfits hp⟩
    | replace =>
      exact ⟨_, List.mem_singleton_self _, hfits (fits_handle (.inr rfl) hposition)⟩
    | delete => exact absurd rfl hd
    | flush | rename | list => simp [ObjectKind.verbs] at hv

theorem isSomeOf_of_mapM {what : String} {vs ws : List Value} (hne : ¬vs.isEmpty = true)
    (h : vs.mapM (fun v ↦ .str <$> v.nonEmpty what) = .ok ws) :
    (Value.list ws).IsSomeOf Value.IsName :=
  ⟨ws, rfl, ne_nil_of_mapM_ok h (by simpa using hne), fun _ ↦ isName_of_mem h⟩

theorem isElementType_of_elementType (h : Nftables.elementType v = .ok w) : w.IsElementType := by
  unfold Nftables.elementType at h
  split at h
  case h_1 vs | h_2 vs =>
    split at h
    case isTrue => cases h
    case isFalse hne =>
      obtain ⟨ws, hws, h⟩ := bind_ok_iff.mp h
      cases h
      exact .inr (isSomeOf_of_mapM hne hws)
  case h_3 =>
    obtain ⟨s, hs, rfl⟩ := map_ok_iff.mp h
    exact .inl (isName_of_nonEmpty hs)

theorem fits_limits {o : CollectionOptions} (h : o.attributes = .ok as) : Fits limits as := by
  simp only [CollectionOptions.attributes, bind_ok_iff, liftM_argument_ok_iff, pure_ok_iff] at h
  obtain ⟨fs, hflags, timeout, htimeout, interval, hinterval, size, hsize, rfl⟩ := h
  have hflags : Fits [flags (Value.IsWord SetFlag)] fs := by
    unfold CollectionOptions.flagsAttribute at hflags
    split at hflags
    · simp only [bind_ok_iff, liftM_shape_ok_iff, liftM_argument_ok_iff, pure_ok_iff] at hflags
      obtain ⟨vs, -, ws, hws, rfl⟩ := hflags
      refine .singleton ⟨ws, rfl, fun w hw ↦ ?_⟩
      obtain ⟨v, -, hv⟩ := exists_mem_of_mapM_ok hws hw
      exact isWord_of_wordAttribute hv
    · cases hflags
      exact .unsaid rfl .nil
  exact ((hflags.append (fits_optionalCount htimeout)).append
    (fits_optionalCount hinterval)).append (fits_optionalCount hsize)

/-- Most objects have nothing beside their identity unless they are added. -/
theorem nil_mem_details {kind : ObjectKind} (hk : kind ∉ [.chain, .rule, .element])
    (hv : verb ≠ .add) : [] ∈ details kind verb := by
  cases kind <;> cases verb <;> simp_all [details]

theorem fits_set {s : SetSpec} (h : s.attributes verb c = .ok as) :
    ∃ l ∈ details .set verb, Fits (identity .set ++ l) as := by
  simp only [SetSpec.attributes, bind_ok_iff] at h
  obtain ⟨sc, hsc, n, hn, h⟩ := h
  split at h
  case isTrue hv =>
    subst hv
    simp only [bind_ok_iff, liftM_argument_ok_iff, pure_ok_iff] at h
    obtain ⟨_, -, type, htype, rest, hrest, _, rfl, rfl⟩ := h
    exact ⟨_, List.mem_singleton_self _, fits_identity (s := .set s) hsc hn
      (.said (f := elementType) (isElementType_of_elementType htype) (fits_limits hrest))⟩
  case isFalse hv =>
    cases h
    exact ⟨[], nil_mem_details (by decide) hv, fits_identity (s := .set s) hsc hn .nil⟩

theorem fits_map {s : MapSpec} (h : s.attributes verb c = .ok as) :
    ∃ l ∈ details .map verb, Fits (identity .map ++ l) as := by
  simp only [MapSpec.attributes, bind_ok_iff] at h
  obtain ⟨sc, hsc, n, hn, h⟩ := h
  split at h
  case isTrue hv =>
    subst hv
    simp only [bind_ok_iff, liftM_argument_ok_iff, pure_ok_iff] at h
    obtain ⟨_, -, type, htype, _, -, value, hvalue, rest, hrest, _, rfl, rfl⟩ := h
    have hfirst : Fits [elementType, name "map"] [("type", type), ("map", .str value)] :=
      .said (isElementType_of_elementType htype) (.singleton (isName_of_nonEmpty hvalue))
    exact ⟨_, List.mem_singleton_self _,
      fits_identity (s := .map s) hsc hn (hfirst.append (fits_limits hrest))⟩
  case isFalse hv =>
    cases h
    exact ⟨[], nil_mem_details (by decide) hv, fits_identity (s := .map s) hsc hn .nil⟩

theorem fits_element {s : ElementSpec} (h : s.attributes c = .ok as) :
    ∃ l ∈ details .element verb, Fits (identity .element ++ l) as := by
  simp only [ElementSpec.attributes, bind_ok_iff, liftM_argument_ok_iff, pure_ok_iff] at h
  obtain ⟨vs, hvs, sc, hsc, n, hn, rfl⟩ := h
  have hne : vs ≠ [] := by
    unfold ElementSpec.elementValues at hvs
    split at hvs
    case h_1 | h_2 =>
      split at hvs
      case isTrue => cases hvs
      case isFalse hne =>
        cases hvs
        simpa using hne
    case h_3 => cases hvs
  exact ⟨[elements], by cases verb <;> exact List.mem_singleton_self _, fits_identity
    (s := .element s) hsc hn (.singleton (f := elements) ⟨vs, rfl, hne, fun _ _ ↦ trivial⟩)⟩

theorem fits_counter {s : CounterSpec} (h : s.attributes verb c = .ok as) :
    ∃ l ∈ details .counter verb, Fits (identity .counter ++ l) as := by
  simp only [CounterSpec.attributes, bind_ok_iff] at h
  obtain ⟨sc, hsc, n, hn, h⟩ := h
  split at h
  case isTrue hv =>
    subst hv
    simp only [bind_ok_iff, liftM_argument_ok_iff, pure_ok_iff] at h
    obtain ⟨packets, hpackets, bytes, hbytes, _, rfl, rfl⟩ := h
    have hrest : Fits [count "packets", count "bytes"] [("packets", packets), ("bytes", bytes)] :=
      .said (isCount_of_countAttribute hpackets) (.singleton (isCount_of_countAttribute hbytes))
    exact ⟨_, List.mem_singleton_self _, fits_identity (s := .counter s) hsc hn hrest⟩
  case isFalse hv =>
    cases h
    exact ⟨[], nil_mem_details (by decide) hv, fits_identity (s := .counter s) hsc hn .nil⟩

theorem fits_quota {s : QuotaSpec} (h : s.attributes verb c = .ok as) :
    ∃ l ∈ details .quota verb, Fits (identity .quota ++ l) as := by
  simp only [QuotaSpec.attributes, bind_ok_iff] at h
  obtain ⟨sc, hsc, n, hn, h⟩ := h
  split at h
  case isTrue hv =>
    subst hv
    simp only [bind_ok_iff, liftM_argument_ok_iff, pure_ok_iff] at h
    obtain ⟨bytes, hbytes, used, hused, _, rfl, rfl⟩ := h
    have hrest : Fits [count "bytes", count "used", truth "over"]
        [("bytes", bytes), ("used", used), ("over", .bool s.above.truthy)] :=
      .said (isCount_of_countAttribute hbytes)
        (.said (isCount_of_countAttribute hused) (.singleton ⟨_, rfl⟩))
    exact ⟨_, List.mem_singleton_self _, fits_identity (s := .quota s) hsc hn hrest⟩
  case isFalse hv =>
    cases h
    exact ⟨[], nil_mem_details (by decide) hv, fits_identity (s := .quota s) hsc hn .nil⟩

theorem fits_limit {s : LimitSpec} (h : s.attributes verb c = .ok as) :
    ∃ l ∈ details .limit verb, Fits (identity .limit ++ l) as := by
  simp only [LimitSpec.attributes, bind_ok_iff] at h
  obtain ⟨sc, hsc, n, hn, h⟩ := h
  split at h
  case isTrue hv =>
    subst hv
    simp only [bind_ok_iff, liftM_argument_ok_iff, pure_ok_iff] at h
    obtain ⟨_, -, rate, hrate, _, -, per, hper, burst, hburst, _, rfl, rfl⟩ := h
    have hrest : Fits [count "rate", word RateUnit "per", count "burst"]
        [("rate", rate), ("per", per), ("burst", burst)] :=
      .said (isCount_of_countAttribute hrate)
        (.said (isWord_of_wordAttribute hper) (.singleton (isCount_of_countAttribute hburst)))
    exact ⟨_, List.mem_singleton_self _, fits_identity (s := .limit s) hsc hn hrest⟩
  case isFalse hv =>
    cases h
    exact ⟨[], nil_mem_details (by decide) hv, fits_identity (s := .limit s) hsc hn .nil⟩

theorem hookValue_ok {s : FlowtableSpec} (h : s.hookValue verb = .ok w) :
    w = .str (Vocabulary.wire Hook.ingress) := by
  simp only [FlowtableSpec.hookValue, bind_ok_iff] at h
  obtain ⟨_, -, hook, -, h⟩ := h
  split at h
  case isTrue hi =>
    subst hi
    exact (Except.ok.inj h).symm
  case isFalse => cases h

theorem truthy_of_deviceNames {s : FlowtableSpec} (h : s.deviceNames verb = .ok w) :
    w.truthy = true := by
  simp only [FlowtableSpec.deviceNames, bind_ok_iff] at h
  obtain ⟨v, -, h⟩ := h
  cases ht : v.truthy with
  | true =>
    -- whether they are a text or not, devices that pass are the ones that were given
    have hw : v = w := by cases v <;> simp_all
    exact hw ▸ ht
  | false => simp [ht] at h

theorem fits_addedFlowtable {s : FlowtableSpec} (h : s.addAttributes verb = .ok as) :
    Fits flowtable as := by
  simp only [FlowtableSpec.addAttributes, bind_ok_iff, liftM_argument_ok_iff, liftM_shape_ok_iff,
    pure_ok_iff] at h
  obtain ⟨hook, hhook, _, -, priority, -, w, hw, vs, hvs, names, hnames, fs, hflags, rfl⟩ := h
  have hne : names ≠ [] :=
    ne_nil_of_mapM_ok hnames (Value.items_ne_nil (truthy_of_deviceNames hw) hvs)
  have hflags : Fits [flags Value.IsText] fs := by
    unfold FlowtableSpec.flagsAttribute at hflags
    split at hflags
    · simp only [bind_ok_iff, pure_ok_iff] at hflags
      obtain ⟨us, -, ws, hws, rfl⟩ := hflags
      refine .singleton (f := flags Value.IsText) ⟨_, rfl, fun w hw ↦ ?_⟩
      obtain ⟨u, -, hu⟩ := exists_mem_of_mapM_ok hws hw
      obtain ⟨text, -, rfl⟩ := map_ok_iff.mp hu
      exact ⟨_, rfl⟩
    · cases hflags
      exact .unsaid rfl .nil
  have hfirst : Fits [ingress, integer "prio", interfaces]
      [("hook", hook), ("prio", .int priority), ("dev", .list names)] :=
    .said (f := ingress) (hookValue_ok hhook) (.said (f := integer "prio") ⟨_, rfl⟩
      (.singleton (f := interfaces) ⟨names, rfl, hne, fun _ ↦ isName_of_mem hnames⟩))
  exact hfirst.append hflags

theorem fits_flowtable {s : FlowtableSpec} (h : s.attributes verb c = .ok as) :
    ∃ l ∈ details .flowtable verb, Fits (identity .flowtable ++ l) as := by
  simp only [FlowtableSpec.attributes, bind_ok_iff] at h
  obtain ⟨sc, hsc, n, hn, h⟩ := h
  split at h
  case isTrue hv =>
    subst hv
    simp only [bind_ok_iff, pure_ok_iff] at h
    obtain ⟨rest, hrest, rfl⟩ := h
    exact ⟨flowtable, List.mem_singleton_self _,
      fits_identity (s := .flowtable s) hsc hn (fits_addedFlowtable hrest)⟩
  case isFalse hv =>
    cases h
    exact ⟨[], nil_mem_details (by decide) hv, fits_identity (s := .flowtable s) hsc hn .nil⟩

/-! ## All specs -/

/-- Whatever a spec holds and whatever is ambient: the attributes that come of it are laid out as
the kind and the verb ask for. -/
theorem laysOut_attributes {a : Option Attributes} (h : s.attributes verb c = .ok a)
    (hv : verb ∈ s.kind.verbs) : s.kind.LaysOut verb a := by
  have hin {kind : ObjectKind} {as : Attributes}
      (h : ∃ l ∈ details kind verb, Fits (identity kind ++ l) as) :
      ∃ l ∈ (details kind verb).map (identity kind ++ ·), Fits l as := by
    obtain ⟨l, hl, h⟩ := h
    exact ⟨_, List.mem_map_of_mem hl, h⟩
  cases s with
  | ruleset family =>
    simp only [Spec.attributes] at h
    split at h
    · cases h
      rfl
    · simp only [bind_ok_iff, liftM_argument_ok_iff, pure_ok_iff] at h
      obtain ⟨f, hf, rfl⟩ := h
      obtain ⟨F, rfl⟩ := Context.familyName_of_ok hf
      exact ⟨_, List.mem_singleton_self _, .singleton (f := word Family "family") ⟨F, rfl⟩⟩
  | table s =>
    simp only [Spec.attributes, TableSpec.attributes, map_ok_iff, bind_ok_iff,
      liftM_argument_ok_iff, pure_ok_iff] at h
    obtain ⟨_, ⟨f, hf, n, hn, rfl⟩, rfl⟩ := h
    obtain ⟨F, rfl⟩ := Context.familyName_of_ok hf
    exact ⟨_, List.mem_singleton_self _, .said (f := word Family "family") ⟨F, rfl⟩
      (.singleton (f := name "name") ⟨n, (Context.nameOr_ok_iff.mp hn).2, rfl⟩)⟩
  | chain s =>
    obtain ⟨as, has, rfl⟩ := map_ok_iff.mp h
    exact hin (fits_chain has)
  | rule s =>
    obtain ⟨as, has, rfl⟩ := map_ok_iff.mp h
    exact hin (fits_rule has hv)
  | set s =>
    obtain ⟨as, has, rfl⟩ := map_ok_iff.mp h
    exact hin (fits_set has)
  | map s =>
    obtain ⟨as, has, rfl⟩ := map_ok_iff.mp h
    exact hin (fits_map has)
  | element s =>
    obtain ⟨as, has, rfl⟩ := map_ok_iff.mp h
    exact hin (fits_element has)
  | counter s =>
    obtain ⟨as, has, rfl⟩ := map_ok_iff.mp h
    exact hin (fits_counter has)
  | quota s =>
    obtain ⟨as, has, rfl⟩ := map_ok_iff.mp h
    exact hin (fits_quota has)
  | limit s =>
    obtain ⟨as, has, rfl⟩ := map_ok_iff.mp h
    exact hin (fits_limit has)
  | flowtable s =>
    obtain ⟨as, has, rfl⟩ := map_ok_iff.mp h
    exact hin (fits_flowtable has)

end Layout
end Nftables
