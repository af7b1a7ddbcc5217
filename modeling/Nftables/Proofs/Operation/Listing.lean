import Nftables.Listing
import Nftables.Proofs.Operation.Layout
import Nftables.Proofs.Outcome.Document
import Nftables.Proofs.Transaction.Run

/-!
# Operations as listings

The objects that operations are about can be written down as a listing writes objects.  The layouts
of attributes and the records of a listing are laid down apart from each other; this file says that
they agree.  What is read of well-formed operations is one record for each operation on a table, a
chain, a rule, a set or a map, with the attributes of that operation, and nothing of the others.
-/

namespace Nftables

/-! ## Attributes by key -/

namespace Layout

/-- What a layout asks for is there. -/
theorem Fits.mem_keys {l : Layout} {as : Attributes} {f : Field} (h : Fits l as) (hf : f ∈ l)
    (ho : f.optional = false) : f.key ∈ as.map Prod.fst := by
  induction h with
  | nil => cases hf
  | said _ _ ih =>
    rcases List.mem_cons.mp hf with rfl | hf
    · exact List.mem_cons_self
    · exact List.mem_cons_of_mem _ (ih hf)
  | unsaid hopt _ ih =>
    rcases List.mem_cons.mp hf with rfl | hf
    · cases ho.symm.trans hopt
    · exact ih hf

end Layout

namespace ObjectKind

/-- The keys by which an object is identified; the ruleset needs none. -/
def identityKeys : ObjectKind → List String
  | .ruleset => []
  | .table => ["family", "name"]
  | kind => ["family", "table", kind.nameKey]

/-- The kinds of which a listing has records. -/
def listed : List ObjectKind := [.table, .chain, .rule, .set, .map]

/-- The keys of the attributes that a record of an object has. -/
def recordKeys : ObjectKind → List String
  | .table => ["name", "family", "handle"]
  | .chain => ["name", "family", "table", "handle", "type", "hook", "prio", "policy"]
  | .rule => ["family", "table", "chain", "handle", "expr", "comment"]
  | .set | .map => ["name", "family", "table", "handle", "type", "key_len", "flags", "map"]
  | _ => []

/-- The keys of attributes that no record has: they change an object, or are not listed. -/
def unrecordedKeys : List String :=
  ["newname", "dev", "index", "timeout", "gc-interval", "size"]

variable {kind : ObjectKind} {verb : Verb} {l : Layout} {key : String}

theorem exists_field_of_identityKey (hl : l ∈ kind.layouts verb) (hk : key ∈ kind.identityKeys) :
    ∃ f ∈ l, f.key = key ∧ f.optional = false := by
  have hall : ∀ l ∈ kind.layouts verb, ∀ key ∈ kind.identityKeys,
      ∃ f ∈ l, f.key = key ∧ f.optional = false := by
    cases kind <;> cases verb <;> decide
  exact hall l hl key hk

theorem recordKeys_or_unrecordedKeys (hl : l ∈ kind.layouts verb) (hkind : kind ∈ listed)
    (hk : key ∈ l.map Field.key) : key ∈ kind.recordKeys ∨ key ∈ unrecordedKeys := by
  have hall : kind ∈ listed → ∀ l ∈ kind.layouts verb, ∀ key ∈ l.map Field.key,
      key ∈ kind.recordKeys ∨ key ∈ unrecordedKeys := by
    cases kind <;> cases verb <;> decide
  exact hall hkind l hl key hk

/-- Sets and maps are laid out without their elements. -/
theorem elem_notMem_keys (hl : l ∈ kind.layouts verb) (hkind : kind ∈ listed) :
    "elem" ∉ l.map Field.key := by
  have hall : kind ∈ listed → ∀ l ∈ kind.layouts verb, "elem" ∉ l.map Field.key := by
    cases kind <;> cases verb <;> decide
  exact hall hkind l hl

end ObjectKind

namespace Operation

variable {o : Operation} {key : String} {v : Value}

/-- The value of an attribute, null if the operation does not have it. -/
def value (o : Operation) (key : String) : Value :=
  (o.attribute? key).getD .null

@[simp] theorem get?_attributeValue : o.attributeValue.get? key = o.attribute? key := by
  unfold attributeValue attribute?
  cases o.attributes <;> rfl

theorem mem_keys_of_attribute? (h : o.attribute? key = some v) :
    ∃ as, o.attributes = some as ∧ key ∈ as.map Prod.fst := by
  obtain ⟨as, has, hv⟩ := Option.bind_eq_some_iff.mp h
  exact ⟨as, has, Value.lookup_isSome_iff.mp (Option.isSome_of_eq_some hv)⟩

namespace WellFormed

theorem attributes_isSome (h : o.WellFormed) (hkind : o.kind ≠ .ruleset) :
    ∃ as, o.attributes = some as ∧ ∃ l ∈ o.kind.layouts o.verb, Layout.Fits l as := by
  obtain ⟨-, hfits⟩ := h
  cases has : o.attributes with
  | none =>
    rw [has] at hfits
    exact absurd hfits hkind
  | some as =>
    rw [has] at hfits
    exact ⟨as, rfl, hfits⟩

/-- What identifies an object is not missing. -/
theorem get_identityKey (h : o.WellFormed) (hk : key ∈ o.kind.identityKeys) :
    o.attributeValue.get key = .ok (o.value key) := by
  have hkind : o.kind ≠ .ruleset := by
    intro hkind
    rw [hkind] at hk
    cases hk
  obtain ⟨as, has, l, hl, hfits⟩ := h.attributes_isSome hkind
  obtain ⟨f, hf, rfl, ho⟩ := ObjectKind.exists_field_of_identityKey hl hk
  have hlookup := Value.lookup_isSome_iff.mpr (hfits.mem_keys hf ho)
  obtain ⟨v, hv⟩ := Option.isSome_iff_exists.mp hlookup
  simp [attributeValue, value, attribute?, has, hv, Value.get]

/-- An attribute has a place in the record of its object, or is one that no record has. -/
theorem key_of_attribute? (h : o.WellFormed) (hkind : o.kind ∈ ObjectKind.listed)
    (hv : o.attribute? key = some v) :
    key ∈ o.kind.recordKeys ∨ key ∈ ObjectKind.unrecordedKeys := by
  obtain ⟨as, has, hk⟩ := mem_keys_of_attribute? hv
  obtain ⟨-, hfits⟩ := h
  rw [has] at hfits
  obtain ⟨l, hl, hfits⟩ := hfits
  exact ObjectKind.recordKeys_or_unrecordedKeys hl hkind (hfits.sublist.subset hk)

/-- No operation on a set or map has elements in its attributes. -/
theorem attribute?_elem (h : o.WellFormed) (hkind : o.kind ∈ ObjectKind.listed) :
    o.attribute? "elem" = none := by
  rw [Option.eq_none_iff_forall_ne_some]
  intro v hv
  obtain ⟨as, has, hk⟩ := mem_keys_of_attribute? hv
  obtain ⟨-, hfits⟩ := h
  rw [has] at hfits
  obtain ⟨l, hl, hfits⟩ := hfits
  exact ObjectKind.elem_notMem_keys hl hkind (hfits.sublist.subset hk)

end WellFormed

/-! ## Records of operations -/

/-- The object of an operation as an item of a listing. -/
def item (o : Operation) : Value :=
  Term.single o.kind.wire o.attributeValue

def tableRecord (o : Operation) : TableRecord where
  name := o.value "name"
  family := o.value "family"
  handle := o.value "handle"

def chainRecord (o : Operation) : ChainRecord where
  name := o.value "name"
  family := o.value "family"
  table := o.value "table"
  handle := o.value "handle"
  type := o.value "type"
  hook := o.value "hook"
  priority := o.value "prio"
  policy := o.value "policy"

/-- What a rule says is read with its ranges; an operation that does not say it lists nothing. -/
def ruleRecord (o : Operation) : RuleRecord where
  family := o.value "family"
  table := o.value "table"
  chain := o.value "chain"
  handle := o.value "handle"
  statements := ((o.attribute? "expr").getD (.list [])).convertRanges
  comment := o.value "comment"

def setRecord (o : Operation) : SetRecord where
  name := o.value "name"
  family := o.value "family"
  table := o.value "table"
  handle := o.value "handle"
  keyType := o.value "type"
  keyLength := o.value "key_len"
  flags := o.value "flags"
  valueType := o.value "map"

end Operation

namespace Listing

/-- The records of the objects of operations, in the order of the operations. -/
def ofOperations (os : List Operation) : Listing where
  tables := (os.filter (·.kind = .table)).map Operation.tableRecord
  chains := (os.filter (·.kind = .chain)).map Operation.chainRecord
  rules := (os.filter (·.kind = .rule)).map Operation.ruleRecord
  sets := (os.filter fun o ↦ o.kind = .set ∨ o.kind = .map).map Operation.setRecord

variable {o : Operation} {os : List Operation}

/-- What identifies an object is read off its attributes. -/
theorem get_attributeValue {keys : List String} {key : String} (h : o.WellFormed)
    (hkeys : o.kind.identityKeys = keys) (hk : key ∈ keys) :
    o.attributeValue.get key = .ok (o.value key) :=
  h.get_identityKey (hkeys ▸ hk)

theorem attribute?_attributeValue (key : String) :
    attribute? o.attributeValue key = o.value key := by
  rw [attribute?, Operation.get?_attributeValue, Operation.value]

theorem table_attributeValue (h : o.WellFormed) (hkind : o.kind = .table) :
    table o.attributeValue = .ok { tables := [o.tableRecord] } := by
  have hkeys : o.kind.identityKeys = ["family", "name"] := by rw [hkind]; rfl
  simp [table, get_attributeValue h hkeys, attribute?_attributeValue, Operation.tableRecord]

theorem chain_attributeValue (h : o.WellFormed) (hkind : o.kind = .chain) :
    chain o.attributeValue = .ok { chains := [o.chainRecord] } := by
  have hkeys : o.kind.identityKeys = ["family", "table", "name"] := by rw [hkind]; rfl
  simp [chain, get_attributeValue h hkeys, attribute?_attributeValue, Operation.chainRecord]

theorem rule_attributeValue (h : o.WellFormed) (hkind : o.kind = .rule) :
    rule o.attributeValue = .ok { rules := [o.ruleRecord] } := by
  have hkeys : o.kind.identityKeys = ["family", "table", "chain"] := by rw [hkind]; rfl
  simp [rule, get_attributeValue h hkeys, attribute?_attributeValue, Operation.ruleRecord]

/-- A set or map is not passed over, and comes without elements. -/
theorem set_attributeValue (h : o.WellFormed) (hkind : o.kind = .set ∨ o.kind = .map) :
    set o.attributeValue = .ok { sets := [o.setRecord] } := by
  have hkeys : o.kind.identityKeys = ["family", "table", "name"] := by
    rcases hkind with hkind | hkind <;> rw [hkind] <;> rfl
  have hlisted : o.kind ∈ ObjectKind.listed := by
    rcases hkind with hkind | hkind <;> rw [hkind] <;> decide
  have hname : o.attributeValue.get "name" = .ok (o.value "name") :=
    get_attributeValue h hkeys (by simp)
  have htruthy : o.attributeValue.truthy = true := by
    cases hv : o.attributeValue with
    | object es =>
      rw [hv] at hname
      cases es with
      | nil => cases hname
      | cons e es => rfl
    | _ =>
      rw [hv] at hname
      cases hname
  have helements : ((o.value "elem").orElse (.list [])).items = .ok [] := by
    rw [Operation.value, h.attribute?_elem hlisted]
    rfl
  simp [set, htruthy, get_attributeValue h hkeys, attribute?_attributeValue, helements,
    Operation.setRecord]

/-- An item is read as its kind asks for. -/
theorem ofItem_single (kind : ObjectKind) (v : Value) :
    ofItem (Term.single kind.wire v) =
      match kind with
      | .table => table v
      | .chain => chain v
      | .rule => rule v
      | .set | .map => set v
      | _ => .ok {} := by
  cases kind <;> rfl

/-- **One operation.**  The object of a well-formed operation is listed as the record of the
operation, if there are records of its kind. -/
theorem ofItem_item (h : o.WellFormed) : ofItem o.item = .ok (ofOperations [o]) := by
  rw [Operation.item, ofItem_single]
  cases hkind : o.kind with
  | table => simp [ofOperations, hkind, table_attributeValue h hkind]
  | chain => simp [ofOperations, hkind, chain_attributeValue h hkind]
  | rule => simp [ofOperations, hkind, rule_attributeValue h hkind]
  | set => simp [ofOperations, hkind, set_attributeValue h (.inl hkind)]
  | map => simp [ofOperations, hkind, set_attributeValue h (.inr hkind)]
  | ruleset | element | counter | quota | limit | flowtable | tables => simp [ofOperations, hkind]

theorem ofOperations_append (os ps : List Operation) :
    ofOperations (os ++ ps) = ofOperations os ++ ofOperations ps := by
  simp only [ofOperations, List.filter_append, List.map_append]
  rfl

/-- **All operations.**  The objects of well-formed operations are listed as the records of the
operations, kind by kind and in their order. -/
theorem ofItems_map_item (h : ∀ o ∈ os, o.WellFormed) :
    ofItems (os.map Operation.item) = .ok (ofOperations os) := by
  induction os with
  | nil => rfl
  | cons o os ih =>
    rw [List.forall_mem_cons] at h
    rw [List.map_cons, ofItems, ofItem_item h.1, ih h.2]
    exact congrArg Except.ok (ofOperations_append [o] os).symm

end Listing
end Nftables
