import Nftables.Listing
import Nftables.Proofs.Success
import Nftables.Proofs.Value.Entries

/-!
# Composition of listings

A listing is read item by item, and no item changes what is read of another one: the listing of two
lists of items is the listing of the first and then that of the second, and reading stops at the
first item that is no record.  What the items say is said here without the reader: which items are
passed over (`PassedOver`), which one lists a set or map (`ListsSet`), what the elements of a set are
(`HasElements`) and what an element stands for (`Carries`).
-/

namespace Nftables

namespace Value

/-- The keys of entries. -/
def keys (es : List (String × Value)) : List String :=
  es.map Prod.fst

theorem lookup_eq_none_iff {key : String} {es : List (String × Value)} :
    lookup key es = none ↔ key ∉ keys es := by
  rw [← Option.not_isSome_iff_eq_none, lookup_isSome_iff, keys]

end Value

namespace Listing

open Value (keys lookup lookup_eq_none_iff)

variable {item v w : Value} {vs xs ys : List Value} {es : List (String × Value)} {l l₁ l₂ : Listing}
  {e : ShapeError}

/-! ## Items -/

/-- The items that no record comes of: those that are no objects, those about the listing itself,
and those of which no key names a kind of record. -/
inductive PassedOver : Value → Prop
  | noObject {v : Value} (h : ∀ es, v ≠ .object es) : PassedOver v
  | aboutListing {es : List (String × Value)} (h : "metainfo" ∈ keys es) : PassedOver (.object es)
  | unnamed {es : List (String × Value)}
      (h : ∀ key ∈ ["table", "chain", "rule", "set", "map"], key ∉ keys es) :
      PassedOver (.object es)

/-- An item lists a set or map with the given attributes.  What else an item names goes first, and a
set goes before a map. -/
inductive ListsSet : Value → Value → Prop
  | intro {es : List (String × Value)} {v : Value}
      (hother : ∀ key ∈ ["metainfo", "table", "chain", "rule"], key ∉ keys es)
      (hv : lookup "set" es = some v ∨ "set" ∉ keys es ∧ lookup "map" es = some v) :
      ListsSet (.object es) v

/-- The items of which nothing is listed: the ones passed over, and sets without attributes. -/
def Silent (item : Value) : Prop :=
  PassedOver item ∨ ∃ v, ListsSet item v ∧ v.truthy = false

/-- The elements of a set, by its attributes. -/
inductive HasElements (v : Value) : List Value → Prop
  | none (h : ∀ w, v.get? "elem" = some w → w.truthy = false) : HasElements v []
  | some {w : Value} {vs : List Value} (h : v.get? "elem" = some w) (hw : w.truthy = true)
      (hvs : w.items = .ok vs) : HasElements v vs

/-- An element stands for a value: for the one it wraps, for the one that the element inside it
wraps, or else for itself. -/
inductive Carries : Value → Value → Prop
  | wrapped {element v : Value} (h : element.get? "val" = some v) : Carries element v
  | nested {element inner v : Value} (h : element.get? "val" = none)
      (hinner : element.get? "elem" = some inner) (hv : inner.get? "val" = some v) :
      Carries element v
  | bare {element : Value} (h : element.get? "val" = none)
      (hinner : ∀ inner, element.get? "elem" = some inner → inner.get? "val" = none) :
      Carries element element

/-- An element of a set is recorded with the family, the table and the name of the set. -/
def Records (s : SetRecord) (element : Value) (r : ElementRecord) : Prop :=
  r.family = s.family ∧ r.table = s.table ∧ r.set = s.name ∧ Carries element r.value

theorem carries_elementValue (element : Value) : Carries element (elementValue element) := by
  unfold elementValue
  split
  case h_1 v h => exact .wrapped h
  case h_2 h =>
    split
    case h_1 v hv =>
      obtain ⟨inner, hinner, hv⟩ := Option.bind_eq_some_iff.mp hv
      exact .nested h hinner hv
    case h_2 hnone => exact .bare h fun inner hinner ↦ by simpa [hinner] using hnone

theorem hasElements_iff :
    ((attribute? v "elem").orElse (.list [])).items = .ok vs ↔ HasElements v vs := by
  cases hw : v.get? "elem" with
  | none =>
    have hitems : ((attribute? v "elem").orElse (.list [])).items = .ok [] := by
      rw [attribute?, hw]
      rfl
    rw [hitems, Except.ok.injEq]
    constructor
    · rintro rfl
      exact .none fun w h ↦ by simp [hw] at h
    · rintro (_ | ⟨h, -, -⟩)
      · rfl
      · simp [hw] at h
  | some w =>
    rw [attribute?, hw, Option.getD_some, Value.orElse]
    cases ht : w.truthy with
    | false =>
      simp only [Bool.false_eq_true, reduceIte, Value.items, Except.ok.injEq]
      constructor
      · rintro rfl
        exact .none fun u h ↦ by rwa [← Option.some.inj (hw.symm.trans h)]
      · rintro (_ | ⟨h, hu, -⟩)
        · rfl
        · obtain rfl := Option.some.inj (hw.symm.trans h)
          simp [ht] at hu
    | true =>
      simp only [reduceIte]
      constructor
      · exact fun h ↦ .some hw ht h
      · rintro (h | ⟨h, -, hvs⟩)
        · simp [h w hw] at ht
        · obtain rfl := Option.some.inj (hw.symm.trans h)
          exact hvs

/-- A set with attributes is one record, with one record for each of its elements. -/
theorem set_ok_iff (hv : v.truthy = true) : set v = .ok l ↔
    ∃ name family table elements, v.get "name" = .ok name ∧ v.get "family" = .ok family ∧
      v.get "table" = .ok table ∧ HasElements v elements ∧
      l = {
        sets := [{ name, family, table, handle := attribute? v "handle",
                   keyType := attribute? v "type", keyLength := attribute? v "key_len",
                   flags := attribute? v "flags", valueType := attribute? v "map" }]
        elements := elements.map fun e ↦
          { family, table, set := name, value := elementValue e } } := by
  simp only [set, hv, Bool.not_true, Bool.false_eq_true, reduceIte, bind_ok_iff, pure_ok_iff,
    hasElements_iff]
  constructor
  · rintro ⟨name, hname, family, hfamily, table, htable, elements, helements, rfl⟩
    exact ⟨name, family, table, elements, hname, hfamily, htable, helements, rfl⟩
  · rintro ⟨name, family, table, elements, hname, hfamily, htable, helements, rfl⟩
    exact ⟨name, hname, family, hfamily, table, htable, elements, helements, rfl⟩

theorem ofItem_of_passedOver (h : PassedOver item) : ofItem item = .ok {} := by
  cases h with
  | noObject h =>
    cases item with
    | object es => exact absurd rfl (h es)
    | _ => rfl
  | aboutListing h =>
    rw [ofItem, Value.get?, Value.lookup_isSome_iff.mpr h, if_pos rfl]
  | unnamed h =>
    simp only [List.forall_mem_cons, ← lookup_eq_none_iff] at h
    obtain ⟨htable, hchain, hrule, hset, hmap, -⟩ := h
    simp only [ofItem, Value.get?, htable, hchain, hrule, hset, hmap, ite_self]

theorem ofItem_of_listsSet (h : ListsSet item v) : ofItem item = set v := by
  obtain ⟨hother, hv⟩ := h
  simp only [List.forall_mem_cons, ← lookup_eq_none_iff] at hother
  obtain ⟨hmeta, htable, hchain, hrule, -⟩ := hother
  rw [← lookup_eq_none_iff] at hv
  simp only [ofItem, Value.get?, hmeta, htable, hchain, hrule, Option.isSome_none,
    Bool.false_eq_true, reduceIte]
  rcases hv with hv | ⟨hset, hv⟩
  · simp only [hv]
  · simp only [hset, hv]

/-- An item that is not passed over is a table, a chain, a rule, or it lists a set or map. -/
theorem ofItem_cases (item : Value) :
    PassedOver item ∨ (∃ v, ofItem item = table v) ∨ (∃ v, ofItem item = chain v) ∨
      (∃ v, ofItem item = rule v) ∨ ∃ v, ListsSet item v := by
  by_cases hobject : ∃ es, item = .object es
  case neg => exact .inl (.noObject (not_exists.mp hobject))
  obtain ⟨es, rfl⟩ := hobject
  by_cases hmeta : "metainfo" ∈ keys es
  case pos => exact .inl (.aboutListing hmeta)
  rw [← lookup_eq_none_iff] at hmeta
  cases htable : lookup "table" es with
  | some v => exact .inr (.inl ⟨v, by simp [ofItem, Value.get?, hmeta, htable]⟩)
  | none =>
    cases hchain : lookup "chain" es with
    | some v => exact .inr (.inr (.inl ⟨v, by simp [ofItem, Value.get?, hmeta, htable, hchain]⟩))
    | none =>
      cases hrule : lookup "rule" es with
      | some v =>
        refine .inr (.inr (.inr (.inl ⟨v, ?_⟩)))
        simp [ofItem, Value.get?, hmeta, htable, hchain, hrule]
      | none =>
        have hother : ∀ key ∈ ["metainfo", "table", "chain", "rule"], key ∉ keys es := by
          simp [← lookup_eq_none_iff, hmeta, htable, hchain, hrule]
        cases hset : lookup "set" es with
        | some v => exact .inr (.inr (.inr (.inr ⟨v, .intro hother (.inl hset)⟩)))
        | none =>
          cases hmap : lookup "map" es with
          | some v =>
            have hset := lookup_eq_none_iff.mp hset
            exact .inr (.inr (.inr (.inr ⟨v, .intro hother (.inr ⟨hset, hmap⟩)⟩)))
          | none =>
            refine .inl (.unnamed ?_)
            simp [← lookup_eq_none_iff, htable, hchain, hrule, hset, hmap]

/-! ## Records of one item -/

theorem table_ok (h : table v = .ok l) : ∃ r, l = { tables := [r] } := by
  simp only [table, bind_ok_iff, pure_ok_iff] at h
  obtain ⟨_, -, _, -, rfl⟩ := h
  exact ⟨_, rfl⟩

theorem chain_ok (h : chain v = .ok l) : ∃ r, l = { chains := [r] } := by
  simp only [chain, bind_ok_iff, pure_ok_iff] at h
  obtain ⟨_, -, _, -, _, -, rfl⟩ := h
  exact ⟨_, rfl⟩

theorem rule_ok (h : rule v = .ok l) : ∃ r, l = { rules := [r] } := by
  simp only [rule, bind_ok_iff, pure_ok_iff] at h
  obtain ⟨_, -, _, -, _, -, rfl⟩ := h
  exact ⟨_, rfl⟩

theorem set_of_not_truthy (h : v.truthy = false) : set v = .ok {} := by
  simp [set, h]

/-- A set with attributes that is read is one record with its own identity, and a record for each
of its elements, in their order. -/
theorem set_ok (hv : v.truthy = true) (h : set v = .ok l) :
    ∃ s vs rs, l = { sets := [s], elements := rs } ∧
      v.get "family" = .ok s.family ∧ v.get "table" = .ok s.table ∧ v.get "name" = .ok s.name ∧
      HasElements v vs ∧ List.Forall₂ (Records s) vs rs := by
  obtain ⟨name, family, table, vs, hname, hfamily, htable, helements, rfl⟩ := (set_ok_iff hv).mp h
  refine ⟨_, vs, _, rfl, hfamily, htable, hname, helements, ?_⟩
  rw [List.forall₂_map_right_iff]
  exact List.forall₂_same.mpr fun element _ ↦ ⟨rfl, rfl, rfl, carries_elementValue element⟩

theorem ofItem_of_silent (h : Silent item) : ofItem item = .ok {} := by
  rcases h with h | ⟨v, h, hv⟩
  · exact ofItem_of_passedOver h
  · rw [ofItem_of_listsSet h, set_of_not_truthy hv]

/-- Nothing comes of an item if and only if there is nothing in it to list. -/
theorem isEmpty_iff_silent (h : ofItem item = .ok l) : l.isEmpty = true ↔ Silent item := by
  constructor
  · intro hempty
    rcases ofItem_cases item with hpassed | ⟨v, hv⟩ | ⟨v, hv⟩ | ⟨v, hv⟩ | ⟨v, hv⟩
    · exact .inl hpassed
    · obtain ⟨r, rfl⟩ := table_ok (hv.symm.trans h)
      cases hempty
    · obtain ⟨r, rfl⟩ := chain_ok (hv.symm.trans h)
      cases hempty
    · obtain ⟨r, rfl⟩ := rule_ok (hv.symm.trans h)
      cases hempty
    · cases ht : v.truthy with
      | false => exact .inr ⟨v, hv, ht⟩
      | true =>
        obtain ⟨s, vs, rs, rfl, -⟩ := set_ok ht ((ofItem_of_listsSet hv).symm.trans h)
        cases hempty
  · intro hsilent
    rw [ofItem_of_silent hsilent, Except.ok.injEq] at h
    exact h ▸ rfl

/-- An element is listed with the set that it is in. -/
def Housed (l : Listing) : Prop :=
  ∀ r ∈ l.elements, ∃ s ∈ l.sets, r.family = s.family ∧ r.table = s.table ∧ r.set = s.name

theorem housed_of_ofItem (h : ofItem item = .ok l) : l.Housed := by
  rcases ofItem_cases item with hpassed | ⟨v, hv⟩ | ⟨v, hv⟩ | ⟨v, hv⟩ | ⟨v, hv⟩
  · rw [ofItem_of_passedOver hpassed, Except.ok.injEq] at h
    subst h
    exact nofun
  · obtain ⟨r, rfl⟩ := table_ok (hv.symm.trans h)
    exact nofun
  · obtain ⟨r, rfl⟩ := chain_ok (hv.symm.trans h)
    exact nofun
  · obtain ⟨r, rfl⟩ := rule_ok (hv.symm.trans h)
    exact nofun
  · rw [ofItem_of_listsSet hv] at h
    cases ht : v.truthy with
    | false =>
      rw [set_of_not_truthy ht, Except.ok.injEq] at h
      subst h
      exact nofun
    | true =>
      obtain ⟨name, family, table, vs, -, -, -, -, rfl⟩ := (set_ok_iff ht).mp h
      intro r hr
      obtain ⟨element, -, rfl⟩ := List.mem_map.mp hr
      exact ⟨_, List.mem_singleton_self _, rfl, rfl, rfl⟩

/-! ## Lists of items -/

theorem append_def (l m : Listing) : l ++ m = {
    tables := l.tables ++ m.tables
    chains := l.chains ++ m.chains
    rules := l.rules ++ m.rules
    sets := l.sets ++ m.sets
    elements := l.elements ++ m.elements } := rfl

@[simp] theorem nil_append (l : Listing) : ({} : Listing) ++ l = l := rfl

theorem append_assoc (l₁ l₂ l₃ : Listing) : l₁ ++ l₂ ++ l₃ = l₁ ++ (l₂ ++ l₃) := by
  simp only [append_def, List.append_assoc]

theorem isEmpty_append :
    (l₁ ++ l₂).isEmpty = true ↔ l₁.isEmpty = true ∧ l₂.isEmpty = true := by
  simp only [isEmpty, append_def, Bool.and_eq_true, List.isEmpty_iff, List.append_eq_nil_iff]
  tauto

theorem ofItems_cons_ok_iff : ofItems (item :: ys) = .ok l ↔
    ∃ l₁ l₂, ofItem item = .ok l₁ ∧ ofItems ys = .ok l₂ ∧ l₁ ++ l₂ = l := by
  simp only [ofItems, bind_ok_iff, Except.ok.injEq]
  constructor
  · rintro ⟨l₁, h₁, l₂, h₂, rfl⟩
    exact ⟨l₁, l₂, h₁, h₂, rfl⟩
  · rintro ⟨l₁, l₂, h₁, h₂, rfl⟩
    exact ⟨l₁, h₁, l₂, h₂, rfl⟩

/-- What is read of two lists of items is what is read of each. -/
theorem ofItems_append_ok_iff : ofItems (xs ++ ys) = .ok l ↔
    ∃ l₁ l₂, ofItems xs = .ok l₁ ∧ ofItems ys = .ok l₂ ∧ l₁ ++ l₂ = l := by
  induction xs generalizing l with
  | nil => simp [ofItems]
  | cons item xs ih =>
    simp only [List.cons_append, ofItems_cons_ok_iff, ih]
    constructor
    · rintro ⟨l₁, _, h₁, ⟨l₂, l₃, h₂, h₃, rfl⟩, rfl⟩
      exact ⟨l₁ ++ l₂, l₃, ⟨l₁, l₂, h₁, h₂, rfl⟩, h₃, append_assoc l₁ l₂ l₃⟩
    · rintro ⟨_, l₃, ⟨l₁, l₂, h₁, h₂, rfl⟩, h₃, rfl⟩
      exact ⟨l₁, l₂ ++ l₃, h₁, ⟨l₂, l₃, h₂, h₃, rfl⟩, (append_assoc l₁ l₂ l₃).symm⟩

/-- Reading fails with the error of an item before which all is read. -/
theorem ofItems_error_iff : ofItems xs = .error e ↔
    ∃ before item after, xs = before ++ item :: after ∧ (∃ l, ofItems before = .ok l) ∧
      ofItem item = .error e := by
  induction xs with
  | nil => simp [ofItems]
  | cons x xs ih =>
    simp only [ofItems, bind_error_iff, reduceCtorEq, and_false, exists_false, or_false, ih]
    constructor
    · rintro (hx | ⟨l, hx, before, item, after, rfl, ⟨m, hbefore⟩, hitem⟩)
      · exact ⟨[], x, xs, rfl, ⟨{}, rfl⟩, hx⟩
      · refine ⟨x :: before, item, after, rfl, ⟨l ++ m, ?_⟩, hitem⟩
        exact ofItems_cons_ok_iff.mpr ⟨l, m, hx, hbefore, rfl⟩
    · rintro ⟨before, item, after, hxs, ⟨l, hbefore⟩, hitem⟩
      cases before with
      | nil =>
        obtain ⟨rfl, rfl⟩ := List.cons.inj hxs
        exact .inl hitem
      | cons y before =>
        obtain ⟨rfl, rfl⟩ := List.cons.inj hxs
        obtain ⟨l₁, l₂, h₁, h₂, -⟩ := ofItems_cons_ok_iff.mp hbefore
        exact .inr ⟨l₁, h₁, before, item, after, rfl, ⟨l₂, h₂⟩, hitem⟩

theorem eq_append_iff : l = l₁ ++ l₂ ↔ l.tables = l₁.tables ++ l₂.tables ∧
    l.chains = l₁.chains ++ l₂.chains ∧ l.rules = l₁.rules ++ l₂.rules ∧
    l.sets = l₁.sets ++ l₂.sets ∧ l.elements = l₁.elements ++ l₂.elements := by
  cases l
  simp only [append_def, mk.injEq]

theorem ofItems_insert_passedOver (h : PassedOver item) :
    ofItems (xs ++ item :: ys) = ofItems (xs ++ ys) := by
  have hcons : ofItems (item :: ys) = ofItems ys := by
    rw [ofItems, ofItem_of_passedOver h]
    cases hys : ofItems ys <;> simp [bind, Except.bind]
  induction xs with
  | nil => exact hcons
  | cons x xs ih => simp only [List.cons_append, ofItems, ih]

theorem ofItems_singleton (item : Value) : ofItems [item] = ofItem item := by
  cases h : ofItem item with
  | error e => simp [ofItems, h, bind, Except.bind]
  | ok l =>
    refine ofItems_cons_ok_iff.mpr ⟨l, {}, h, rfl, ?_⟩
    simp only [append_def, List.append_nil]

theorem housed_of_ofItems (h : ofItems xs = .ok l) : l.Housed := by
  induction xs generalizing l with
  | nil =>
    cases h
    exact nofun
  | cons item xs ih =>
    obtain ⟨l₁, l₂, h₁, h₂, rfl⟩ := ofItems_cons_ok_iff.mp h
    intro r hr
    rcases List.mem_append.mp hr with hr | hr
    · obtain ⟨s, hs, hsame⟩ := housed_of_ofItem h₁ r hr
      exact ⟨s, List.mem_append_left _ hs, hsame⟩
    · obtain ⟨s, hs, hsame⟩ := ih h₂ r hr
      exact ⟨s, List.mem_append_right _ hs, hsame⟩

theorem isEmpty_of_ofItems (h : ofItems xs = .ok l) :
    l.isEmpty = true ↔ ∀ item ∈ xs, Silent item := by
  induction xs generalizing l with
  | nil =>
    cases h
    simp [isEmpty]
  | cons item xs ih =>
    obtain ⟨l₁, l₂, h₁, h₂, rfl⟩ := ofItems_cons_ok_iff.mp h
    rw [isEmpty_append, isEmpty_iff_silent h₁, ih h₂, List.forall_mem_cons]

/-! ## Documents -/

/-- The document with a list of items. -/
def listed (items : List Value) : Value :=
  .object [("nftables", .list items)]

@[simp] theorem ofDocument_listed (items : List Value) :
    ofDocument (listed items) = ofItems items := rfl

/-- **Composition.**  The items of a document are read one after the other, and each for itself.

* Two lists of items in one document are read if each of them is in a document of its own, and then
  give the records of the first and the records of the second, kind by kind.
* A document is not read because of its first item that is no record, with the error of that item.
* Items that are no objects, are about the listing or name no kind of record make no difference,
  wherever they stand.
* A set or map with attributes is one record wherever it stands, and there is one record for each of
  its elements, in their order and with the family, the table and the name of the set.  So every
  element is listed with the set that it is in.
* Nothing is listed if and only if there is nothing to list in any item. -/
theorem listing_composes :
    (∀ xs ys l, ofDocument (listed (xs ++ ys)) = .ok l ↔
      ∃ l₁ l₂, ofDocument (listed xs) = .ok l₁ ∧ ofDocument (listed ys) = .ok l₂ ∧
        l.tables = l₁.tables ++ l₂.tables ∧ l.chains = l₁.chains ++ l₂.chains ∧
        l.rules = l₁.rules ++ l₂.rules ∧ l.sets = l₁.sets ++ l₂.sets ∧
        l.elements = l₁.elements ++ l₂.elements) ∧
    (∀ xs e, ofDocument (listed xs) = .error e ↔
      ∃ before item after, xs = before ++ item :: after ∧
        (∃ l, ofDocument (listed before) = .ok l) ∧ ofDocument (listed [item]) = .error e) ∧
    (∀ xs item ys, PassedOver item →
      ofDocument (listed (xs ++ item :: ys)) = ofDocument (listed (xs ++ ys))) ∧
    (∀ xs item ys v l, ListsSet item v → v.truthy = true →
      ofDocument (listed (xs ++ item :: ys)) = .ok l →
      ∃ l₁ l₂ s vs rs, ofDocument (listed xs) = .ok l₁ ∧ ofDocument (listed ys) = .ok l₂ ∧
        l.sets = l₁.sets ++ s :: l₂.sets ∧ l.elements = l₁.elements ++ rs ++ l₂.elements ∧
        v.get "family" = .ok s.family ∧ v.get "table" = .ok s.table ∧ v.get "name" = .ok s.name ∧
        HasElements v vs ∧ List.Forall₂ (Records s) vs rs) ∧
    ∀ xs l, ofDocument (listed xs) = .ok l →
      (∀ r ∈ l.elements, ∃ s ∈ l.sets,
        r.family = s.family ∧ r.table = s.table ∧ r.set = s.name) ∧
      (l.isEmpty = false ↔ l.tables ≠ [] ∨ l.chains ≠ [] ∨ l.rules ≠ [] ∨ l.sets ≠ [] ∨
        l.elements ≠ []) ∧
      (l.isEmpty = true ↔ ∀ item ∈ xs, Silent item) := by
  simp only [ofDocument_listed]
  refine ⟨fun xs ys l ↦ ?_, fun xs e ↦ ?_, fun xs item ys h ↦ ?_, fun xs item ys v l hset hv h ↦ ?_,
    fun xs l h ↦ ⟨housed_of_ofItems h, ?_, isEmpty_of_ofItems h⟩⟩
  · rw [ofItems_append_ok_iff]
    simp only [eq_append_iff, eq_comm (b := l)]
  · simp only [ofItems_singleton, ofItems_error_iff]
  · exact ofItems_insert_passedOver h
  · obtain ⟨l₁, _, h₁, hrest, rfl⟩ := ofItems_append_ok_iff.mp h
    obtain ⟨l₀, l₂, h₀, h₂, rfl⟩ := ofItems_cons_ok_iff.mp hrest
    rw [ofItem_of_listsSet hset] at h₀
    obtain ⟨s, vs, rs, rfl, hfamily, htable, hname, helements, hrecords⟩ := set_ok hv h₀
    refine ⟨l₁, l₂, s, vs, rs, h₁, h₂, rfl, ?_, hfamily, htable, hname, helements, hrecords⟩
    simp only [append_def, List.append_assoc]
  · simp only [isEmpty, Bool.and_eq_false_iff, List.isEmpty_eq_false_iff, or_assoc]

/-- What is said about a listing. -/
def about : Value :=
  .object [("metainfo", .object [("json_schema_version", .int 1)])]

/-- The attributes of a set of two ports, of which one is listed with an option. -/
def ports : Value :=
  .object [("family", .str "inet"), ("name", .str "ports"), ("table", .str "filter"),
    ("elem", .list
      [.int 22, .object [("elem", .object [("val", .int 80), ("timeout", .int 30)])]])]

/-- Both ports are listed after the chain, whatever is said about the listing in between. -/
theorem listing_composes_ports :
    let chain := Value.object [("chain", .object
      [("family", .str "inet"), ("table", .str "filter"), ("name", .str "input")])]
    let set := Value.object [("set", ports)]
    ∃ l s vs, ofDocument (listed [chain, about, set]) = .ok l ∧ l.isEmpty = false ∧
      l.sets = [s] ∧ s.name = .str "ports" ∧ HasElements ports vs ∧ vs.length = 2 ∧
      List.Forall₂ (Records s) vs l.elements := by
  intro chain set
  obtain ⟨-, -, hpassed, hset, hall⟩ := listing_composes
  have habout : PassedOver about := .aboutListing (by decide)
  have hports : ListsSet set ports := .intro (by decide) (.inl rfl)
  obtain ⟨l, hl⟩ : ∃ l, ofDocument (listed [chain, set]) = .ok l := ⟨_, rfl⟩
  obtain ⟨l₁, l₂, s, vs, rs, h₁, h₂, hsets, helements, -, -, hname, hvs, hrecords⟩ :=
    hset [chain] set [] ports l hports rfl hl
  cases h₁
  cases h₂
  have helements : l.elements = rs := helements.trans (List.append_nil rs)
  have hlength : vs.length = 2 := by
    cases hl
    exact hrecords.length_eq.trans (congrArg List.length helements.symm)
  refine ⟨l, s, vs, (hpassed [chain] about [set] habout).trans hl, ?_, hsets,
    (Except.ok.inj hname).symm, hvs, hlength, ?_⟩
  · exact (hall _ l hl).2.1.mpr (.inr (.inr (.inr (.inl (by simp [hsets])))))
  · rwa [helements]

end Listing
end Nftables
