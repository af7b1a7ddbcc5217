import Mathlib.Data.List.Induction
import Nftables.Proofs.Transaction.Run

/-!
# What is ambient

Operations and the context are moved on side by side.  Two things could be asked of the pair: that
the context after a call has the identity which the operations of the call captured, and that the
chain and the collection in it are in the table in it.  Neither is always so; what is proved here is
when they are.
-/

namespace Nftables

namespace Transaction

variable {t t' : Transaction} {verb : Verb} {s : Spec}

/-! ## Captured and ambient -/

/-- **Captured identity.**  After a call, each of the operations it added has captured a part of the
identity as the part is in the context, unless the spec says something empty of the part and the
context takes that over. -/
theorem captured_iff_ambient {calls : List Call} (ht : run {} calls = .ok t)
    (h : t.apply verb s = .ok t') :
    ∃ os, os ≠ [] ∧ t'.operations = t.operations ++ os ∧
      ∀ o ∈ os, ∀ p key, p.key? verb s.kind = some key →
        (o.attribute? key = some (t'.context.part p) ↔ (s.takenOver p).givenEmpty = false) := by
  obtain ⟨os, hos, heq, hcaptures⟩ := apply_captures (hasFamily_of_run ht) h
  exact ⟨os, hos, heq, fun o ho p key hk ↦ (hcaptures o ho).attribute?_eq_iff hk⟩

/-- The batch in which a chain is added to a table that is ambient, and captured as such. -/
theorem captured_iff_ambient_input :
    ∃ t t', run {} [.apply .add (.table { name := .str "filter" })] = .ok t ∧
      t.apply .add (.chain { name := .str "input" }) = .ok t' ∧
      ∃ os, os ≠ [] ∧ t'.operations = t.operations ++ os ∧
        ∀ o ∈ os, ∀ p key, p.key? .add .chain = some key →
          (o.attribute? key = some (t'.context.part p) ↔
            ((Spec.chain { name := .str "input" }).takenOver p).givenEmpty = false) :=
  ⟨_, _, rfl, rfl, @captured_iff_ambient _ _ .add (.chain { name := .str "input" })
    [.apply .add (.table { name := .str "filter" })] rfl rfl⟩

/-- A set is added to the ambient table if the spec says the empty text, but the empty text is then
ambient. -/
theorem empty_table_is_ambient :
    ∃ t t' o, run {} [.apply .add (.table { name := .str "filter" })] = .ok t ∧
      t.apply .add (.set { name := .str "peers", table := .str "", type := .str "ipv4_addr" }) =
        .ok t' ∧
      t'.operations = t.operations ++ [o] ∧ o.attribute? "table" = some (.str "filter") ∧
      t'.context.table = .str "" :=
  ⟨_, _, _, rfl, rfl, rfl, rfl, rfl⟩

/-! ## Chains and collections of the ambient table -/

/-- The parts that are in a table. -/
def inner : List IdentityPart := [.chain, .collection]

end Transaction

/-- The attributes by which operations on objects of a kind name a part. -/
def IdentityPart.keys (kind : ObjectKind) : IdentityPart → List String
  | .chain =>
    match kind with
    | .chain => ["name", "newname"]
    | .rule => ["chain"]
    | _ => []
  | .collection =>
    match kind with
    | .set | .map | .element => ["name"]
    | _ => []
  | _ => []

/-- An operation names the part `n` of a table. -/
def Operation.Names (o : Operation) (p : IdentityPart) (family table : Value) (n : String) : Prop :=
  o.attribute? "family" = some family ∧ o.attribute? "table" = some table ∧
    ∃ key ∈ p.keys o.kind, o.attribute? key = some (.str n)

namespace Transaction

/-- What chain and what collection are ambient, some operation has named in the ambient table. -/
def Named (t : Transaction) : Prop :=
  ∀ p ∈ inner, ∀ n, n ≠ "" → t.context.part p = .str n →
    ∃ o ∈ t.operations, o.Names p t.context.family t.context.table n

/-- A call on a spec leaves the ambient chain or collection `p` behind in another table: either what
it is about has no such part and is in another table, in which nothing has named the part, or what
it is about has one, but the table that it says is empty. -/
def Strays (p : IdentityPart) (t : Transaction) (s : Spec) (t' : Transaction) : Prop :=
  ∃ n, n ≠ "" ∧ t'.context.part p = .str n ∧
    (p.keys s.kind = [] ∧
        ¬(t'.context.family = t.context.family ∧ t'.context.table = t.context.table) ∧
        (∀ o ∈ t.operations, ¬o.Names p t'.context.family t'.context.table n) ∨
      p.keys s.kind ≠ [] ∧ s.table?.givenEmpty = true)

/-- Operations are on objects in tables that have names. -/
def TablesNamed (t : Transaction) : Prop :=
  ∀ o ∈ t.operations, ∀ v, o.attribute? "table" = some v → ∃ n, n ≠ "" ∧ v = .str n

variable {p : IdentityPart} {kind : ObjectKind} {key n : String}

theorem key?_eq_none_iff (hp : p ∈ inner) : p.key? verb kind = none ↔ p.keys kind = [] := by
  rcases List.mem_pair.mp hp with rfl | rfl <;> cases kind <;>
    simp [IdentityPart.key?, IdentityPart.keys]

/-- What captures a part names it. -/
theorem mem_keys (hp : p ∈ inner) (hk : p.key? verb kind = some key) : key ∈ p.keys kind := by
  rcases List.mem_pair.mp hp with rfl | rfl
  · cases kind with
    | chain =>
      cases hk
      by_cases hv : verb = .rename <;> simp [IdentityPart.keys, hv]
    | rule =>
      cases hk
      exact List.mem_singleton_self _
    | _ => cases hk
  · cases kind with
    | set | map | element =>
      cases hk
      exact List.mem_singleton_self _
    | _ => cases hk

/-- What is in a table captures its family and its table. -/
theorem key?_of_inner (hp : p ∈ inner) (hk : p.key? verb kind = some key) :
    IdentityPart.key? verb kind .family = some "family" ∧
      IdentityPart.key? verb kind .table = some "table" := by
  rcases List.mem_pair.mp hp with rfl | rfl <;> cases kind <;>
    first | exact ⟨rfl, rfl⟩ | cases hk

theorem tablesNamed_of_apply (ht : TablesNamed t) (h : t.apply verb s = .ok t') :
    TablesNamed t' := by
  obtain ⟨os, -, heq, -, hcaptured⟩ := apply_ok h
  intro o ho v hv
  rw [heq, List.mem_append] at ho
  rcases ho with ho | ho
  · exact ht o ho v hv
  · obtain ⟨s', -, ho⟩ := hcaptured o ho
    exact Spec.table_of_attributes (operation_ok ho).2.2 hv

/-- A call that does not stray names what is ambient after it, if it was named before. -/
theorem named_of_not_strays (hf : t.context.HasFamily) (ht : Named t)
    (h : t.apply verb s = .ok t') (hs : ∀ p ∈ inner, ¬Strays p t s t') : Named t' := by
  intro p hp n hn hpart
  obtain ⟨os, hos, heq, hcaptures⟩ := apply_captures hf h
  cases hk : p.key? verb s.kind with
  | none =>
    -- nothing that is added names the part: it has to be where it was, or named there before
    have hkeys := (key?_eq_none_iff hp).mp hk
    obtain ⟨_, -, -, hadvance, -⟩ := apply_ok h
    have hkept : t.context.part p = .str n := by
      rcases Spec.part_of_advance_of_key?_eq_none hf hadvance hk with h | h
      · rw [← h, hpart]
      · rw [h] at hpart
        cases hpart
    by_cases hsame : t'.context.family = t.context.family ∧ t'.context.table = t.context.table
    · obtain ⟨o, ho, hnames⟩ := ht p hp n hn hkept
      rw [heq, hsame.1, hsame.2]
      exact ⟨o, List.mem_append_left _ ho, hnames⟩
    · refine Classical.byContradiction fun hno ↦ hs p hp ⟨n, hn, hpart, .inl ⟨hkeys, hsame, ?_⟩⟩
      exact fun o ho hnames ↦ hno ⟨o, heq ▸ List.mem_append_left _ ho, hnames⟩
  | some key =>
    -- each operation that is added names the part, in what becomes the ambient table
    have hkeys : p.keys s.kind ≠ [] := fun hnil ↦ by
      rw [(key?_eq_none_iff hp).mpr hnil] at hk
      cases hk
    obtain ⟨o, ho⟩ := List.exists_mem_of_ne_nil os hos
    obtain ⟨hfamily, htable⟩ := key?_of_inner hp hk
    have hc := hcaptures o ho
    refine ⟨o, heq ▸ List.mem_append_right _ ho, (hc.attribute?_eq_iff hfamily).mpr rfl,
      (hc.attribute?_eq_iff htable).mpr ?_, key, ?_, ?_⟩
    · rw [← Bool.not_eq_true]
      exact fun he ↦ hs p hp ⟨n, hn, hpart, .inr ⟨hkeys, he⟩⟩
    · rw [hc.kind]
      exact mem_keys hp hk
    · rw [← hpart, hc.attribute?_eq_iff hk, ← Bool.not_eq_true]
      obtain ⟨m, hm, -, heq⟩ := hc.part p key hk
      intro he
      rw [if_pos he, hpart] at heq
      exact Value.ne_str_of_givenEmpty he hn heq.symm

/-- A call that strays leaves something behind. -/
theorem not_named_of_strays (hf : t.context.HasFamily) (htables : TablesNamed t)
    (h : t.apply verb s = .ok t') (hp : p ∈ inner) (hs : Strays p t s t') : ¬Named t' := by
  intro hnamed
  obtain ⟨n, hn, hpart, hs⟩ := hs
  obtain ⟨os, hos, heq, hcaptures⟩ := apply_captures hf h
  obtain ⟨o, ho, hnames⟩ := hnamed p hp n hn hpart
  rcases hs with ⟨hkeys, -, hno⟩ | ⟨hkeys, he⟩
  · rw [heq, List.mem_append] at ho
    rcases ho with ho | ho
    · exact hno o ho hnames
    · obtain ⟨-, -, key, hkey, -⟩ := hnames
      rw [(hcaptures o ho).kind, hkeys] at hkey
      cases hkey
  · obtain ⟨key, hk⟩ : ∃ key, p.key? verb s.kind = some key :=
      Option.ne_none_iff_exists'.mp fun hnone ↦ hkeys ((key?_eq_none_iff hp).mp hnone)
    obtain ⟨o', ho'⟩ := List.exists_mem_of_ne_nil os hos
    obtain ⟨_, -, -, htable⟩ := (hcaptures o' ho').part .table "table" (key?_of_inner hp hk).2
    obtain ⟨m, hm, heq⟩ := tablesNamed_of_apply htables h o ho _ hnames.2.1
    refine Value.ne_str_of_givenEmpty he hm ?_
    rw [← heq]
    exact (htable.trans (if_pos he)).symm

/-! ## Runs of verbs -/

/-- Applies verbs to specs one after another. -/
def build (calls : List (Verb × Spec)) : Except BuildError Transaction :=
  run {} (calls.map fun c ↦ .apply c.1 c.2)

theorem build_append_singleton {calls : List (Verb × Spec)} :
    build (calls ++ [(verb, s)]) = .ok t' ↔
      ∃ t, build calls = .ok t ∧ t.apply verb s = .ok t' := by
  rw [build, List.map_append, List.map_singleton, run_append_singleton]
  rfl

theorem tablesNamed_of_build {calls : List (Verb × Spec)} (h : build calls = .ok t) :
    TablesNamed t := by
  induction calls using List.reverseRecOn generalizing t with
  | nil =>
    cases h
    exact nofun
  | append_singleton calls call ih =>
    obtain ⟨t₁, h₁, h⟩ := build_append_singleton.mp h
    exact tablesNamed_of_apply (ih h₁) h

/-- A rule or element whose spec does not identify it goes to a chain or collection that has been
named in its table. -/
theorem lands (hf : t.context.HasFamily) (ht : Named t) (h : t.apply verb s = .ok t')
    (hp : p ∈ inner) (hk : p.key? verb s.kind = some key) (hs : ∀ q, s.said verb q = .null) :
    ∃ os, os ≠ [] ∧ t'.operations = t.operations ++ os ∧ ∀ o ∈ os, ∃ family table n,
      o.Names p family table n ∧ ∃ o' ∈ t.operations, o'.Names p family table n := by
  obtain ⟨os, hos, heq, hcaptures⟩ := apply_captures hf h
  refine ⟨os, hos, heq, fun o ho ↦ ?_⟩
  have hc := hcaptures o ho
  obtain ⟨hkf, hkt⟩ := key?_of_inner hp hk
  obtain ⟨f, hfamily, hlf, -⟩ := hc.part .family _ hkf
  obtain ⟨m, htable, hlm, -⟩ := hc.part .table _ hkt
  obtain ⟨n, hn, hln, -⟩ := hc.part p _ hk
  refine ⟨.str f, .str m, n, ⟨hlf, hlm, key, hc.kind ▸ mem_keys hp hk, hln⟩, ?_⟩
  have hfamily : t.context.family = .str f := Spec.part_of_resolves hf hfamily (hs _)
  have htable : t.context.table = .str m := Spec.part_of_resolves hf htable (hs _)
  rw [← hfamily, ← htable]
  exact ht p hp n hn.1 (Spec.part_of_resolves hf hn (hs _))

/-- All that is ambient on the way through calls is named in the ambient table just if none of the
calls strays. -/
theorem named_on_the_way_iff (calls : List (Verb × Spec)) :
    (∀ before t, before <+: calls → build before = .ok t → Named t) ↔
      ∀ before verb s t t', before ++ [(verb, s)] <+: calls → build before = .ok t →
        t.apply verb s = .ok t' → ∀ p ∈ inner, ¬Strays p t s t' := by
  constructor
  · intro h before verb s t t' hpre ht ht' p hp hs
    exact not_named_of_strays (hasFamily_of_run ht) (tablesNamed_of_build ht) ht' hp hs
      (h _ t' hpre (build_append_singleton.mpr ⟨t, ht, ht'⟩))
  · intro h before
    induction before using List.reverseRecOn with
    | nil =>
      intro t _ ht
      cases ht
      intro p hp n hn hpart
      rcases List.mem_pair.mp hp with rfl | rfl <;> cases hpart
    | append_singleton before call ih =>
      intro t' hpre ht'
      obtain ⟨t, ht, ht'⟩ := build_append_singleton.mp ht'
      have hnamed := ih t ((List.prefix_append before [call]).trans hpre) ht
      exact named_of_not_strays (hasFamily_of_run ht) hnamed ht'
        (h before call.1 call.2 t t' hpre ht ht')

/-- Where only specs of tables switch the table, and no spec says a family, what is ambient is
always named in the ambient table. -/
theorem named_of_build {calls : List (Verb × Spec)}
    (hcalls : ∀ c ∈ calls, c.2.family = .null ∧ c.2.table? = .null) (h : build calls = .ok t) :
    Named t := by
  refine (named_on_the_way_iff calls).mpr ?_ calls t (List.prefix_refl calls) h
  rintro before verb s t t' hpre ht ht' p hp ⟨n, -, hpart, ⟨-, hmoved, -⟩ | ⟨-, he⟩⟩
  · obtain ⟨hfamily, htable⟩ := hcalls (verb, s) (hpre.subset (by simp))
    obtain ⟨_, -, -, hadvance, -⟩ := apply_ok ht'
    rcases Spec.place_of_advance (hasFamily_of_run ht) hadvance hfamily htable with h | ⟨hc, hs⟩
    · exact hmoved h
    · rcases List.mem_pair.mp hp with rfl | rfl
      · cases hc.symm.trans hpart
      · cases hs.symm.trans hpart
  · obtain ⟨-, htable⟩ := hcalls (verb, s) (hpre.subset (by simp))
    have htable : s.table? = .null := htable
    rw [htable] at he
    cases he

/-- **Chains and collections of the ambient table.**  The ambient chain and the ambient collection
are named in the ambient table, after all of the calls that build a transaction, just if none of the
calls strays.  Where they are named, an operation whose spec does not identify anything goes to a
chain or collection that has been named in its table. -/
theorem named_iff_not_strays (calls : List (Verb × Spec)) :
    ((∀ before t, before <+: calls → build before = .ok t → Named t) ↔
      ∀ before verb s t t', before ++ [(verb, s)] <+: calls → build before = .ok t →
        t.apply verb s = .ok t' → ∀ p ∈ inner, ¬Strays p t s t') ∧
    ∀ t, build calls = .ok t → Named t → ∀ verb s t', t.apply verb s = .ok t' →
      (∀ q, s.said verb q = .null) → ∀ p ∈ inner, ∀ key, p.key? verb s.kind = some key →
        ∃ os, os ≠ [] ∧ t'.operations = t.operations ++ os ∧ ∀ o ∈ os, ∃ family table n,
          o.Names p family table n ∧ ∃ o' ∈ t.operations, o'.Names p family table n :=
  ⟨named_on_the_way_iff calls, fun _ ht hnamed _ _ _ h hs _ hp _ hk ↦
    lands (hasFamily_of_run ht) hnamed h hp hk hs⟩

/-- A chain in a new table. -/
def inputChain : List (Verb × Spec) :=
  [(.add, .table { name := .str "filter" }), (.add, .chain { name := .str "input" })]

/-- A rule that says no more than what it does. -/
def bareRule : Spec :=
  .rule { body := .value (.list [.object [("accept", .null)]]) }

/-- A rule that does not say where it belongs goes to the chain before it. -/
theorem named_iff_not_strays_bareRule :
    ∃ t t', build inputChain = .ok t ∧ t.apply .add bareRule = .ok t' ∧
      ∃ os, os ≠ [] ∧ t'.operations = t.operations ++ os ∧ ∀ o ∈ os, ∃ family table n,
        o.Names .chain family table n ∧ ∃ o' ∈ t.operations, o'.Names .chain family table n := by
  have hcalls : ∀ c ∈ inputChain, c.2.family = .null ∧ c.2.table? = .null := by
    simp [inputChain, Spec.family, Spec.table?]
  refine ⟨_, _, rfl, rfl, (named_iff_not_strays inputChain).2 _ rfl (named_of_build hcalls rfl)
    .add bareRule _ rfl ?_ .chain List.mem_cons_self "chain" rfl⟩
  intro q
  cases q <;> rfl

/-- A chain, and then a set in another table. -/
def peersElsewhere : List (Verb × Spec) :=
  inputChain ++
    [(.add, .set { name := .str "peers", table := .str "nat", type := .str "ipv4_addr" })]

/-- A set in another table leaves the ambient chain behind, and a rule after it goes to a chain that
nothing has named in that table. -/
theorem set_leaves_chain_behind :
    ∃ t t' o, build peersElsewhere = .ok t ∧ ¬Named t ∧
      t.apply .add bareRule = .ok t' ∧ t'.operations = t.operations ++ [o] ∧
      o.Names .chain (.str "inet") (.str "nat") "input" ∧
      ∀ o' ∈ t.operations, ¬o'.Names .chain (.str "inet") (.str "nat") "input" := by
  have hno : ∀ t, build peersElsewhere = .ok t →
      ∀ o' ∈ t.operations, ¬o'.Names .chain (.str "inet") (.str "nat") "input" := by
    intro t ht
    cases ht
    refine List.forall_mem_cons.mpr ⟨?table, List.forall_mem_cons.mpr ⟨?chain,
      List.forall_mem_singleton.mpr ?set⟩⟩
    case table =>
      rintro ⟨-, h, -⟩
      cases h
    case chain =>
      rintro ⟨-, h, -⟩
      exact absurd (Value.str.inj (Option.some.inj h)) (by decide)
    case set =>
      rintro ⟨-, -, key, h, -⟩
      cases h
  refine ⟨_, _, _, rfl, ?_, rfl, rfl, ⟨rfl, rfl, "chain", List.mem_cons_self, rfl⟩, hno _ rfl⟩
  intro hnamed
  obtain ⟨o, ho, hnames⟩ := hnamed .chain List.mem_cons_self "input" (by decide) rfl
  exact hno _ rfl o ho hnames

end Transaction
end Nftables
