import Nftables.Proofs.Plan.Lines
import Nftables.Proofs.Spec.Plain
import Nftables.Proofs.Transaction.WellFormed
import Nftables.Query

/-!
# Plans of transactions

A plan is read before its transaction is sent.  A transaction has one if all that is to be shown of it
can be written, unless it has a query that somebody made up, and no value adds a line to it.  Names
are shown as they are, and a name that has a line feed does add one.
-/

namespace Nftables

open Text (PrintableAscii)

/-! ## Keys and statements -/

namespace Layout

variable {l : Layout} {f : Field} {kind : ObjectKind} {verb : Verb}

theorem printableAscii_of_mem_keys {key : String} (hl : l ∈ kind.layouts verb)
    (hk : key ∈ l.map Field.key) : ∀ c ∈ key.toList, PrintableAscii c := by
  have hall : ∀ l ∈ kind.layouts verb, ∀ key ∈ l.map Field.key,
      key.toList.all (PrintableAscii ·) = true := by
    cases kind <;> cases verb <;> decide
  exact Text.printableAscii_of_all (hall l hl key hk)

/-- The statements of a rule are listed. -/
theorem listed_of_mem_layouts (hl : l ∈ kind.layouts verb) (hf : f ∈ l) (hkey : f.key = "expr")
    {v : Value} (hv : f.admits v) : ∃ vs, v = .list vs := by
  have hall : ∀ l ∈ kind.layouts verb, ∀ f ∈ l, f.key = "expr" →
      ∀ v, f.admits v → v.IsListOf Value.IsObject := by
    cases kind <;> cases verb <;>
      simp +contextual [ObjectKind.layouts, ObjectKind.nameKey, identity, details, base, devices,
        content, elements, limits, flags, elementType, flowtable, ingress, interfaces, Field.word,
        Field.name, Field.count, Field.integer, Field.truth, Field.maybe]
  obtain ⟨vs, rfl, -⟩ := hall l hl f hf hkey v hv
  exact ⟨vs, rfl⟩

/-- What an operation is about is said by texts. -/
theorem text_of_mem_layouts (hl : l ∈ kind.layouts verb) (hf : f ∈ l)
    (hkey : f.key ∈ Plan.scopeKeys) {v : Value} (hv : f.admits v) : v.IsText := by
  have hall : ∀ l ∈ kind.layouts verb, ∀ f ∈ l, f.key ∈ Plan.scopeKeys →
      ∀ v, f.admits v → v.IsName ∨ v.IsWord Family := by
    cases kind <;> cases verb <;>
      simp +contextual [ObjectKind.layouts, ObjectKind.nameKey, identity, details, base, devices,
        content, elements, limits, flags, elementType, flowtable, ingress, interfaces, Field.word,
        Field.name, Field.count, Field.integer, Field.truth, Field.maybe, Plan.scopeKeys]
  rcases hall l hl f hf hkey v hv with ⟨s, -, rfl⟩ | ⟨a, rfl⟩
  · exact ⟨s, rfl⟩
  · exact ⟨_, rfl⟩

end Layout

namespace Query

variable {c : Call} {o : Operation}

theorem keys_scope {family : Value} {restriction : Attributes}
    (h : scope family = .ok restriction) : ∀ e ∈ restriction, e.1 ∈ Plan.scopeKeys := by
  unfold scope at h
  split at h
  · cases h
    exact fun _ he ↦ absurd he List.not_mem_nil
  · obtain ⟨f, -, h⟩ := bind_ok_iff.mp h
    cases h
    exact List.forall_mem_singleton.mpr List.mem_cons_self

/-- A query says its family and names, and no more. -/
theorem keys_ofCall (h : ofCall c = .ok o) : ∀ e ∈ o.given, e.1 ∈ Plan.scopeKeys := by
  unfold ofCall at h
  simp only at h
  split at h
  case h_8 => cases h
  all_goals
    obtain ⟨arguments, -, h⟩ := bind_ok_iff.mp h
    split at h
    case h_2 => cases h
    obtain ⟨restriction, hscope, ⟨⟩⟩ := bind_ok_iff.mp (liftM_argument_ok_iff.mp h)
    have hkeys := keys_scope hscope
  · exact hkeys
  · exact hkeys
  · exact hkeys
  · exact hkeys
  · exact List.forall_mem_append.mpr ⟨hkeys, by simp [Plan.scopeKeys]⟩
  · exact List.forall_mem_append.mpr ⟨hkeys, by simp [Plan.scopeKeys]⟩
  · exact List.forall_mem_append.mpr ⟨hkeys, by simp [Plan.scopeKeys]⟩

end Query

namespace Operation

variable {o : Operation}

theorem mem_given {key : String} (hv : o.value key ≠ .null) :
    ∃ e ∈ o.given, e.1 = key ∧ e.2 = o.value key := by
  rw [value, ← lookup_given] at hv ⊢
  cases hlookup : Value.lookup key o.given with
  | none => simp [hlookup] at hv
  | some v => exact ⟨(key, v), Value.mem_of_lookup hlookup, rfl, rfl⟩

theorem exists_field_of_mem_given (h : o.WellFormed) {e : String × Value} (he : e ∈ o.given) :
    ∃ l ∈ o.kind.layouts o.verb, ∃ f ∈ l, f.key = e.1 ∧ f.admits e.2 := by
  obtain ⟨-, hfits⟩ := h
  unfold given at he
  cases has : o.attributes with
  | none => simp [has] at he
  | some as =>
    rw [has] at hfits he
    obtain ⟨l, hl, hfits⟩ := hfits
    exact ⟨l, hl, hfits.exists_field he⟩

/-- An operation as it can come about: one that is well formed, or a query that can be asked for. -/
def Made (o : Operation) : Prop :=
  o.WellFormed ∨ ∃ call, Query.ofCall call = .ok o

/-- The statements of an operation can be listed, if there are any. -/
theorem Made.listed (h : o.Made) : o.Listed := by
  by_cases hnull : o.value "expr" = .null
  · exact .inl hnull
  · obtain ⟨e, he, hkey, hv⟩ := mem_given hnull
    rcases h with h | ⟨call, h⟩
    · obtain ⟨l, hl, f, hf, hfkey, hadmits⟩ := exists_field_of_mem_given h he
      obtain ⟨vs, hvs⟩ := Layout.listed_of_mem_layouts hl hf (hfkey.trans hkey) hadmits
      exact .inr ⟨vs, by rw [← hv, hvs]; rfl⟩
    · have hscope := Query.keys_ofCall h e he
      rw [hkey] at hscope
      exact absurd hscope (by decide)

/-- What a well-formed operation is about can be told. -/
theorem WellFormed.named (h : o.WellFormed) : o.Named := by
  intro key hkey v hv
  rw [← lookup_given] at hv
  obtain ⟨l, hl, f, hf, rfl, hadmits⟩ := exists_field_of_mem_given h (Value.mem_of_lookup hv)
  obtain ⟨s, rfl⟩ := Layout.text_of_mem_layouts hl hf hkey hadmits
  rfl

/-- Besides the names of an operation, nothing that is shown as it is can break a line. -/
theorem Made.mem_rawTexts (h : o.Made) {raw : List Char} (hraw : raw ∈ o.rawTexts) :
    raw ∈ o.names ∨ ∀ c ∈ raw, PrintableAscii c := by
  rcases List.mem_append.mp hraw with hraw | hraw
  · exact .inl hraw
  obtain ⟨e, he, rfl⟩ := List.mem_map.mp hraw
  obtain ⟨he, hkey⟩ := List.mem_filter.mp he
  rcases h with h | ⟨call, h⟩
  · obtain ⟨l, hl, f, hf, hfkey, -⟩ := exists_field_of_mem_given h he
    exact .inr (Layout.printableAscii_of_mem_keys hl (List.mem_map.mpr ⟨f, hf, hfkey⟩))
  · have hscope := Query.keys_ofCall h e he
    simp_all [Plan.scopeKeys]

end Operation

namespace Transaction

variable {t : Transaction} {c : Context} {calls : List Call}

theorem render_toDocument_iff {room : Nat} (h : run { context := c } calls = .ok t) :
    (∃ text, Plan.render room t.toDocument = .ok text) ↔
      (∀ o ∈ t.operations, o.Written room) ∧
        ∀ o ∈ t.operations, o.verb = .list → o.Named ∧ o.Listed := by
  simp only [toDocument, Plan.render_document_ok_iff, exists_and_left, exists_eq', and_true]
  constructor
  · exact fun hall ↦ ⟨fun o ho ↦ (hall o ho).2.2, fun o ho _ ↦ ⟨(hall o ho).1, (hall o ho).2.1⟩⟩
  · rintro ⟨hwritten, hqueries⟩ o ho
    by_cases hv : o.verb = .list
    · exact ⟨(hqueries o ho hv).1, (hqueries o ho hv).2, hwritten o ho⟩
    · have hformed := (operations_wellFormed h ho hv).1
      exact ⟨hformed.named, Operation.Made.listed (.inl hformed), hwritten o ho⟩

/-- **Plans show their operations.**  A transaction has a plan if and only if the attributes and the
statements of its operations can be written, and of a query also what it is about and its statements
can be told.  The plan shows the operations.  If the queries are ones that can be asked for, their
statements can be told, and the plan has a line for each thing that it shows and no other exactly if
no name has a line feed. -/
theorem plan_shows (room : Nat) (h : run { context := c } calls = .ok t) :
    ((∃ text, Plan.render room t.toDocument = .ok text) ↔
      (∀ o ∈ t.operations, o.Written room) ∧
        ∀ o ∈ t.operations, o.verb = .list → o.Named ∧ o.Listed) ∧
    (∀ text, Plan.render room t.toDocument = .ok text → Plan.Shows text t.operations) ∧
    ((∀ o ∈ t.operations, o.verb = .list → ∃ call, Query.ofCall call = .ok o) →
      ((∃ text, Plan.render room t.toDocument = .ok text) ↔
        (∀ o ∈ t.operations, o.Written room) ∧ ∀ o ∈ t.operations, o.verb = .list → o.Named) ∧
      ∀ text, Plan.render room t.toDocument = .ok text →
        (text.countP (· == '\n') = 1 + (t.operations.map Operation.lineCount).sum ↔
          ∀ o ∈ t.operations, ∀ name ∈ o.names, '\n' ∉ name)) := by
  refine ⟨render_toDocument_iff h, fun _ ↦ Plan.shows_of_render, fun hqueries ↦ ?_⟩
  have hmade : ∀ o ∈ t.operations, o.Made := by
    intro o ho
    by_cases hv : o.verb = .list
    · exact .inr (hqueries o ho hv)
    · exact .inl (operations_wellFormed h ho hv).1
  refine ⟨(render_toDocument_iff h).trans (and_congr_right fun _ ↦ forall₂_congr fun o ho ↦ ?_),
    fun text htext ↦ ?_⟩
  · exact forall_congr' fun _ ↦ and_iff_left (hmade o ho).listed
  · have hshows : Plan.Shows text t.operations := Plan.shows_of_render htext
    refine hshows.countP_eq_iff.trans (forall₂_congr fun o ho ↦ ⟨?_, ?_⟩)
    · exact fun hraw name hname ↦ hraw name (List.mem_append_left _ hname)
    · intro hnames raw hraw
      rcases (hmade o ho).mem_rawTexts hraw with hname | hprintable
      · exact hnames raw hname
      · exact fun hfeed ↦ absurd (hprintable '\n' hfeed) (by decide)

/-- A query, a table with a chain, and a rule whose comment has a line feed and looks like an
operation. -/
def commentedRule : List Call :=
  [.list [{ verb := .list, kind := .tables, attributes := some [] }],
    .apply .add (.table { name := .str "filter" }),
    .apply .add (.chain { name := .str "input" }),
    .apply .add (.rule
      { body := .value (.list [.object [("counter", .null)], .object [("accept", .null)]]),
        comment := .str "x\n  5. flush ruleset" })]

/-- The comment is on a line of its own, and so are the two statements. -/
theorem plan_shows_commentedRule :
    ∃ t text, run {} commentedRule = .ok t ∧ Plan.render 2 t.toDocument = .ok text ∧
      Plan.Shows text t.operations ∧ text.countP (· == '\n') = 8 := by
  have h : run {} commentedRule = .ok _ := rfl
  obtain ⟨-, hshows, hcount⟩ := plan_shows 2 h
  simp only [List.cons_append, List.nil_append, List.forall_mem_cons] at hcount
  -- The first operation is the query; no other one is.
  obtain ⟨hplan, hcount⟩ := hcount ⟨fun _ ↦ ⟨⟨"list_tables", [], []⟩, rfl⟩, by simp⟩
  have hnamed {kind : ObjectKind} : Operation.Named ⟨.list, kind, some []⟩ :=
    fun _ _ _ h ↦ absurd h (by simp [Operation.attribute?, Value.lookup])
  obtain ⟨text, htext⟩ := hplan.mpr ⟨by decide +kernel, fun _ ↦ hnamed, by simp⟩
  exact ⟨_, text, h, htext, hshows text htext, (hcount text htext).mpr (by decide +kernel)⟩

/-- A table whose name has a line feed and looks like an operation. -/
def forgedTable : Spec := .table { name := .str "t\n  2. flush ruleset" }

/-- A single operation has a plan of what seem to be two. -/
theorem name_adds_line :
    ∃ t text, run {} [.apply .add forgedTable] = .ok t ∧ Plan.render 2 t.toDocument = .ok text ∧
      text = "1 operation(s)\n  1. add table inet t\n  2. flush ruleset\n".toList ∧
      text.countP (· == '\n') = 3 ∧ 1 + (t.operations.map Operation.lineCount).sum = 2 := by
  refine ⟨_, "1 operation(s)\n  1. add table inet t\n  2. flush ruleset\n".toList, rfl, ?_⟩
  decide +kernel

end Transaction
end Nftables
