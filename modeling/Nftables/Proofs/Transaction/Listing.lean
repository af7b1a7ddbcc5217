import Nftables.Proofs.Expr.Ports
import Nftables.Proofs.Operation.Listing
import Nftables.Proofs.Transaction.WellFormed
import Nftables.Proofs.Value.Entries

/-!
# Transactions as listings

What a transaction changes can be written down as a listing, with the objects of its operations for
the objects that there are.  It is read without an error, and what is read are the attributes that
the operations captured.
-/

namespace Nftables

namespace RuleSpec

variable {s : RuleSpec} {verb : Verb} {c : Context} {as : Attributes} {e : Expr}

/-- What says where a rule is says nothing of what the rule does. -/
theorem expr_notMem_position (h : s.position verb = .ok as) : "expr" ∉ as.map Prod.fst := by
  have hkeys {l : Layout} (hl : "expr" ∉ l.map Field.key) (hfits : Layout.Fits l as) :
      "expr" ∉ as.map Prod.fst :=
    fun hk ↦ hl (hfits.sublist.subset hk)
  cases verb with
  | delete => exact hkeys (by decide) (Layout.fits_handle (.inl rfl) h)
  | replace => exact hkeys (by decide) (Layout.fits_handle (.inr rfl) h)
  | insert =>
    rcases Layout.fits_insert h with hfits | hfits
    · exact hkeys (by decide) hfits
    · exact hkeys (by decide) hfits
  | add | flush | rename | list =>
    cases h
    decide

/-- A rule whose body is an expression captures the statements of the expression. -/
theorem lookup_expr (h : s.attributes verb c = .ok as) (hv : verb ≠ .delete)
    (hbody : s.body = .expr e) : Value.lookup "expr" as = some (.list e.toList) := by
  simp only [attributes, scope, if_neg hv, bind_ok_iff, liftM_argument_ok_iff, pure_ok_iff] at h
  obtain ⟨_, ⟨_, -, _, -, rfl⟩, _, -, position, hposition, content, hcontent, rfl⟩ := h
  have hcontent : Value.lookup "expr" content = some (.list e.toList) := by
    rw [RuleSpec.content, hbody] at hcontent
    simp only [RuleBody.isNull, RuleBody.statements] at hcontent
    cases hcontent
    rfl
  have hrest : Value.lookup "expr" (position ++ content) = some (.list e.toList) :=
    (Value.lookup_append_of_notMem (expr_notMem_position hposition)).trans hcontent
  exact hrest

end RuleSpec

namespace Transaction

variable {t t' : Transaction} {calls : List Call}

/-- The operations of a transaction that change something. -/
def changes (t : Transaction) : List Operation :=
  t.operations.filter (·.verb ≠ .list)

/-- The objects that a transaction changes, as a listing. -/
def changed (t : Transaction) : Value :=
  Term.single "nftables" (.list (t.changes.map Operation.item))

theorem wellFormed_of_run {c : Context} (h : run { context := c } calls = .ok t) :
    ∀ o ∈ t.changes, o.WellFormed := by
  have hstart : WellFormed { context := c } := fun _ ho ↦ absurd ho List.not_mem_nil
  have hwell : t.WellFormed := run_induction (fun _ _ _ ↦ wellFormed_of_perform) hstart h
  intro o ho
  obtain ⟨hmem, hv⟩ := List.mem_filter.mp ho
  exact hwell o hmem (by simpa using hv)

/-- No call takes back an operation. -/
theorem operations_prefix_of_run (h : t.run calls = .ok t') : t.operations <+: t'.operations := by
  refine run_induction (P := fun t' ↦ t.operations <+: t'.operations) (fun t₁ call t₂ ht h ↦ ?_)
    (List.prefix_refl _) h
  refine ht.trans ?_
  cases call with
  | apply verb s =>
    obtain ⟨os, -, heq, -, -⟩ := apply_ok h
    exact heq ▸ List.prefix_append _ _
  | withContext changes =>
    have heq : t₂.operations = t₁.operations :=
      operations_of_withContext (liftM_argument_ok_iff.mp h)
    exact heq ▸ List.prefix_refl _
  | list queries =>
    obtain ⟨-, rfl⟩ := list_ok (liftM_argument_ok_iff.mp h)
    exact List.prefix_append _ _

theorem ne_list_of_admitted {kind : ObjectKind} {verb : Verb} (h : verb ∈ kind.verbs) :
    verb ≠ .list := by
  rintro rfl
  cases kind <;> simp [ObjectKind.verbs] at h

/-- What a spec stands for is captured, object by object. -/
theorem exists_change {c : Context} {before rest : List Call} {verb : Verb} {s s' : Spec}
    (h : run { context := c } (before ++ .apply verb s :: rest) = .ok t) (hs : s' ∈ expand s) :
    ∃ o ∈ t.changes, ∃ c', operation verb c' s' = .ok o := by
  rw [run, List.foldlM_append, bind_ok_iff] at h
  obtain ⟨t₁, -, h⟩ := h
  rw [List.foldlM_cons, bind_ok_iff] at h
  obtain ⟨t₂, happly, hrest⟩ := h
  obtain ⟨hv, -, os, c', hos, -, rfl⟩ := apply_ok_iff.mp happly
  obtain ⟨o, ho, hcaptured⟩ := exists_ok_of_mem hos hs
  have hmem : o ∈ t.operations :=
    (operations_prefix_of_run hrest).subset (List.mem_append_right _ ho)
  have hlist : o.verb ≠ .list := (operation_ok hcaptured).1 ▸ ne_list_of_admitted hv
  exact ⟨o, List.mem_filter.mpr ⟨hmem, by simpa using hlist⟩, _, hcaptured⟩

/-- A span of ports that an expression asks for is listed with the rule that the expression is the
body of. -/
theorem exists_listedPorts {c : Context} {before rest : List Call} {verb : Verb} {s : Spec}
    {r : RuleSpec} {e e' : Expr} {moves : List Expr.Move} {side : Endpoint} {v : Value}
    {negated : Bool} {a b : Int}
    (h : run { context := c } (before ++ .apply verb s :: rest) = .ok t) (hverb : verb ≠ .delete)
    (hr : .rule r ∈ expand s) (hbody : r.body = .expr (e'.after moves))
    (he : e.require (.port side v negated) = .ok e') (hv : v.SpansPorts a b) :
    ∃ o ∈ t.changes, o.kind = .rule ∧
      o.attribute? "expr" = some (.list (e'.after moves).toList) ∧
      ∃ protocol statements, e.protocol = some protocol ∧
        o.ruleRecord.statements = .list statements ∧
        statements[e.fragments.length]? = some (Expr.listedPorts protocol side a b negated) := by
  obtain ⟨o, ho, _, hcaptured⟩ := exists_change h hr
  obtain ⟨-, hkind, hattributes⟩ := operation_ok hcaptured
  obtain ⟨as, has, hsome⟩ := map_ok_iff.mp hattributes
  have hexpr : o.attribute? "expr" = some (.list (e'.after moves).toList) := by
    rw [Operation.attribute?, ← hsome]
    exact RuleSpec.lookup_expr has hverb hbody
  obtain ⟨protocol, statements, hprotocol, hstatements, hport⟩ := Expr.listed_port hv he moves
  refine ⟨o, ho, hkind, hexpr, protocol, statements, hprotocol, ?_, hport⟩
  rw [Operation.ruleRecord, hexpr]
  exact hstatements

/-- **Transactions as listings.**  Along any calls, and from any context, what the operations of a
transaction change is read as a listing: one record for each operation on a table, a chain, a rule, a
set or a map, with what the operation captured, in the order of the operations, and nothing else.

No attribute of such an operation is lost for being written under a key that is not read.  A span of
ports that an expression asks for stands in the record of the rule as it was given. -/
theorem listing_of_changes {c : Context} (h : run { context := c } calls = .ok t) :
    Listing.ofDocument t.changed = .ok (Listing.ofOperations t.changes) ∧
    (∀ o ∈ t.changes, o.kind ∈ ObjectKind.listed → ∀ key v, o.attribute? key = some v →
      key ∈ o.kind.recordKeys ∨ key ∈ ObjectKind.unrecordedKeys) ∧
    ∀ (before rest : List Call) (verb : Verb) (s : Spec) (r : RuleSpec) (e e' : Expr)
      (moves : List Expr.Move) (side : Endpoint) (v : Value) (negated : Bool) (a b : Int),
      calls = before ++ .apply verb s :: rest → verb ≠ .delete → .rule r ∈ expand s →
      r.body = .expr (e'.after moves) → e.require (.port side v negated) = .ok e' →
      v.SpansPorts a b →
      ∃ o ∈ t.changes, o.kind = .rule ∧
        o.attribute? "expr" = some (.list (e'.after moves).toList) ∧
        ∃ protocol statements, e.protocol = some protocol ∧
          o.ruleRecord.statements = .list statements ∧
          statements[e.fragments.length]? =
            some (Expr.listedPorts protocol side a b negated) := by
  have hwell := wellFormed_of_run h
  refine ⟨Listing.ofItems_map_item hwell, fun o ho hkind _ _ ↦ (hwell o ho).key_of_attribute? hkind,
    fun before rest verb s r e e' moves side v negated a b hcalls hverb hr hbody he hv ↦ ?_⟩
  exact exists_listedPorts (hcalls ▸ h) hverb hr hbody he hv

/-- Packets over TCP. -/
def overTcp : Expr :=
  { family := .inet, protocol := some .tcp }

/-- Packets over TCP to one of the ten ports from 8000. -/
def toServers : Expr :=
  overTcp.push (.condition (Term.payload "tcp" (.str "dport"))
    (Term.range (.int 8000) (.int 8009)) Condition.equal)

/-- The rule that accepts these. -/
def acceptServers : RuleSpec :=
  { body := .expr (toServers.after [.call ⟨"accept", [], []⟩]), comment := .str "servers" }

/-- A base chain in a new table, and a rule in it. -/
def servers : List Call :=
  [.apply .add (.table { name := .str "filter" }),
    .apply .add (.chain { name := .str "input", hook := .str "input", policy := .str "drop" }),
    .apply .add (.rule acceptServers), .list [{ verb := .list, kind := .tables, attributes := none }]]

/-- The ten ports are listed as the ten ports that were asked for. -/
theorem listing_of_changes_servers :
    ∃ t, run {} servers = .ok t ∧
      Listing.ofDocument t.changed = .ok (Listing.ofOperations t.changes) ∧
      ∃ o ∈ t.changes, o.kind = .rule ∧ ∃ statements,
        o.ruleRecord.statements = .list statements ∧
        statements[0]? = some (Expr.listedPorts .tcp .destination 8000 8010 false) := by
  have hports : overTcp.require (.port .destination (.range 8000 8010 1) false) = .ok toServers :=
    rfl
  have hspan : (Value.range 8000 8010 1).SpansPorts 8000 8010 := .progression
  obtain ⟨t, hrun⟩ : ∃ t, run {} servers = .ok t := ⟨_, rfl⟩
  obtain ⟨hlisting, -, hlisted⟩ := listing_of_changes hrun
  obtain ⟨o, ho, hkind, -, protocol, statements, hprotocol, hstatements⟩ :=
    hlisted (servers.take 2) (servers.drop 3) .add (.rule acceptServers) acceptServers overTcp
      toServers [.call ⟨"accept", [], []⟩] _ _ _ _ _ rfl (by decide) (List.mem_singleton_self _)
      rfl hports hspan
  cases hprotocol
  exact ⟨t, hrun, hlisting, o, ho, hkind, statements, hstatements⟩

end Transaction
end Nftables
