import Nftables.Proofs.Transaction.Qualified

/-!
# Batches

A batch of rules is one call, which reads all rules in the context before it.  It says the same as
calls that add its rules one after another, each in the context that the last one left: both come to
the same operations and the same context, or are refused for what is wrong with the same rule.

What makes the two readings agree is that a context which was moved on by a rule is not moved any
further by it, and resolves its identity as before (`Context.Settles`).  An empty table or chain
would be the exception, since it is passed over when a rule is read and taken over afterwards.
-/

namespace Nftables

/-! ## Bodies of single rules -/

namespace RuleBody

/-- A sequence of bodies.  It is a list of values unless an expression stands in it. -/
inductive Lists : RuleBody → List RuleBody → Prop where
  | sequence (bodies : List RuleBody) : Lists (.sequence bodies) bodies
  | list (vs : List Value) : Lists (.value (.list vs)) (vs.map .value)
  | tuple (vs : List Value) : Lists (.value (.tuple vs)) (vs.map .value)

/-- The body of one rule: an expression, or a list of statements, valid or not.  A list of nothing
but such bodies would be a batch. -/
def IsRule (b : RuleBody) : Prop :=
  (∃ e, b = .expr e) ∨ ∃ ss, b.Lists ss ∧ (ss = [] ∨ ∃ s ∈ ss, s.isItem = false)

variable {b : RuleBody} {bodies : List RuleBody}

theorem items?_of_lists (h : b.Lists bodies) :
    b.items? = if !bodies.isEmpty && bodies.all isItem then some bodies else none := by
  cases h <;> rfl

theorem isItem_of_isRule (h : b.IsRule) : b.isItem = true := by
  obtain ⟨e, rfl⟩ | ⟨ss, hss, -⟩ := h
  · rfl
  · cases hss <;> rfl

theorem items?_of_isRule (h : b.IsRule) : b.items? = none := by
  obtain ⟨e, rfl⟩ | ⟨ss, hss, hnot⟩ := h
  · rfl
  · rw [items?_of_lists hss]
    obtain rfl | ⟨s, hs, hitem⟩ := hnot
    · rfl
    · rw [if_neg]
      intro hall
      have hs := List.all_eq_true.mp (Bool.and_eq_true_iff.mp hall).2 s hs
      exact absurd hs (by simp [hitem])

/-- Some rules make up a batch. -/
theorem items?_of_isRules (h : b.Lists bodies) (hne : bodies ≠ [])
    (hrules : ∀ body ∈ bodies, body.IsRule) : b.items? = some bodies := by
  have hall : bodies.all isItem = true :=
    List.all_eq_true.mpr fun body hbody ↦ isItem_of_isRule (hrules body hbody)
  rw [items?_of_lists h, hall]
  simp [hne]

end RuleBody

/-! ## Settled contexts -/

namespace Value

variable {v w : Value}

theorem orNull_orNull : v.orNull (v.orNull w) = v.orNull w := by
  cases h : v.isNull <;> simp [orNull, h]

/-- What is not given empty is read off what it was taken over by as before. -/
theorem orElse_orNull (h : v.givenEmpty = false) : v.orElse (v.orNull w) = v.orElse w := by
  cases hn : v.isNull with
  | true => simp [orNull, hn]
  | false =>
    have ht : v.truthy = true := by simpa [givenEmpty, hn] using h
    simp [orElse, ht]

end Value

namespace Context

variable {c c' : Context} {verb : Verb} {r : RuleSpec}

theorem nameOr_orNull {v w : Value} {what : String} {missing : ContextError}
    (h : v.givenEmpty = false) :
    nameOr v (v.orNull w) what missing = nameOr v w what missing := by
  rw [nameOr, nameOr, Value.orElse_orNull h]

/-- A rule does not move the second context, and has the same identity in it as in the first. -/
structure Settles (c c' : Context) (verb : Verb) (r : RuleSpec) : Prop where
  advance : c'.advance verb (.rule r) = .ok c'
  family : c'.familyOf (.rule r) = c.familyOf (.rule r)
  table : c'.tableOf (.rule r) = c.tableOf (.rule r)
  chain : c'.chainOf r = c.chainOf r

/-- After a rule the context has its family, and its table and chain if it says them. -/
theorem advance_rule_ok_iff : c.advance verb (.rule r) = .ok c' ↔
    (r.family = .null ∧ c'.family = c.family ∨
      r.family ≠ .null ∧ ∃ f, familyName r.family = .ok f ∧ c'.family = .str f) ∧
    c'.table = r.table.orNull c.table ∧ c'.chain = r.chain.orNull c.chain ∧
      c'.collection = c.collection := by
  have hfamily : (Spec.rule r).family = r.family := rfl
  have htable : (Spec.rule r).table? = r.table := rfl
  obtain ⟨family, table, chain, collection⟩ := c'
  simp only [advance, enter, hfamily, htable, bind_ok_iff, liftM_argument_ok_iff, pure_ok_iff]
  by_cases hn : r.family = .null
  · simp [hn, eq_comm]
  · have hn' : ¬ r.family.isNull = true := by simpa using hn
    simp only [if_neg hn', bind_ok_iff, Except.ok.injEq]
    constructor
    · rintro ⟨_, ⟨f, hf, rfl⟩, h⟩
      cases h
      exact ⟨.inr ⟨hn, f, hf, rfl⟩, rfl, rfl, rfl⟩
    · rintro ⟨⟨h, -⟩ | ⟨-, f, hf, rfl⟩, rfl, rfl, rfl⟩
      · exact absurd h hn
      · exact ⟨_, ⟨f, hf, rfl⟩, rfl⟩

theorem settles_of_advance (htable : r.table.givenEmpty = false)
    (hchain : r.chain.givenEmpty = false) (h : c.advance verb (.rule r) = .ok c') :
    Settles c c' verb r := by
  obtain ⟨hfamily, ht, hc, -⟩ := advance_rule_ok_iff.mp h
  constructor
  · refine advance_rule_ok_iff.mpr ⟨?_, ?_, ?_, rfl⟩
    · exact hfamily.imp (fun h ↦ ⟨h.1, rfl⟩) id
    · rw [ht, Value.orNull_orNull]
    · rw [hc, Value.orNull_orNull]
  · change familyName (r.family.orNull c'.family) = familyName (r.family.orNull c.family)
    obtain ⟨-, hf⟩ | ⟨hn, -⟩ := hfamily
    · rw [hf]
    · have hn' : ¬ r.family.isNull = true := by simpa using hn
      rw [Value.orNull, Value.orNull, if_neg hn', if_neg hn']
  · rw [tableOf, tableOf, ht]
    exact nameOr_orNull htable
  · rw [chainOf, chainOf, hc]
    exact nameOr_orNull hchain

/-- In a settled context a rule of the batch comes to the same operation. -/
theorem Settles.operation_eq (h : Settles c c' verb r) (body : RuleBody) :
    Transaction.operation verb c' (.rule { r with body }) =
      Transaction.operation verb c (.rule { r with body }) := by
  have hscope : scope c' (.rule { r with body }) = scope c (.rule { r with body }) := by
    have hf : c'.familyOf (.rule { r with body }) = c.familyOf (.rule { r with body }) := h.family
    have ht : c'.tableOf (.rule { r with body }) = c.tableOf (.rule { r with body }) := h.table
    simp only [scope, hf, ht]
  have hattributes : (Spec.rule { r with body }).attributes verb c' =
      (Spec.rule { r with body }).attributes verb c :=
    congrArg (some <$> ·) (Spec.eq_of_scope (s := .rule { r with body }) hscope h.chain)
  simp only [Transaction.operation, hattributes]

/-- A rule that has come to an operation moves the context on. -/
theorem exists_advance_rule {body : RuleBody} {o : Operation}
    (h : Transaction.operation verb c (.rule { r with body }) = .ok o) :
    ∃ c', c.advance verb (.rule r) = .ok c' := by
  obtain ⟨-, -, ha⟩ := Transaction.operation_ok h
  obtain ⟨f, -, -, hf, -⟩ := Spec.captured_of_attributes (by simp [Spec.kind])
    (by simp [Spec.kind]) ha
  by_cases hn : r.family = .null
  · exact ⟨⟨c.family, r.table.orNull c.table, r.chain.orNull c.chain, c.collection⟩,
      advance_rule_ok_iff.mpr ⟨.inl ⟨hn, rfl⟩, rfl, rfl, rfl⟩⟩
  · have hf : familyName (r.family.orNull c.family) = .ok f := hf
    rw [Value.orNull, if_neg (by simpa using hn)] at hf
    exact ⟨⟨.str f, r.table.orNull c.table, r.chain.orNull c.chain, c.collection⟩,
      advance_rule_ok_iff.mpr ⟨.inr ⟨hn, f, hf, rfl⟩, rfl, rfl, rfl⟩⟩

end Context

namespace Transaction

variable {t t' : Transaction} {verb : Verb} {r : RuleSpec} {bodies : List RuleBody}

/-! ## One call and many -/

/-- The calls that apply a verb to rules one after another.  But for their bodies the rules are the
same. -/
def singles (verb : Verb) (r : RuleSpec) (bodies : List RuleBody) : List Call :=
  bodies.map fun body ↦ .apply verb (.rule { r with body })

/-- Rules that are added or inserted are read first, and then the context is moved on. -/
theorem apply_rule (hverb : verb = .add ∨ verb = .insert) :
    t.apply verb (.rule r) = (do
      let os ← (expand (.rule r)).mapM (operation verb t.context)
      let c ← t.context.advance verb (.rule r)
      pure ⟨c, t.operations ++ os⟩) := by
  have hadmit : ObjectKind.admit (Spec.rule r).kind verb = .ok () := by
    rcases hverb with rfl | rfl <;> rfl
  have hbatch : ¬(1 < (expand (.rule r)).length ∧ verb ≠ .add ∧ verb ≠ .insert) := by
    rintro ⟨-, hadd, hinsert⟩
    exact hverb.elim hadd hinsert
  simp only [apply, hadmit, if_neg hbatch]
  rfl

theorem expand_of_isRule (h : r.body.IsRule) : expand (.rule r) = [.rule r] := by
  rw [expand, RuleBody.items?_of_isRule h]

theorem apply_batch (hverb : verb = .add ∨ verb = .insert) (hlists : r.body.Lists bodies)
    (hne : bodies ≠ []) (hrules : ∀ body ∈ bodies, body.IsRule) :
    t.apply verb (.rule r) = (do
      let os ← bodies.mapM fun body ↦ operation verb t.context (.rule { r with body })
      let c ← t.context.advance verb (.rule r)
      pure ⟨c, t.operations ++ os⟩) := by
  rw [apply_rule hverb, expand, RuleBody.items?_of_isRules hlists hne hrules]
  exact congrArg (· >>= _) List.mapM_map

theorem apply_single (hverb : verb = .add ∨ verb = .insert) (h : r.body.IsRule) :
    t.apply verb (.rule r) = (do
      let o ← operation verb t.context (.rule r)
      let c ← t.context.advance verb (.rule r)
      pure ⟨c, t.operations ++ [o]⟩) := by
  rw [apply_rule hverb, expand_of_isRule h]
  simp

/-- One operation before others, and the others after it. -/
theorem bind_append_cons (c : Context) (os : List Operation) (o : Operation)
    (x : Except BuildError (List Operation)) :
    (do
      let os' ← x
      pure (⟨c, os ++ [o] ++ os'⟩ : Transaction)) = (do
      let os' ← (do let os' ← x; pure (o :: os'))
      pure ⟨c, os ++ os'⟩) := by
  cases x with
  | error e => rfl
  | ok os' =>
    change Except.ok (Transaction.mk c (os ++ [o] ++ os')) = .ok ⟨c, os ++ o :: os'⟩
    rw [List.append_assoc, List.singleton_append]

/-- From a settled context on, all rules are read as in the context before it. -/
theorem run_singles {c c' : Context} (hverb : verb = .add ∨ verb = .insert)
    (h : c.Settles c' verb r) (hrules : ∀ body ∈ bodies, body.IsRule) (os : List Operation) :
    run ⟨c', os⟩ (singles verb r bodies) = (do
      let os' ← bodies.mapM fun body ↦ operation verb c (.rule { r with body })
      pure ⟨c', os ++ os'⟩) := by
  induction bodies generalizing os with
  | nil => simp [run, singles]
  | cons body bodies ih =>
    have hsingle := apply_single (t := ⟨c', os⟩) (r := { r with body }) hverb
      (hrules body List.mem_cons_self)
    have hadvance : c'.advance verb (.rule { r with body }) = .ok c' := h.advance
    simp only [h.operation_eq, hadvance] at hsingle
    have ih := ih (fun b hb ↦ hrules b (List.mem_cons_of_mem _ hb))
    rw [singles, run, List.map_cons, List.foldlM_cons, perform, hsingle, List.mapM_cons]
    cases operation verb c (.rule { r with body }) with
    | error e => rfl
    | ok o =>
      change run ⟨c', os ++ [o]⟩ (singles verb r bodies) = _
      rw [ih]
      exact bind_append_cons c' os o _

/-- A batch comes to what its rules come to one after another. -/
theorem apply_eq_run (hverb : verb = .add ∨ verb = .insert) (hlists : r.body.Lists bodies)
    (hne : bodies ≠ []) (hrules : ∀ body ∈ bodies, body.IsRule)
    (htable : r.table.givenEmpty = false) (hchain : r.chain.givenEmpty = false) :
    t.apply verb (.rule r) = t.run (singles verb r bodies) := by
  rw [apply_batch hverb hlists hne hrules]
  obtain ⟨body, bodies, rfl⟩ := List.exists_cons_of_ne_nil hne
  have hrest (b : RuleBody) (hb : b ∈ bodies) : b.IsRule := hrules b (List.mem_cons_of_mem _ hb)
  have hsingle := apply_single (t := t) (r := { r with body }) hverb
    (hrules body List.mem_cons_self)
  rw [singles, run, List.map_cons, List.foldlM_cons, perform, hsingle, List.mapM_cons]
  cases ho : operation verb t.context (.rule { r with body }) with
  | error e => rfl
  | ok o =>
    -- The first rule moves the context on, and no other one does.
    obtain ⟨c, hc⟩ := Context.exists_advance_rule ho
    have hadvance : t.context.advance verb (.rule { r with body }) = .ok c := hc
    have hrun := run_singles hverb (Context.settles_of_advance htable hchain hc) hrest
      (t.operations ++ [o])
    rw [hc, hadvance]
    change _ = run ⟨c, t.operations ++ [o]⟩ (singles verb r bodies)
    rw [hrun]
    exact (bind_append_cons c t.operations o _).symm

/-- A run is refused for the first call that is refused. -/
theorem run_error_iff {calls : List Call} {e : BuildError} : t.run calls = .error e ↔
    ∃ before call rest t', calls = before ++ call :: rest ∧ t.run before = .ok t' ∧
      t'.perform call = .error e := by
  induction calls generalizing t with
  | nil =>
    constructor
    · rintro ⟨⟩
    · rintro ⟨before, call, rest, -, h, -⟩
      simp at h
  | cons call calls ih =>
    rw [run, List.foldlM_cons, bind_error_iff]
    constructor
    · rintro (h | ⟨t₁, h₁, h⟩)
      · exact ⟨[], call, calls, t, rfl, rfl, h⟩
      · obtain ⟨before, call', rest, t', rfl, hbefore, hcall⟩ := ih.mp h
        refine ⟨call :: before, call', rest, t', rfl, ?_, hcall⟩
        rw [run, List.foldlM_cons, bind_ok_iff]
        exact ⟨t₁, h₁, hbefore⟩
    · rintro ⟨before, call', rest, t', heq, hbefore, hcall⟩
      cases before with
      | nil =>
        cases heq
        cases hbefore
        exact .inl hcall
      | cons call₁ before =>
        cases heq
        rw [run, List.foldlM_cons, bind_ok_iff] at hbefore
        obtain ⟨t₁, h₁, hbefore⟩ := hbefore
        exact .inr ⟨t₁, h₁, ih.mpr ⟨before, call', rest, t', rfl, hbefore, hcall⟩⟩

theorem singles_error_iff {e : BuildError} : t.run (singles verb r bodies) = .error e ↔
    ∃ before body rest t', bodies = before ++ body :: rest ∧
      t.run (singles verb r before) = .ok t' ∧
      t'.apply verb (.rule { r with body }) = .error e := by
  rw [run_error_iff]
  constructor
  · rintro ⟨before, call, rest, t', heq, hbefore, hcall⟩
    obtain ⟨bs, bodies', rfl, rfl, htail⟩ := List.map_eq_append_iff.mp heq
    obtain ⟨body, bs', rfl, rfl, rfl⟩ := List.map_eq_cons_iff.mp htail
    exact ⟨bs, body, bs', t', rfl, hbefore, hcall⟩
  · rintro ⟨before, body, rest, t', rfl, hbefore, hcall⟩
    exact ⟨singles verb r before, .apply verb (.rule { r with body }), singles verb r rest, t',
      by simp [singles], hbefore, hcall⟩

/-- **A batch is the sequence of its rules.**  Adding or inserting a batch comes to the same
operations and the same context as adding or inserting its rules one after another, and is refused
exactly if one of these is, for the same reason as the first of them. -/
theorem batch_is_sequence (hverb : verb = .add ∨ verb = .insert) (hlists : r.body.Lists bodies)
    (hne : bodies ≠ []) (hrules : ∀ body ∈ bodies, body.IsRule)
    (htable : r.table.givenEmpty = false) (hchain : r.chain.givenEmpty = false)
    (t : Transaction) :
    t.apply verb (.rule r) = t.run (singles verb r bodies) ∧
      ∀ e, t.apply verb (.rule r) = .error e ↔
        ∃ before body rest t', bodies = before ++ body :: rest ∧
          t.run (singles verb r before) = .ok t' ∧
          t'.apply verb (.rule { r with body }) = .error e := by
  have heq := apply_eq_run (t := t) hverb hlists hne hrules htable hchain
  exact ⟨heq, fun e ↦ by rw [heq, singles_error_iff]⟩

/-- An expression with a comment of its own, and a list of statements. -/
def twoRules : List RuleBody :=
  [.expr { family := .inet, comment := .str "ssh", fragments := [.verdict "accept"] }, acceptBody]

/-- Two rules that go to a chain in a table which is not ambient. -/
def twoRulesBatch : RuleSpec :=
  { body := .sequence twoRules, table := .str "nat", chain := .str "output", index := .int 0 }

theorem isRule_of_mem_twoRules {body : RuleBody} (h : body ∈ twoRules) : body.IsRule := by
  simp only [twoRules, List.mem_cons, List.not_mem_nil, or_false] at h
  obtain rfl | rfl := h
  · exact .inl ⟨_, rfl⟩
  · exact .inr ⟨_, .list _, .inr ⟨_, List.mem_cons_self, rfl⟩⟩

/-- Both rules are inserted, with the batch and one by one, and their table and chain are ambient
afterwards. -/
theorem batch_is_sequence_twoRules :
    ∃ t t', run {} newChain = .ok t ∧ t.apply .insert (.rule twoRulesBatch) = .ok t' ∧
      t.run (singles .insert twoRulesBatch twoRules) = .ok t' ∧
      t'.operations.length = t.operations.length + 2 ∧ t'.context.table = .str "nat" ∧
      t'.context.chain = .str "output" := by
  refine ⟨_, _, rfl, rfl, ?_, rfl, rfl, rfl⟩
  obtain ⟨heq, -⟩ := batch_is_sequence (r := twoRulesBatch) (.inr rfl) (.sequence twoRules)
    (by simp [twoRules]) (fun _ ↦ isRule_of_mem_twoRules) rfl rfl
    ⟨⟨.str "inet", .str "filter", .str "input", .null⟩, _⟩
  exact heq.symm

/-- An empty table is passed over by the batch, but ambient for the second of its rules. -/
example :
    let t : Transaction := ⟨{ table := .str "filter" }, []⟩
    let r : RuleSpec := { body := .sequence twoRules, table := .str "", chain := .str "input" }
    (∃ t', t.apply .add (.rule r) = .ok t') ∧
      t.run (singles .add r twoRules) = .error (.argument (.emptyName "Table name" (.str ""))) :=
  ⟨⟨_, rfl⟩, rfl⟩

end Transaction
end Nftables
