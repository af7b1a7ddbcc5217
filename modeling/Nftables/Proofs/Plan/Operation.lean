import Nftables.Plan
import Nftables.Proofs.Json.Writable

/-!
# What can be planned

The plan of a document exists exactly if each of its commands has the shape of an operation, which is
an object with one verb, whose value is an object with one kind, whose value holds the attributes,
and if what is shown of the attributes can be written.
-/

namespace Nftables

namespace Plan

open Json (Writable)
open Text (join)

/-- Nothing at all, or a collection whose parts can be written. -/
def IsListable (depth : Nat) (v : Value) : Prop :=
  v = .null ∨ ∃ vs, v.items = .ok vs ∧ ∀ w ∈ vs, Writable depth w

/-- Attributes that can be shown: those of the scope as texts, the statements one by one, and each
other one by itself. -/
structure Showable (depth : Nat) (es : List (String × Value)) : Prop where
  scope : ∀ v ∈ scopeKeys.filterMap fun key ↦ Value.lookup key es, v.hasLiteral = true
  details : ∀ e ∈ es, e.1 ∉ scopeKeys → e.1 ≠ "expr" → Writable depth e.2
  statements : IsListable depth ((Value.lookup "expr" es).getD .null)

/-- A command with one verb, one kind and attributes that can be shown.  Everything false stands for
no attributes. -/
inductive IsOperation (depth : Nat) : Value → Prop
  | bare {verb kind : String} {attrs : Value} (h : attrs.truthy = false) :
      IsOperation depth (.object [(verb, .object [(kind, attrs)])])
  | described {verb kind : String} {es : List (String × Value)} (h : Showable depth es) :
      IsOperation depth (.object [(verb, .object [(kind, .object es)])])

variable {v : Value} {vs : List Value} {e : String × Value} {es : List (String × Value)} {s : Step}
variable {depth index : Nat} {line : List Char} {ls : List (List Char)}

/-! ## Steps -/

@[simp] theorem liftM_shape_ok_iff {α : Type} {x : Except ShapeError α} {a : α} :
    (liftM x : Except Error α) = .ok a ↔ x = .ok a :=
  mapError_ok_iff

@[simp] theorem liftM_write_ok_iff {α : Type} {x : Except WriteError α} {a : α} :
    (liftM x : Except Error α) = .ok a ↔ x = .ok a :=
  mapError_ok_iff

theorem single_ok_iff : single v = .ok e ↔ v = .object [e] := by
  unfold single
  split
  case h_1 e' => simp
  case h_2 es hes =>
    simp only [reduceCtorEq, Value.object.injEq, false_iff]
    rintro rfl
    exact hes e rfl
  case h_3 hv =>
    simp only [reduceCtorEq, false_iff]
    rintro rfl
    exact hv _ rfl

theorem attributes_ok_iff :
    attributes v = .ok es ↔ v.truthy = false ∧ es = [] ∨ v.truthy = true ∧ v = .object es := by
  unfold attributes
  cases ht : v.truthy with
  | false => simp [eq_comm]
  | true =>
    cases v with
    | object fs => simp
    | str | list | tuple | set =>
      simp only [Bool.not_true, Bool.false_eq_true, if_false]
      split <;> simp
    | _ => simp

/-- The values of the scope keys, as they are shown. -/
def scopeText (es : List (String × Value)) : List Char :=
  join [' '] ((scopeKeys.filterMap fun key ↦ Value.lookup key es).map Value.text)

theorem scope_ok_iff {cs : List Char} : scope es = .ok cs ↔
    (∀ v ∈ scopeKeys.filterMap fun key ↦ Value.lookup key es, v.hasLiteral = true) ∧
      scopeText es = cs := by
  simp only [scope, bind_ok_iff, mapM_ok_iff_of fun _ _ ↦ Value.text?_ok_iff, Except.ok.injEq, scopeText]
  constructor
  · rintro ⟨_, ⟨h, rfl⟩, rfl⟩
    exact ⟨h, rfl⟩
  · rintro ⟨h, rfl⟩
    exact ⟨_, ⟨h, rfl⟩, rfl⟩

/-- What is shown of an operation, by its verb, its kind and its attributes. -/
def describe (verb kind : String) (es : List (String × Value)) : Step where
  verb := verb
  kind := kind
  scope := scopeText es
  details := es.filter fun e ↦ !scopeKeys.contains e.1 && e.1 ≠ "expr"
  statements := (Value.lookup "expr" es).getD .null

theorem step_ok_iff : step v = .ok s ↔
    ∃ verb kind attrs es, v = .object [(verb, .object [(kind, attrs)])] ∧
      attributes attrs = .ok es ∧
      (∀ v ∈ scopeKeys.filterMap fun key ↦ Value.lookup key es, v.hasLiteral = true) ∧
      describe verb kind es = s := by
  simp only [step, bind_ok_iff, pure_ok_iff, liftM_shape_ok_iff, liftM_write_ok_iff, single_ok_iff,
    scope_ok_iff]
  constructor
  · rintro ⟨⟨verb, body⟩, rfl, ⟨kind, attrs⟩, rfl, es, hes, _, ⟨hscope, rfl⟩, rfl⟩
    exact ⟨verb, kind, attrs, es, rfl, hes, hscope, rfl⟩
  · rintro ⟨verb, kind, attrs, es, rfl, hes, hscope, rfl⟩
    exact ⟨_, rfl, _, rfl, es, hes, _, ⟨hscope, rfl⟩, rfl⟩

/-! ## Lines -/

/-- The line of an attribute. -/
def detailText (e : String × Value) : List Char :=
  "       ".toList ++ e.1.toList ++ ": ".toList ++ Json.compact e.2

/-- The line of a statement. -/
def statementText (v : Value) : List Char :=
  "       | ".toList ++ Json.compact v

theorem detailLine_ok_iff (e : String × Value) (line : List Char) :
    detailLine depth e = .ok line ↔ Writable depth e.2 ∧ detailText e = line := by
  rw [detailLine, bind_ok_iff]
  constructor
  · rintro ⟨text, htext, hline⟩
    obtain ⟨h, rfl⟩ := Json.write_ok_iff.mp htext
    exact ⟨h, Except.ok.inj hline⟩
  · rintro ⟨h, rfl⟩
    exact ⟨_, Json.write_ok_iff.mpr ⟨h, rfl⟩, rfl⟩

theorem statementLine_ok_iff (v : Value) (line : List Char) :
    statementLine depth v = .ok line ↔ Writable depth v ∧ statementText v = line := by
  rw [statementLine, bind_ok_iff]
  constructor
  · rintro ⟨text, htext, hline⟩
    obtain ⟨h, rfl⟩ := Json.write_ok_iff.mp htext
    exact ⟨h, Except.ok.inj hline⟩
  · rintro ⟨h, rfl⟩
    exact ⟨_, Json.write_ok_iff.mpr ⟨h, rfl⟩, rfl⟩

theorem stepLines_ok_iff : stepLines depth index s = .ok ls ↔
    (∀ e ∈ s.details, Writable depth e.2) ∧
      ∃ vs, s.listed = .ok vs ∧ (∀ v ∈ vs, Writable depth v) ∧
        headLine index s :: (s.details.map detailText ++ vs.map statementText) = ls := by
  simp only [stepLines, detailLines, statementLines, bind_ok_iff, pure_ok_iff, liftM_shape_ok_iff,
    liftM_write_ok_iff, mapM_ok_iff_of detailLine_ok_iff, mapM_ok_iff_of statementLine_ok_iff]
  constructor
  · rintro ⟨_, ⟨hdetails, rfl⟩, vs, hvs, _, ⟨hall, rfl⟩, rfl⟩
    exact ⟨hdetails, vs, hvs, hall, rfl⟩
  · rintro ⟨hdetails, vs, hvs, hall, rfl⟩
    exact ⟨_, ⟨hdetails, rfl⟩, vs, hvs, _, ⟨hall, rfl⟩, rfl⟩

theorem isListable_iff : IsListable depth s.statements ↔
    ∃ vs, s.listed = .ok vs ∧ ∀ v ∈ vs, Writable depth v := by
  unfold IsListable Step.listed
  split
  case isTrue hn => simp [Value.isNull_eq_true_iff.mp hn]
  case isFalse hn =>
    rw [Value.isNull_eq_true_iff] at hn
    simp [hn]

theorem exists_stepLines_iff : (∃ ls, stepLines depth index s = .ok ls) ↔
    (∀ e ∈ s.details, Writable depth e.2) ∧ IsListable depth s.statements := by
  simp only [stepLines_ok_iff, isListable_iff]
  constructor
  · rintro ⟨_, hdetails, vs, hvs, hall, -⟩
    exact ⟨hdetails, vs, hvs, hall⟩
  · rintro ⟨hdetails, vs, hvs, hall⟩
    exact ⟨_, hdetails, vs, hvs, hall, rfl⟩

theorem forall_details_iff {verb kind : String} :
    (∀ e ∈ (describe verb kind es).details, Writable depth e.2) ↔
      ∀ e ∈ es, e.1 ∉ scopeKeys → e.1 ≠ "expr" → Writable depth e.2 := by
  simp [describe]

/-- The commands that have a step with lines are the operations. -/
theorem isOperation_iff : IsOperation depth v ↔
    ∃ s, step v = .ok s ∧ (∀ e ∈ s.details, Writable depth e.2) ∧
      IsListable depth s.statements := by
  constructor
  · intro h
    cases h with
    | @bare verb kind attrs h =>
      have hes := attributes_ok_iff.mpr (.inl ⟨h, rfl⟩)
      exact ⟨_, step_ok_iff.mpr ⟨verb, kind, attrs, [], rfl, hes, by simp [scopeKeys, Value.lookup],
        rfl⟩, nofun, .inl rfl⟩
    | @described verb kind es h =>
      have hes : attributes (.object es) = .ok es := by cases es <;> rfl
      exact ⟨_, step_ok_iff.mpr ⟨verb, kind, .object es, es, rfl, hes, h.scope, rfl⟩,
        forall_details_iff.mpr h.details, h.statements⟩
  · rintro ⟨s, hs, hdetails, hlist⟩
    obtain ⟨verb, kind, attrs, es, rfl, hes, hscope, rfl⟩ := step_ok_iff.mp hs
    rcases attributes_ok_iff.mp hes with ⟨ht, -⟩ | ⟨-, rfl⟩
    · exact .bare ht
    · exact .described ⟨hscope, forall_details_iff.mp hdetails, hlist⟩

/-! ## Plans -/

theorem exists_linesFrom_iff {ss : List Step} :
    (∃ ls, linesFrom depth index ss = .ok ls) ↔
      ∀ s ∈ ss, (∀ e ∈ s.details, Writable depth e.2) ∧ IsListable depth s.statements := by
  induction ss generalizing index with
  | nil => simp [linesFrom]
  | cons s ss ih =>
    rw [List.forall_mem_cons, ← exists_stepLines_iff, ← ih]
    simp only [linesFrom, bind_ok_iff, Except.ok.injEq]
    constructor
    · rintro ⟨_, first, hfirst, rest, hrest, -⟩
      exact ⟨⟨first, hfirst⟩, rest, hrest⟩
    · rintro ⟨⟨first, hfirst⟩, rest, hrest⟩
      exact ⟨_, first, hfirst, rest, hrest, rfl⟩

/-- A document has a plan exactly if its commands are operations. -/
theorem exists_render_iff {document : Value} (h : commands document = .ok vs) :
    (∃ plan, render depth document = .ok plan) ↔ ∀ v ∈ vs, IsOperation depth v := by
  simp only [render, lines, h, bind_ok_iff, liftM_shape_ok_iff, Except.ok.injEq, exists_eq_left',
    isOperation_iff]
  constructor
  · rintro ⟨_, _, ⟨ss, hss, ls, hls, -⟩, -⟩ v hv
    obtain ⟨s, hs, hstep⟩ := exists_ok_of_mem hss hv
    exact ⟨s, hstep, exists_linesFrom_iff.mp ⟨ls, hls⟩ s hs⟩
  · intro hall
    obtain ⟨ss, hss, hlist⟩ : ∃ ss, vs.mapM step = .ok ss ∧
        ∀ s ∈ ss, (∀ e ∈ s.details, Writable depth e.2) ∧ IsListable depth s.statements := by
      clear h
      induction vs with
      | nil => exact ⟨[], rfl, by simp⟩
      | cons v vs ih =>
        rw [List.forall_mem_cons] at hall
        obtain ⟨⟨s, hs, hlist⟩, hall⟩ := hall
        obtain ⟨ss, hss, hlists⟩ := ih hall
        refine ⟨s :: ss, ?_, List.forall_mem_cons.mpr ⟨hlist, hlists⟩⟩
        exact mapM_ok_iff.mpr (.cons hs (mapM_ok_iff.mp hss))
    obtain ⟨ls, hls⟩ := exists_linesFrom_iff.mpr hlist
    exact ⟨_, _, ⟨ss, hss, ls, hls, rfl⟩, rfl⟩

end Plan

end Nftables
