import Nftables.Proofs.Json.Compact
import Nftables.Proofs.Operation.Listing
import Nftables.Proofs.Plan.Operation
import Nftables.Proofs.Text.Lines

/-!
# Lines of plans

A plan has a line for each operation, for each of its attributes and for each of its statements, if
all of these can be written.  What is written as JSON cannot break a line.  The names of an operation and the keys of its
attributes are shown as they are (`Operation.rawTexts`), and what of them ends a line ends a line of
the plan.
-/

namespace Nftables

open Json (Writable)
open Text (PrintableAscii EndsLines join split)

variable {o : Operation} {os : List Operation} {depth index : Nat} {ends : Char → Bool}

/-! ## Operations -/

namespace Operation

/-- The attributes of an operation; one that is about all there is has none. -/
def given (o : Operation) : Attributes :=
  o.attributes.getD []

/-- What an operation is about, as it is shown. -/
def names (o : Operation) : List (List Char) :=
  Plan.scopeKeys.filterMap fun key ↦ (o.attribute? key).map Value.text

/-- The attributes that are shown on lines of their own. -/
def details (o : Operation) : Attributes :=
  o.given.filter fun e ↦ e.1 ∉ ["family", "table", "chain", "name", "expr"]

def statements (o : Operation) : List Value :=
  (o.value "expr").items.toOption.getD []

/-- What is shown as it is given: what the operation is about, and the keys of the attributes. -/
def rawTexts (o : Operation) : List (List Char) :=
  o.names ++ o.details.map fun e ↦ e.1.toList

/-- The lines that an operation should have: one for itself, one for each attribute that is not
shown there, and one for each statement. -/
def lineCount (o : Operation) : Nat :=
  1 + o.details.length + o.statements.length

/-- An operation as a step of a plan. -/
def step (o : Operation) : Plan.Step :=
  Plan.describe o.verb.wire o.kind.wire o.given

theorem lookup_given (o : Operation) (key : String) :
    Value.lookup key o.given = o.attribute? key := by
  cases h : o.attributes <;> simp [given, attribute?, h, Value.lookup]

theorem scope_step (o : Operation) : o.step.scope = join [' '] o.names := by
  simp only [step, Plan.describe, Plan.scopeText, lookup_given, names, List.map_filterMap]

theorem details_step (o : Operation) : o.step.details = o.details := by
  simp only [step, Plan.describe, details]
  refine List.filter_congr fun e _ ↦ ?_
  simp [Plan.scopeKeys, Bool.and_assoc]

theorem statements_step (o : Operation) : o.step.statements = o.value "expr" := by
  simp only [step, Plan.describe, lookup_given, value]

/-- Can what an operation is about be shown? -/
def Named (o : Operation) : Prop :=
  ∀ key ∈ Plan.scopeKeys, ∀ v, o.attribute? key = some v → v.hasLiteral = true

/-- Can the statements of an operation be told one by one? -/
def Listed (o : Operation) : Prop :=
  o.value "expr" = .null ∨ ∃ vs, (o.value "expr").items = .ok vs

/-- Can the attributes and the statements of an operation be written, with room on the stack for so
many lists and objects within each other? -/
structure Written (depth : Nat) (o : Operation) : Prop where
  details : ∀ e ∈ o.details, Writable depth e.2
  statements : ∀ v ∈ o.statements, Writable depth v

instance (depth : Nat) (o : Operation) : Decidable (o.Written depth) :=
  decidable_of_iff ((∀ e ∈ o.details, Writable depth e.2) ∧ ∀ v ∈ o.statements, Writable depth v)
    ⟨fun h ↦ ⟨h.1, h.2⟩, fun h ↦ ⟨h.details, h.statements⟩⟩

theorem isListable_iff : Plan.IsListable depth (o.value "expr") ↔
    o.Listed ∧ ∀ v ∈ o.statements, Writable depth v := by
  unfold Plan.IsListable Listed statements
  cases hitems : (o.value "expr").items with
  | ok vs =>
    have hne : o.value "expr" ≠ .null := by
      intro hnull
      rw [hnull] at hitems
      cases hitems
    simp [hne, Except.toOption]
  | error e => simp [Except.toOption]

end Operation

namespace Plan

theorem named_iff (o : Operation) : o.Named ↔
    ∀ v ∈ scopeKeys.filterMap fun key ↦ Value.lookup key o.given, v.hasLiteral = true := by
  simp only [Operation.Named, List.mem_filterMap, o.lookup_given, forall_exists_index, and_imp]
  exact ⟨fun h v key hkey hv ↦ h key hkey v hv, fun h key hkey v hv ↦ h v key hkey hv⟩

theorem step_toValue {s : Step} : step o.toValue = .ok s ↔ o.Named ∧ o.step = s := by
  have hes : attributes o.attributeValue = .ok o.given := by
    rw [attributes_ok_iff, Operation.attributeValue, Operation.given]
    cases o.attributes with
    | none => exact .inl ⟨rfl, rfl⟩
    | some es => cases es <;> simp [Value.truthy]
  rw [step_ok_iff, named_iff]
  constructor
  · rintro ⟨verb, kind, attrs, es, hv, hattrs, hscope, rfl⟩
    cases hv
    cases hes.symm.trans hattrs
    exact ⟨hscope, rfl⟩
  · rintro ⟨hscope, rfl⟩
    exact ⟨o.verb.wire, o.kind.wire, o.attributeValue, o.given, rfl, hes, hscope, rfl⟩

/-! ## Lines of operations -/

/-- The lines of the operation with an index. -/
def block (index : Nat) (o : Operation) : List (List Char) :=
  headLine index o.step :: (o.details.map detailText ++ o.statements.map statementText)

/-- The lines of operations that are numbered from `index` on. -/
def blocks (index : Nat) (os : List Operation) : List (List Char) :=
  (os.zipIdx index).flatMap fun e ↦ block e.2 e.1

/-- The lines of the plan of operations. -/
def planLines (os : List Operation) : List (List Char) :=
  (Text.decimal os.length ++ " operation(s)".toList) :: blocks 1 os

theorem listed_step {vs : List Value} (h : o.step.listed = .ok vs) : o.statements = vs := by
  simp only [Step.listed, o.statements_step] at h
  unfold Operation.statements
  split at h
  case isTrue hn =>
    cases h
    rw [Value.isNull_eq_true_iff.mp hn]
    rfl
  case isFalse =>
    rw [h]
    rfl

theorem stepLines_step {lines : List (List Char)} : stepLines depth index o.step = .ok lines ↔
    ((∀ e ∈ o.details, Writable depth e.2) ∧ IsListable depth (o.value "expr")) ∧
      block index o = lines := by
  rw [stepLines_ok_iff, ← o.statements_step, isListable_iff, o.details_step, block]
  constructor
  · rintro ⟨hdetails, vs, hvs, hall, rfl⟩
    exact ⟨⟨hdetails, vs, hvs, hall⟩, by rw [listed_step hvs]⟩
  · rintro ⟨⟨hdetails, vs, hvs, hall⟩, rfl⟩
    exact ⟨hdetails, vs, hvs, hall, by rw [listed_step hvs]⟩

@[simp] theorem blocks_nil (index : Nat) : blocks index [] = [] := rfl

@[simp] theorem blocks_cons (index : Nat) (o : Operation) (os : List Operation) :
    blocks index (o :: os) = block index o ++ blocks (index + 1) os := by
  simp [blocks, List.zipIdx_cons]

theorem linesFrom_steps {lines : List (List Char)} :
    linesFrom depth index (os.map Operation.step) = .ok lines ↔
      (∀ o ∈ os, (∀ e ∈ o.details, Writable depth e.2) ∧ IsListable depth (o.value "expr")) ∧
        blocks index os = lines := by
  induction os generalizing index lines with
  | nil => simp [linesFrom]
  | cons o os ih =>
    simp only [List.map_cons, linesFrom, bind_ok_iff, stepLines_step, ih, Except.ok.injEq,
      List.forall_mem_cons, blocks_cons]
    constructor
    · rintro ⟨_, ⟨ho, rfl⟩, _, ⟨hos, rfl⟩, rfl⟩
      exact ⟨⟨ho, hos⟩, rfl⟩
    · rintro ⟨⟨ho, hos⟩, rfl⟩
      exact ⟨_, ⟨ho, rfl⟩, _, ⟨hos, rfl⟩, rfl⟩

theorem mapM_step_ok_iff {ss : List Step} : (os.map Operation.toValue).mapM step = .ok ss ↔
    (∀ o ∈ os, o.Named) ∧ os.map Operation.step = ss := by
  rw [List.mapM_map]
  exact mapM_ok_iff_of fun _ _ ↦ step_toValue

/-- Operations have a plan if all of them can be shown, and it is made of their lines. -/
theorem render_document_ok_iff {text : List Char} : render depth (document os) = .ok text ↔
    (∀ o ∈ os, o.Named ∧ o.Listed ∧ o.Written depth) ∧
      (planLines os).flatMap (· ++ ['\n']) = text := by
  have hcommands : commands (document os) = .ok (os.map Operation.toValue) := rfl
  simp only [render, lines, hcommands, bind_ok_iff, liftM_shape_ok_iff, Except.ok.injEq,
    exists_eq_left', mapM_step_ok_iff, planLines]
  constructor
  · rintro ⟨_, ⟨_, ⟨hnamed, rfl⟩, _, hlines, rfl⟩, rfl⟩
    obtain ⟨hall, rfl⟩ := linesFrom_steps.mp hlines
    rw [List.length_map]
    refine ⟨fun o ho ↦ ?_, rfl⟩
    obtain ⟨hdetails, hlist⟩ := hall o ho
    obtain ⟨hlisted, hstatements⟩ := Operation.isListable_iff.mp hlist
    exact ⟨hnamed o ho, hlisted, hdetails, hstatements⟩
  · rintro ⟨hall, rfl⟩
    have hlines : linesFrom depth 1 (os.map Operation.step) = .ok (blocks 1 os) := by
      refine linesFrom_steps.mpr ⟨fun o ho ↦ ?_, rfl⟩
      obtain ⟨-, hlisted, hwritten⟩ := hall o ho
      exact ⟨hwritten.details, Operation.isListable_iff.mpr ⟨hlisted, hwritten.statements⟩⟩
    refine ⟨_, ⟨_, ⟨fun o ho ↦ (hall o ho).1, rfl⟩, _, hlines, rfl⟩, ?_⟩
    rw [List.length_map]

/-! ## Numbers of lines -/

@[simp] theorem length_block (index : Nat) (o : Operation) :
    (block index o).length = o.lineCount := by
  simp only [block, List.length_cons, List.length_append, List.length_map, Operation.lineCount]
  omega

theorem length_blocks (index : Nat) (os : List Operation) :
    (blocks index os).length = (os.map Operation.lineCount).sum := by
  induction os generalizing index with
  | nil => rfl
  | cons o os ih => simp [ih]

theorem length_planLines (os : List Operation) :
    (planLines os).length = 1 + (os.map Operation.lineCount).sum := by
  rw [planLines, List.length_cons, length_blocks, Nat.add_comm]

/-- The lines of an operation come after all lines of the operations before it. -/
theorem take_drop_blocks {i : Nat} (h : os[i]? = some o) :
    ((blocks index os).drop ((os.take i).map Operation.lineCount).sum).take o.lineCount =
      block (index + i) o := by
  induction os generalizing index i with
  | nil => simp at h
  | cons p os ih =>
    cases i with
    | zero =>
      obtain rfl : p = o := by simpa using h
      rw [blocks_cons, ← length_block index p]
      exact List.take_left
    | succ i =>
      have hi : os[i]? = some o := by simpa using h
      rw [blocks_cons, List.take_succ_cons, List.map_cons, List.sum_cons, ← length_block index p,
        List.drop_length_add_append, ih hi, Nat.add_assoc, Nat.add_comm 1 i]

/-! ## Line ends -/

/-- The line of an operation starts with its number. -/
theorem exists_headLine (index : Nat) (s : Step) :
    ∃ rest, headLine index s = rightAligned index ++ ". ".toList ++ rest := by
  unfold headLine
  simp only [List.append_assoc, List.append_cancel_left_eq, exists_eq']

theorem printableAscii_of_mem_rightAligned (n : Nat) :
    ∀ c ∈ rightAligned n, PrintableAscii c := by
  intro c hc
  rcases List.mem_append.mp hc with hc | hc
  · rw [List.eq_of_mem_replicate hc]
    decide
  · exact Json.printableAscii_of_mem_decimal hc

theorem printableAscii_of_mem_verb (v : Verb) : ∀ c ∈ v.wire.toList, PrintableAscii c := by
  cases v <;> exact Text.printableAscii_of_all (by decide)

theorem printableAscii_of_mem_kind (k : ObjectKind) : ∀ c ∈ k.wire.toList, PrintableAscii c := by
  cases k <;> exact Text.printableAscii_of_all (by decide)

/-- The line ends in the line of an operation are those in its names. -/
theorem countP_headLine (h : EndsLines ends) (index : Nat) (o : Operation) :
    (headLine index o.step).countP ends = (o.names.map (List.countP ends)).sum := by
  have hpoint : ". ".toList.countP ends = 0 :=
    h.countP_printable (Text.printableAscii_of_all (by decide))
  have hverb : o.step.verb.toList.countP ends = 0 :=
    h.countP_printable (printableAscii_of_mem_verb o.verb)
  have hkind : o.step.kind.toList.countP ends = 0 :=
    h.countP_printable (printableAscii_of_mem_kind o.kind)
  have hblank : ends ' ' = false := h.printable ' ' (by decide)
  have hscope : (if o.step.scope.isEmpty then [] else ' ' :: o.step.scope).countP ends =
      (o.names.map (List.countP ends)).sum := by
    rw [← h.countP_join, ← o.scope_step]
    split
    case isTrue hempty => rw [List.isEmpty_iff.mp hempty]
    case isFalse => exact List.countP_cons_of_neg (by simp [hblank])
  rw [headLine, List.countP_append, List.countP_append, List.countP_append, List.countP_append,
    h.countP_printable (printableAscii_of_mem_rightAligned index), hpoint, hverb, hscope,
    List.countP_cons_of_neg (by simp [hblank]), hkind]
  omega

theorem countP_detailText (h : EndsLines ends) (e : String × Value) :
    (detailText e).countP ends = e.1.toList.countP ends := by
  have hindent : "       ".toList.countP ends = 0 :=
    h.countP_printable (Text.printableAscii_of_all (by decide))
  have hcolon : ": ".toList.countP ends = 0 :=
    h.countP_printable (Text.printableAscii_of_all (by decide))
  unfold detailText
  rw [List.countP_append, List.countP_append, List.countP_append, hindent, hcolon,
    h.countP_printable (Json.printableAscii_of_mem_compact e.2)]
  omega

theorem countP_statementText (h : EndsLines ends) (v : Value) :
    (statementText v).countP ends = 0 := by
  have hindent : "       | ".toList.countP ends = 0 :=
    h.countP_printable (Text.printableAscii_of_all (by decide))
  unfold statementText
  rw [List.countP_append, hindent, h.countP_printable (Json.printableAscii_of_mem_compact v)]

/-- What ends a line within the lines of an operation stands in what is shown as it is. -/
theorem sum_countP_block (h : EndsLines ends) (index : Nat) (o : Operation) :
    ((block index o).map (List.countP ends)).sum = (o.rawTexts.map (List.countP ends)).sum := by
  have hdetails : (o.details.map detailText).map (List.countP ends) =
      (o.details.map fun e ↦ e.1.toList).map (List.countP ends) := by
    simp only [List.map_map, Function.comp_def, countP_detailText h]
  have hstatements : ((o.statements.map statementText).map (List.countP ends)).sum = 0 := by
    simp [Function.comp_def, countP_statementText h]
  rw [block, List.map_cons, List.sum_cons, List.map_append, List.sum_append, countP_headLine h,
    hdetails, hstatements, Operation.rawTexts, List.map_append, List.sum_append, Nat.add_zero]

theorem sum_countP_planLines (h : EndsLines ends) (os : List Operation) :
    ((planLines os).map (List.countP ends)).sum =
      ((os.flatMap Operation.rawTexts).map (List.countP ends)).sum := by
  have hblocks (index : Nat) : ((blocks index os).map (List.countP ends)).sum =
      ((os.flatMap Operation.rawTexts).map (List.countP ends)).sum := by
    induction os generalizing index with
    | nil => rfl
    | cons o os ih =>
      rw [blocks_cons, List.map_append, List.sum_append, sum_countP_block h, ih, List.flatMap_cons,
        List.map_append, List.sum_append]
  have hcount : (Text.decimal os.length ++ " operation(s)".toList).countP ends = 0 := by
    refine h.countP_printable (List.forall_mem_append.mpr ⟨?_, ?_⟩)
    · exact fun _ ↦ Json.printableAscii_of_mem_decimal
    · exact Text.printableAscii_of_all (by decide)
  rw [planLines, List.map_cons, List.sum_cons, hcount, Nat.zero_add, hblocks]

/-! ## Plans -/

/-- A text shows operations: it is made of the lines that they have, in their order.  It has more
lines than these exactly if something that is shown as it is given has line feeds. -/
structure Shows (text : List Char) (os : List Operation) : Prop where
  lines : text = (planLines os).flatMap (· ++ ['\n'])
  length : (planLines os).length = 1 + (os.map Operation.lineCount).sum
  block : ∀ i o, os[i]? = some o →
    ((planLines os).drop (1 + ((os.take i).map Operation.lineCount).sum)).take o.lineCount =
      Plan.block (i + 1) o
  numbered : ∀ i o, os[i]? = some o → ∃ rest,
    (planLines os)[1 + ((os.take i).map Operation.lineCount).sum]? =
      some (rightAligned (i + 1) ++ ". ".toList ++ rest)
  split_iff : split '\n' text = planLines os ++ [[]] ↔ ∀ o ∈ os, ∀ raw ∈ o.rawTexts, '\n' ∉ raw
  countP : ∀ ends, EndsLines ends → text.countP ends =
    1 + (os.map Operation.lineCount).sum +
      ((os.flatMap Operation.rawTexts).map (List.countP ends)).sum

theorem take_drop_planLines {i : Nat} (h : os[i]? = some o) :
    ((planLines os).drop (1 + ((os.take i).map Operation.lineCount).sum)).take o.lineCount =
      block (i + 1) o := by
  rw [planLines, Nat.add_comm 1, List.drop_succ_cons, take_drop_blocks h, Nat.add_comm 1]

/-- There are no line feeds in the lines of a plan if there are none in what is shown as it is. -/
theorem notMem_planLines_iff :
    (∀ line ∈ planLines os, '\n' ∉ line) ↔ ∀ o ∈ os, ∀ raw ∈ o.rawTexts, '\n' ∉ raw := by
  rw [← Text.sum_countP_lineFeed_eq_zero_iff, sum_countP_planLines Text.endsLines_lineFeed,
    Text.sum_countP_lineFeed_eq_zero_iff, List.forall_mem_flatMap]

/-- Whatever is rendered shows the operations. -/
theorem shows_of_render {text : List Char} (h : render depth (document os) = .ok text) :
    Shows text os := by
  obtain ⟨-, rfl⟩ := render_document_ok_iff.mp h
  refine ⟨rfl, length_planLines os, fun i o ho ↦ take_drop_planLines ho, fun i o ho ↦ ?_, ?_, ?_⟩
  · have hpos : 0 < o.lineCount := by
      unfold Operation.lineCount
      omega
    have hhead := congrArg (·[0]?) (take_drop_planLines ho)
    rw [List.getElem?_take_of_lt hpos, List.getElem?_drop] at hhead
    obtain ⟨rest, hrest⟩ := exists_headLine (i + 1) o.step
    exact ⟨rest, hhead.trans (congrArg some hrest)⟩
  · rw [Text.split_lines_iff, notMem_planLines_iff]
  · intro ends hends
    rw [hends.countP_lines, length_planLines, sum_countP_planLines hends]

/-- A plan has no more lines than it should have if no line feed is in what is shown as it is. -/
theorem Shows.countP_eq_iff {text : List Char} (h : Shows text os) :
    text.countP (· == '\n') = 1 + (os.map Operation.lineCount).sum ↔
      ∀ o ∈ os, ∀ raw ∈ o.rawTexts, '\n' ∉ raw := by
  rw [h.countP _ Text.endsLines_lineFeed, Nat.add_eq_left, Text.sum_countP_lineFeed_eq_zero_iff,
    List.forall_mem_flatMap]

end Plan

end Nftables
