import Mathlib.Data.List.Basic
import Nftables.Fragment
import Nftables.Listing

/-!
# Ranges of integers

On the wire a range of integers is an object with both of its bounds; in a listing the progression
of its members stands in its place.  Nothing is lost: with the progressions written out again
(`writeRanges`), a document is what it was.  What stands where is said by places (`at?`).  Every
progression comes from a written range and every object from an object that is none, each at the
same place.
-/

namespace Nftables.Value

variable {v w : Value} {vs ws : List Value} {es fs : List (String × Value)} {place : List Nat}
  {low high start stop step n : Int}

/-- The values that documents are made of. -/
inductive Document : Value → Prop where
  | null : Document .null
  | bool (b : Bool) : Document (.bool b)
  | int (n : Int) : Document (.int n)
  | float (x : Binary64) : Document (.float x)
  | str (s : String) : Document (.str s)
  | list {vs : List Value} (h : ∀ v ∈ vs, Document v) : Document (.list vs)
  | object {es : List (String × Value)} (h : ∀ e ∈ es, Document e.2) : Document (.object es)

attribute [simp] Document.null Document.bool Document.int Document.float Document.str

@[simp] theorem document_list_iff : (list vs).Document ↔ ∀ v ∈ vs, v.Document := by
  constructor
  · rintro (_ | _)
    assumption
  · exact .list

@[simp] theorem document_object_iff : (object es).Document ↔ ∀ e ∈ es, e.2.Document := by
  constructor
  · rintro (_ | _)
    assumption
  · exact .object

/-- A range of integers as it is written on the wire. -/
def WrittenRange (v : Value) : Prop :=
  ∃ low high : Int, v = Term.range (.int low) (.int high)

/-! ## Reading ranges -/

/-- A range of integers is listed as the progression of its members. -/
theorem convertRanges_range (low high : Int) :
    (Term.range (.int low) (.int high)).convertRanges = .range low (high + 1) 1 :=
  rfl

theorem convertRangesItems_eq_map (vs : List Value) :
    convertRangesItems vs = vs.map convertRanges := by
  induction vs with
  | nil => rfl
  | cons v vs ih => rw [convertRangesItems, ih, List.map_cons]

theorem convertRangesEntries_eq_map (es : List (String × Value)) :
    convertRangesEntries es = es.map fun e ↦ (e.1, e.2.convertRanges) := by
  induction es with
  | nil => rfl
  | cons e es ih => rw [convertRangesEntries, ih, List.map_cons]

theorem convertRanges_list (vs : List Value) :
    (list vs).convertRanges = list (vs.map convertRanges) := by
  rw [convertRanges, convertRangesItems_eq_map]

theorem writtenRange_object_iff : (object es).WrittenRange ↔
    ∃ low high : Int, es = [("range", .list [.int low, .int high])] := by
  simp only [WrittenRange, Term.range, Term.single, object.injEq]

theorem writtenRange_of_wireRange? (h : wireRange? es = some (low, high)) :
    object es = Term.range (.int low) (.int high) := by
  unfold wireRange? at h
  split at h
  · cases h
    rfl
  · cases h

/-- An object that is no written range keeps its keys, and its values are read one by one. -/
theorem convertRanges_object (h : ¬ (object es).WrittenRange) :
    (object es).convertRanges = object (es.map fun e ↦ (e.1, e.2.convertRanges)) := by
  rw [convertRanges]
  split
  case h_1 low high hrange => exact absurd ⟨low, high, writtenRange_of_wireRange? hrange⟩ h
  case h_2 => rw [convertRangesEntries_eq_map]

theorem convertRanges_eq_int_iff : v.convertRanges = .int n ↔ v = .int n := by
  cases v with
  | object es =>
    rw [convertRanges]
    split <;> simp
  | _ => simp [convertRanges]

theorem convertRanges_eq_list_iff :
    v.convertRanges = .list ws ↔ ∃ vs, v = .list vs ∧ vs.map convertRanges = ws := by
  cases v with
  | list vs => simp [convertRanges_list]
  | object es =>
    rw [convertRanges]
    split <;> simp
  | _ => simp [convertRanges]

theorem convertRanges_eq_object_iff :
    v.convertRanges = .object fs ↔ ∃ es, v = .object es ∧ ¬ (object es).WrittenRange ∧
      fs = es.map fun e ↦ (e.1, e.2.convertRanges) := by
  cases v with
  | object es =>
    by_cases h : (object es).WrittenRange
    · obtain ⟨low, high, heq⟩ := h
      rw [heq, convertRanges_range]
      constructor
      · nofun
      · rintro ⟨fs, hfs, hnone, -⟩
        exact absurd ⟨low, high, hfs.symm⟩ hnone
    · rw [convertRanges_object h, object.injEq]
      constructor
      · rintro rfl
        exact ⟨es, rfl, h, rfl⟩
      · rintro ⟨_, ⟨⟩, -, rfl⟩
        rfl
  | _ => simp [convertRanges]

/-- Reading the values of an object makes no written range of it. -/
theorem writtenRange_of_map
    (h : (object (es.map fun e ↦ (e.1, e.2.convertRanges))).WrittenRange) :
    (object es).WrittenRange := by
  obtain ⟨low, high, h⟩ := h
  obtain ⟨⟨key, bounds⟩, rfl, hentry⟩ := List.map_eq_singleton_iff.mp (object.inj h)
  obtain ⟨rfl, hbounds⟩ := Prod.mk.inj hentry
  -- a list is read of a list only, and an integer of itself: the bounds were there before
  obtain ⟨vs, rfl, hvs⟩ := convertRanges_eq_list_iff.mp hbounds
  obtain ⟨a, _, rfl, ha, hvs⟩ := List.map_eq_cons_iff.mp hvs
  obtain ⟨b, rfl, hb⟩ := List.map_eq_singleton_iff.mp hvs
  rw [convertRanges_eq_int_iff] at ha hb
  subst ha hb
  exact ⟨low, high, rfl⟩

theorem not_writtenRange_convertRanges (v : Value) : ¬ v.convertRanges.WrittenRange := by
  intro h
  obtain ⟨low, high, heq⟩ := h
  obtain ⟨es, -, hnone, hentries⟩ := convertRanges_eq_object_iff.mp heq
  exact hnone (writtenRange_of_map ⟨low, high, by rw [← hentries]; rfl⟩)

theorem Document.convertRanges_convertRanges (hv : v.Document) :
    v.convertRanges.convertRanges = v.convertRanges := by
  induction hv with
  | list h ih =>
    rw [convertRanges_list, convertRanges_list, List.map_map]
    exact congrArg Value.list (List.map_congr_left ih)
  | @object es h ih =>
    by_cases hrange : (Value.object es).WrittenRange
    · obtain ⟨low, high, heq⟩ := hrange
      rw [heq]
      rfl
    · rw [convertRanges_object hrange, convertRanges_object (mt writtenRange_of_map hrange),
        List.map_map]
      exact congrArg Value.object (List.map_congr_left fun e he ↦ Prod.ext rfl (ih e he))
  | _ => rfl

/-! ## Writing ranges -/

mutual

/-- The value with a written range for each progression by ones. -/
def writeRanges : Value → Value
  | .range start stop 1 => Term.range (.int start) (.int (stop - 1))
  | .list vs => .list (writeRangesItems vs)
  | .object es => .object (writeRangesEntries es)
  | v => v

def writeRangesItems : List Value → List Value
  | [] => []
  | v :: vs => writeRanges v :: writeRangesItems vs

def writeRangesEntries : List (String × Value) → List (String × Value)
  | [] => []
  | (k, v) :: es => (k, writeRanges v) :: writeRangesEntries es

end

theorem writeRanges_list (vs : List Value) :
    (list vs).writeRanges = list (vs.map writeRanges) := by
  rw [writeRanges, list.injEq]
  induction vs with
  | nil => rfl
  | cons v vs ih => rw [writeRangesItems, ih, List.map_cons]

theorem writeRanges_object (es : List (String × Value)) :
    (object es).writeRanges = object (es.map fun e ↦ (e.1, e.2.writeRanges)) := by
  rw [writeRanges, object.injEq]
  induction es with
  | nil => rfl
  | cons e es ih => rw [writeRangesEntries, ih, List.map_cons]

theorem writeRanges_progression (low high : Int) :
    (range low (high + 1) 1).writeRanges = Term.range (.int low) (.int high) := by
  rw [writeRanges, Int.add_sub_cancel]

/-- What is read can be written again as it was. -/
theorem Document.writeRanges_convertRanges (hv : v.Document) :
    v.convertRanges.writeRanges = v := by
  induction hv with
  | @list vs h ih =>
    rw [convertRanges_list, writeRanges_list, List.map_map]
    exact congrArg Value.list ((List.map_congr_left ih).trans (List.map_id vs))
  | @object es h ih =>
    by_cases hrange : (Value.object es).WrittenRange
    · obtain ⟨low, high, heq⟩ := hrange
      rw [heq, convertRanges_range, writeRanges_progression]
    · rw [convertRanges_object hrange, writeRanges_object, List.map_map]
      refine congrArg Value.object ((List.map_congr_left fun e he ↦ ?_).trans (List.map_id es))
      exact Prod.ext rfl (ih e he)
  | _ => rfl

/-! ## Places -/

/-- The items of a list, and what an object has under its keys, in order. -/
def parts : Value → List Value
  | .list vs => vs
  | .object es => es.map Prod.snd
  | _ => []

/-- The value at a place, which is told by the numbers of the parts that lead there. -/
def at? : List Nat → Value → Option Value
  | [], v => some v
  | i :: place, v => v.parts[i]?.bind (at? place)

theorem at?_cons_eq_some_iff {i : Nat} : v.at? (i :: place) = some w ↔
    ∃ u, v.parts[i]? = some u ∧ u.at? place = some w :=
  Option.bind_eq_some_iff

theorem Document.of_mem_parts (hv : v.Document) (h : w ∈ v.parts) : w.Document := by
  cases hv with
  | list hvs => exact hvs w h
  | object hes =>
    obtain ⟨e, he, rfl⟩ := List.mem_map.mp h
    exact hes e he
  | _ => cases h

theorem Document.of_at? (hv : v.Document) (h : v.at? place = some w) : w.Document := by
  induction place generalizing v with
  | nil =>
    cases h
    exact hv
  | cons i place ih =>
    obtain ⟨u, hu, h⟩ := at?_cons_eq_some_iff.mp h
    exact ih (hv.of_mem_parts (List.mem_of_getElem? hu)) h

/-- What is no written range is read part by part. -/
theorem parts_convertRanges (h : ¬ v.WrittenRange) :
    v.convertRanges.parts = v.parts.map convertRanges := by
  cases v with
  | list vs => rw [convertRanges_list, parts, parts]
  | object es =>
    rw [convertRanges_object h, parts, parts, List.map_map, List.map_map]
    rfl
  | _ => rfl

/-- Whatever stands in what is read has been read from what stood there. -/
theorem exists_of_at?_convertRanges (h : v.convertRanges.at? place = some w) :
    ∃ u, v.at? place = some u ∧ u.convertRanges = w := by
  induction place generalizing v with
  | nil => exact ⟨v, rfl, Option.some.inj h⟩
  | cons i place ih =>
    obtain ⟨u, hu, h⟩ := at?_cons_eq_some_iff.mp h
    by_cases hrange : v.WrittenRange
    · -- what is read of it is a progression, which has no parts
      obtain ⟨low, high, rfl⟩ := hrange
      cases hu
    · rw [parts_convertRanges hrange, List.getElem?_map, Option.map_eq_some_iff] at hu
      obtain ⟨u, hu, rfl⟩ := hu
      obtain ⟨u', hu', heq⟩ := ih h
      exact ⟨u', at?_cons_eq_some_iff.mpr ⟨u, hu, hu'⟩, heq⟩

/-- A written range has no objects in it. -/
theorem eq_nil_of_at?_range
    (h : (Term.range (.int low) (.int high)).at? place = some (.object es)) : place = [] := by
  have hint (n : Int) (place : List Nat) : (int n).at? place ≠ some (.object es) := by
    cases place <;> nofun
  cases place with
  | nil => rfl
  | cons i place =>
    obtain ⟨u, hu, h⟩ := at?_cons_eq_some_iff.mp h
    obtain rfl := List.mem_singleton.mp (List.mem_of_getElem? hu)
    cases place with
    | nil => cases h
    | cons j place =>
      obtain ⟨u, hu, h⟩ := at?_cons_eq_some_iff.mp h
      rcases List.mem_pair.mp (List.mem_of_getElem? hu) with rfl | rfl
      · exact absurd h (hint low place)
      · exact absurd h (hint high place)

/-- An object is read at its place. -/
theorem at?_convertRanges_of_object (h : v.at? place = some (.object es)) :
    v.convertRanges.at? place = some (object es).convertRanges := by
  induction place generalizing v with
  | nil =>
    cases h
    rfl
  | cons i place ih =>
    by_cases hrange : v.WrittenRange
    · obtain ⟨low, high, rfl⟩ := hrange
      cases eq_nil_of_at?_range h
    · obtain ⟨u, hu, h⟩ := at?_cons_eq_some_iff.mp h
      refine at?_cons_eq_some_iff.mpr ⟨u.convertRanges, ?_, ih h⟩
      rw [parts_convertRanges hrange, List.getElem?_map, hu, Option.map_some]

theorem Document.convertRanges_eq_range_iff (hv : v.Document) :
    v.convertRanges = .range start stop step ↔
      step = 1 ∧ v = Term.range (.int start) (.int (stop - 1)) := by
  constructor
  · intro h
    cases hv with
    | @object es hes =>
      by_cases hrange : (Value.object es).WrittenRange
      · obtain ⟨low, high, heq⟩ := hrange
        rw [heq, convertRanges_range, Value.range.injEq] at h
        obtain ⟨rfl, rfl, rfl⟩ := h
        exact ⟨rfl, by rw [heq, Int.add_sub_cancel]⟩
      · rw [convertRanges_object hrange] at h
        cases h
    | _ => cases h
  · rintro ⟨rfl, rfl⟩
    rw [convertRanges_range, Int.sub_add_cancel]

theorem Document.at?_convertRanges_range_iff (hv : v.Document) :
    v.convertRanges.at? place = some (.range start stop step) ↔
      step = 1 ∧ v.at? place = some (Term.range (.int start) (.int (stop - 1))) := by
  constructor
  · intro h
    obtain ⟨u, hu, heq⟩ := exists_of_at?_convertRanges h
    obtain ⟨hstep, rfl⟩ := (hv.of_at? hu).convertRanges_eq_range_iff.mp heq
    exact ⟨hstep, hu⟩
  · rintro ⟨rfl, h⟩
    rw [at?_convertRanges_of_object h, Option.some.injEq]
    exact (hv.of_at? h).convertRanges_eq_range_iff.mpr ⟨rfl, rfl⟩

theorem at?_convertRanges_object_iff :
    v.convertRanges.at? place = some (.object fs) ↔
      ∃ es, v.at? place = some (.object es) ∧ ¬ (object es).WrittenRange ∧
        fs = es.map fun e ↦ (e.1, e.2.convertRanges) := by
  constructor
  · intro h
    obtain ⟨u, hu, heq⟩ := exists_of_at?_convertRanges h
    obtain ⟨es, rfl, hes⟩ := convertRanges_eq_object_iff.mp heq
    exact ⟨es, hu, hes⟩
  · rintro ⟨es, h, hrange, rfl⟩
    rw [at?_convertRanges_of_object h, convertRanges_object hrange]

/-- Two integers are needed for the bounds of a range. -/
theorem not_writtenRange_of_bounds {bounds : Value}
    (h : ∀ bs, bounds = .list bs → bs.length ≠ 2 ∨ ∃ b ∈ bs, ∀ n, b ≠ .int n) :
    ¬ (object [("range", bounds)]).WrittenRange := by
  rintro ⟨low, high, hrange⟩
  cases hrange
  rcases h _ rfl with hlength | ⟨b, hb, hint⟩
  · exact hlength rfl
  · rcases List.mem_pair.mp hb with rfl | rfl
    · exact hint _ rfl
    · exact hint _ rfl

/-- **Ranges are not lost.**  In a document of any depth all ranges of integers are read, whatever
their bounds.

* With the ranges written again, the document is what it was, with all keys in their order.
* Reading the ranges once more changes nothing, and nowhere is a written range left.
* There is a progression exactly where a range was written, from the first bound by ones up to the
  last.
* There is an object exactly where an object was that is no written range.  It has the same keys in
  the same order, and what it has under each of them is read for itself.
* So an object with bounds that are not exactly two integers is still an object. -/
theorem range_conversion_lossless (hv : v.Document) :
    v.convertRanges.writeRanges = v ∧
    v.convertRanges.convertRanges = v.convertRanges ∧
    (∀ place low high, v.convertRanges.at? place ≠
      some (.object [("range", .list [.int low, .int high])])) ∧
    (∀ place start stop step, v.convertRanges.at? place = some (.range start stop step) ↔
      step = 1 ∧
        v.at? place = some (.object [("range", .list [.int start, .int (stop - 1)])])) ∧
    (∀ place fs, v.convertRanges.at? place = some (.object fs) ↔
      ∃ es, v.at? place = some (.object es) ∧
        (∀ low high, es ≠ [("range", .list [.int low, .int high])]) ∧
        fs = es.map fun e ↦ (e.1, e.2.convertRanges)) ∧
    ∀ place bounds, v.at? place = some (.object [("range", bounds)]) →
      (∀ bs, bounds = .list bs → bs.length ≠ 2 ∨ ∃ b ∈ bs, ∀ n, b ≠ .int n) →
      v.convertRanges.at? place = some (.object [("range", bounds.convertRanges)]) := by
  refine ⟨hv.writeRanges_convertRanges, hv.convertRanges_convertRanges, fun place low high h ↦ ?_,
    fun place start stop step ↦ hv.at?_convertRanges_range_iff, fun place fs ↦ ?_,
    fun place bounds h hbounds ↦ ?_⟩
  · obtain ⟨u, -, heq⟩ := exists_of_at?_convertRanges h
    exact not_writtenRange_convertRanges u ⟨low, high, heq⟩
  · simp only [at?_convertRanges_object_iff, writtenRange_object_iff, not_exists, ne_eq]
  · rw [at?_convertRanges_of_object h, convertRanges_object (not_writtenRange_of_bounds hbounds)]
    rfl

/-- Three ranges in a set: with the bounds in the wrong order, with a truth value for a bound, and
with a range for a bound. -/
def oddRanges : Value :=
  .object [("set", .list [
    Term.range (.int (-1)) (.int (-9)),
    Term.range (.bool true) (.int 3),
    Term.range (Term.range (.int 22) (.int 80)) (.int 90)])]

/-- Only the range with two integers and the one inside the last are read, and all can be written
again. -/
theorem range_conversion_lossless_oddRanges :
    oddRanges.Document ∧
    oddRanges.convertRanges.writeRanges = oddRanges ∧
    oddRanges.convertRanges.convertRanges = oddRanges.convertRanges ∧
    oddRanges.convertRanges.at? [0, 0] = some (.range (-1) (-8) 1) ∧
    oddRanges.convertRanges.at? [0, 1] = some (Term.range (.bool true) (.int 3)) ∧
    oddRanges.convertRanges.at? [0, 2] = some (Term.range (.range 22 81 1) (.int 90)) := by
  have hdocument : oddRanges.Document := by simp [oddRanges, Term.range, Term.single]
  obtain ⟨hwrite, hread, -, hrange, -, hbounds⟩ := range_conversion_lossless hdocument
  refine ⟨hdocument, hwrite, hread, ?_, ?_, ?_⟩
  · exact (hrange _ _ _ _).mpr ⟨rfl, rfl⟩
  · refine hbounds _ (.list [.bool true, .int 3]) rfl ?_
    rintro _ ⟨⟩
    exact .inr ⟨.bool true, by simp, nofun⟩
  · refine hbounds _ (.list [Term.range (.int 22) (.int 80), .int 90]) rfl ?_
    rintro _ ⟨⟩
    exact .inr ⟨Term.range (.int 22) (.int 80), by simp, nofun⟩

end Nftables.Value
