import Mathlib.Data.List.Forall2
import Nftables.Spec.Attributes

/-!
# What success says

A sequence of checks succeeds if each of its checks does.  The lemmas below open such a sequence,
and say for each check on a single value what its success means, so that no later proof has to look
into a check.
-/

namespace Nftables

/-! ## Sequences of checks -/

section Sequence

variable {ε ε' α β : Type}

@[simp] theorem bind_ok_iff {x : Except ε α} {f : α → Except ε β} {b : β} :
    x >>= f = .ok b ↔ ∃ a, x = .ok a ∧ f a = .ok b := by
  cases x with
  | error e => simp [bind, Except.bind]
  | ok a => simp [bind, Except.bind]

/-- What follows a check is done if the check passes. -/
theorem check_bind_ok_iff {x : Except ε Unit} {y : Except ε β} {b : β} :
    (x >>= fun _ ↦ y) = .ok b ↔ x = .ok () ∧ y = .ok b := by
  cases x with
  | error e => simp [bind, Except.bind]
  | ok a => simp [bind, Except.bind]

/-- A sequence fails if one of its checks does and all before it succeed. -/
theorem bind_error_iff {x : Except ε α} {f : α → Except ε β} {e : ε} :
    x >>= f = .error e ↔ x = .error e ∨ ∃ a, x = .ok a ∧ f a = .error e := by
  cases x with
  | error e => simp [bind, Except.bind]
  | ok a => simp [bind, Except.bind]

@[simp] theorem map_ok_iff {x : Except ε α} {f : α → β} {b : β} :
    f <$> x = .ok b ↔ ∃ a, x = .ok a ∧ f a = b := by
  cases x with
  | error e => simp [Functor.map, Except.map]
  | ok a => simp [Functor.map, Except.map]

theorem map_some_ok_iff {x : Except ε α} {a : α} : some <$> x = .ok (some a) ↔ x = .ok a := by
  simp

theorem map_error_iff {x : Except ε α} {f : α → β} {e : ε} :
    f <$> x = .error e ↔ x = .error e := by
  cases x with
  | error e => simp [Functor.map, Except.map]
  | ok a => simp [Functor.map, Except.map]

@[simp] theorem mapError_ok_iff {x : Except ε α} {f : ε → ε'} {a : α} :
    x.mapError f = .ok a ↔ x = .ok a := by
  cases x <;> simp [Except.mapError]

@[simp] theorem mapError_error_iff {x : Except ε α} {f : ε → ε'} {e' : ε'} :
    x.mapError f = .error e' ↔ ∃ e, x = .error e ∧ f e = e' := by
  cases x <;> simp [Except.mapError]

@[simp] theorem pure_ok_iff {a b : α} : (pure a : Except ε α) = .ok b ↔ a = b :=
  ⟨Except.ok.inj, congrArg Except.ok⟩

@[simp] theorem throw_ok_iff {e : ε} {b : α} : (throw e : Except ε α) = .ok b ↔ False :=
  ⟨nofun, False.elim⟩

@[simp] theorem liftM_argument_ok_iff {x : Except ArgumentError α} {a : α} :
    (liftM x : Except BuildError α) = .ok a ↔ x = .ok a := by
  cases x with
  | error e => exact ⟨nofun, nofun⟩
  | ok b => exact ⟨fun h ↦ congrArg Except.ok (Except.ok.inj h), congrArg liftM⟩

theorem liftM_argument_error_iff {x : Except ArgumentError α} {e : BuildError} :
    (liftM x : Except BuildError α) = .error e ↔ ∃ a, x = .error a ∧ .argument a = e :=
  mapError_error_iff

@[simp] theorem liftM_context_ok_iff {x : Except ContextError α} {a : α} :
    (liftM x : Except BuildError α) = .ok a ↔ x = .ok a := by
  cases x with
  | error e => exact ⟨nofun, nofun⟩
  | ok b => exact ⟨fun h ↦ congrArg Except.ok (Except.ok.inj h), congrArg liftM⟩

@[simp] theorem liftM_shape_ok_iff {x : Except ShapeError α} {a : α} :
    (liftM x : Except BuildError α) = .ok a ↔ x = .ok a := by
  cases x with
  | error e => exact ⟨nofun, nofun⟩
  | ok b => exact ⟨fun h ↦ congrArg Except.ok (Except.ok.inj h), congrArg liftM⟩

/-- All items of a list pass a check. -/
theorem mapM_ok_iff {f : α → Except ε β} {as : List α} {bs : List β} :
    as.mapM f = .ok bs ↔ List.Forall₂ (fun a b ↦ f a = .ok b) as bs := by
  induction as generalizing bs with
  | nil =>
    rw [List.mapM_nil, pure_ok_iff, List.forall₂_nil_left_iff, eq_comm]
  | cons a as ih =>
    rw [List.mapM_cons, bind_ok_iff]
    simp only [bind_ok_iff, pure_ok_iff, ih]
    constructor
    · rintro ⟨b, hb, bs, hbs, rfl⟩
      exact .cons hb hbs
    · rintro (_ | ⟨hb, hbs⟩)
      exact ⟨_, hb, _, hbs, rfl⟩

/-- If a check passes what has a property, and says what it is, then all items of a list pass it that
have the property. -/
theorem mapM_ok_iff_of {f : α → Except ε β} {P : α → Prop} {g : α → β}
    (h : ∀ a b, f a = .ok b ↔ P a ∧ g a = b) {as : List α} {bs : List β} :
    as.mapM f = .ok bs ↔ (∀ a ∈ as, P a) ∧ as.map g = bs := by
  rw [mapM_ok_iff]
  constructor
  · intro hall
    induction hall with
    | nil => exact ⟨List.forall_mem_nil _, rfl⟩
    | cons hb _ ih =>
      obtain ⟨ha, rfl⟩ := (h _ _).mp hb
      exact ⟨List.forall_mem_cons.mpr ⟨ha, ih.1⟩, congrArg _ ih.2⟩
  · rintro ⟨hall, rfl⟩
    exact List.forall₂_map_right_iff.mpr
      (List.forall₂_same.mpr fun a ha ↦ (h a (g a)).mpr ⟨hall a ha, rfl⟩)

/-- What comes of a list of checks comes of one of them. -/
theorem exists_mem_of_mapM_ok {f : α → Except ε β} {as : List α} {bs : List β} {b : β}
    (h : as.mapM f = .ok bs) (hb : b ∈ bs) : ∃ a ∈ as, f a = .ok b := by
  rw [mapM_ok_iff] at h
  induction h with
  | nil => cases hb
  | cons ha _ ih =>
    rcases List.mem_cons.mp hb with rfl | hb
    · exact ⟨_, List.mem_cons_self, ha⟩
    · obtain ⟨a, hmem, ha⟩ := ih hb
      exact ⟨a, List.mem_cons_of_mem _ hmem, ha⟩

/-- What a check makes of an item of a list is among what comes of the list. -/
theorem exists_ok_of_mem {f : α → Except ε β} {as : List α} {bs : List β} {a : α}
    (h : as.mapM f = .ok bs) (ha : a ∈ as) : ∃ b ∈ bs, f a = .ok b := by
  rw [mapM_ok_iff] at h
  induction h with
  | nil => cases ha
  | cons hb _ ih =>
    rcases List.mem_cons.mp ha with rfl | ha
    · exact ⟨_, List.mem_cons_self, hb⟩
    · obtain ⟨b, hmem, hb⟩ := ih ha
      exact ⟨b, List.mem_cons_of_mem _ hmem, hb⟩

theorem length_of_mapM_ok {f : α → Except ε β} {as : List α} {bs : List β}
    (h : as.mapM f = .ok bs) : bs.length = as.length :=
  (mapM_ok_iff.mp h).length_eq.symm

theorem ne_nil_of_mapM_ok {f : α → Except ε β} {as : List α} {bs : List β}
    (h : as.mapM f = .ok bs) (ha : as ≠ []) : bs ≠ [] := by
  rw [← List.length_pos_iff, length_of_mapM_ok h, List.length_pos_iff]
  exact ha

end Sequence

/-! ## Checks on one value -/

namespace Value

@[simp] theorem isNull_eq_true_iff {v : Value} : v.isNull = true ↔ v = .null := by
  cases v <;> simp [isNull]

@[simp] theorem truthy_str_iff {s : String} : (str s).truthy = true ↔ s ≠ "" := by
  simp [truthy]

theorem nonEmpty_ok_iff {what : String} {v : Value} {s : String} :
    v.nonEmpty what = .ok s ↔ v = .str s ∧ s ≠ "" := by
  cases v with
  | str t =>
    simp only [nonEmpty, str.injEq]
    split
    case isTrue h => simp [h, eq_comm]
    case isFalse h =>
      rw [Except.ok.injEq]
      exact ⟨fun e ↦ ⟨e, e ▸ h⟩, And.left⟩
  | _ => simp [nonEmpty]

theorem require_ok_iff {field verb : String} {v w : Value} :
    v.require field verb = .ok w ↔ v ≠ .null ∧ v = w := by
  unfold require
  split
  case isTrue h => simp_all
  case isFalse h => simp_all

theorem text?_ok_iff {v : Value} {cs : List Char} :
    v.text? = .ok cs ↔ v.hasLiteral = true ∧ v.text = cs := by
  unfold text?
  split <;> simp_all

theorem argumentText_ok_iff {v : Value} {s : String} :
    v.argumentText = .ok s ↔ v.hasLiteral = true ∧ v.showText = s := by
  unfold argumentText
  split <;> simp_all

theorem bounded_ok_iff {what : String} {low high : Int} {v : Value} {n : Int} :
    v.bounded what low high = .ok n ↔ v = .int n ∧ low ≤ n ∧ n ≤ high := by
  cases v with
  | int m =>
    simp only [bounded, int.injEq]
    split
    case isTrue h =>
      rw [Except.ok.injEq]
      exact ⟨fun e ↦ ⟨e, e ▸ h⟩, And.left⟩
    case isFalse h =>
      simp only [reduceCtorEq, false_iff]
      rintro ⟨rfl, hn⟩
      exact h hn
  | _ => simp [bounded]

theorem count_ok_iff {what : String} {v : Value} {n : Int} :
    v.count what = .ok n ↔ v = .int n ∧ 0 ≤ n := by
  cases v with
  | int m =>
    simp only [count, int.injEq]
    split
    case isTrue h =>
      rw [Except.ok.injEq]
      exact ⟨fun e ↦ ⟨e, e ▸ h⟩, And.left⟩
    case isFalse h =>
      simp only [reduceCtorEq, false_iff]
      rintro ⟨rfl, hn⟩
      exact h hn
  | _ => simp [count]

/-- What is true has items, if it has any parts at all. -/
theorem items_ne_nil {v : Value} {vs : List Value} (ht : v.truthy = true)
    (h : v.items = .ok vs) : vs ≠ [] := by
  cases v with
  | list ws | tuple ws | set ws =>
    cases h
    simpa [truthy] using ht
  | range start stop step =>
    cases h
    simpa [truthy, rangeItems] using ht
  | str s =>
    cases h
    simpa [truthy] using ht
  | object es =>
    cases h
    simpa [truthy] using ht
  | _ => cases h

end Value

/-- An attribute that may be left out is there if a value is given, and then passes its check. -/
theorem optionalAttribute_ok_iff {key : String} {check : Value → Except ArgumentError Value}
    {v : Value} {as : Attributes} :
    optionalAttribute key check v = .ok as ↔
      v = .null ∧ as = [] ∨ v ≠ .null ∧ ∃ w, check v = .ok w ∧ as = [(key, w)] := by
  unfold optionalAttribute
  split
  case isTrue h =>
    rw [Value.isNull_eq_true_iff] at h
    simp [h, eq_comm]
  case isFalse h =>
    rw [Value.isNull_eq_true_iff] at h
    rw [bind_ok_iff]
    constructor
    · rintro ⟨w, hw, has⟩
      exact .inr ⟨h, w, hw, (Except.ok.inj has).symm⟩
    · rintro (⟨hv, -⟩ | ⟨-, w, hw, rfl⟩)
      · exact absurd hv h
      · exact ⟨w, hw, rfl⟩

namespace Context

/-- A name is what is given, or if that is empty what is ambient; it is never empty. -/
theorem nameOr_ok_iff {given ambient : Value} {what : String} {missing : ContextError}
    {n : String} :
    nameOr given ambient what missing = .ok n ↔ given.orElse ambient = .str n ∧ n ≠ "" := by
  unfold nameOr
  simp only
  split
  case isTrue h =>
    rw [Value.isNull_eq_true_iff] at h
    simp [h]
  case isFalse h => simp [Value.nonEmpty_ok_iff]

/-! ## Families -/

/-- The name of a family stands for the family. -/
theorem familyName_wire (f : Family) :
    familyName (.str (Vocabulary.wire f)) = .ok (Vocabulary.wire f) := by
  cases f <;> rfl

/-- What a family is called on the wire does not change by being resolved again. -/
theorem familyName_of_ok {v : Value} {w : String} (h : familyName v = .ok w) :
    ∃ f : Family, w = Vocabulary.wire f := by
  simp only [familyName, bind_ok_iff, Except.ok.injEq] at h
  obtain ⟨f, -, rfl⟩ := h
  exact ⟨f, rfl⟩

end Context
end Nftables
