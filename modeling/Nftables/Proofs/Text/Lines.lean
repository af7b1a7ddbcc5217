import Mathlib.Algebra.Ring.Nat
import Nftables.Proofs.Text.Ascii
import Nftables.Proofs.Text.Fields

/-!
# Lines of a text

A text that is made of lines, each with a line feed after it, has as many line ends as there are
lines and as there are line ends in these.
-/

namespace Nftables.Text

/-- Characters that are taken for the end of a line: the line feed, and maybe others that are not
printable. -/
structure EndsLines (ends : Char → Bool) : Prop where
  lineFeed : ends '\n' = true
  printable : ∀ c, PrintableAscii c → ends c = false

variable {ends : Char → Bool} {cs : List Char} {fs : List (List Char)}

theorem endsLines_lineFeed : EndsLines (· == '\n') := by
  refine ⟨rfl, fun c hc ↦ beq_eq_false_iff_ne.mpr ?_⟩
  rintro rfl
  exact absurd hc (by decide)

theorem EndsLines.countP_printable (h : EndsLines ends) (hcs : ∀ c ∈ cs, PrintableAscii c) :
    cs.countP ends = 0 :=
  List.countP_eq_zero.mpr fun c hc ↦ by simp [h.printable c (hcs c hc)]

/-- Each of the lines of a text ends, and whatever is in it may end it before. -/
theorem EndsLines.countP_lines (h : EndsLines ends) (fs : List (List Char)) :
    (fs.flatMap (· ++ ['\n'])).countP ends = fs.length + (fs.map (List.countP ends)).sum := by
  induction fs with
  | nil => rfl
  | cons f fs ih =>
    rw [List.flatMap_cons, List.countP_append, ih, List.countP_append, List.countP_singleton,
      h.lineFeed, if_pos rfl, List.length_cons, List.map_cons, List.sum_cons]
    omega

theorem EndsLines.countP_join (h : EndsLines ends) (fs : List (List Char)) :
    (join [' '] fs).countP ends = (fs.map (List.countP ends)).sum := by
  induction fs with
  | nil => rfl
  | cons f fs ih =>
    by_cases hnil : fs = []
    · subst hnil
      simp
    · have hblank : [' '].countP ends = 0 :=
        h.countP_printable (printableAscii_of_all (by decide))
      rw [Text.join_cons _ _ hnil, List.countP_append, List.countP_append, hblank, ih, List.map_cons,
        List.sum_cons, Nat.add_zero]

theorem sum_countP_eq_zero_iff :
    (fs.map (List.countP ends)).sum = 0 ↔ ∀ f ∈ fs, ∀ c ∈ f, ends c = false := by
  induction fs with
  | nil => simp
  | cons f fs ih => simp [ih, List.countP_eq_zero]

theorem sum_countP_lineFeed_eq_zero_iff :
    (fs.map (List.countP (· == '\n'))).sum = 0 ↔ ∀ f ∈ fs, '\n' ∉ f := by
  simp only [sum_countP_eq_zero_iff, beq_eq_false_iff_ne]
  exact forall₂_congr fun f _ ↦ List.forall_mem_ne'

theorem join_lines (fs : List (List Char)) :
    join ['\n'] (fs ++ [[]]) = fs.flatMap (· ++ ['\n']) := by
  induction fs with
  | nil => rfl
  | cons f fs ih =>
    rw [List.cons_append, join_cons _ _ (by simp), ih, List.flatMap_cons]

/-- The lines of a text are the ones that it was made of if no line feed is in these. -/
theorem split_lines_iff :
    split '\n' (fs.flatMap (· ++ ['\n'])) = fs ++ [[]] ↔ ∀ f ∈ fs, '\n' ∉ f := by
  rw [split_eq_iff, join_lines]
  simp only [List.forall_mem_append, List.mem_singleton, forall_eq, List.not_mem_nil,
    not_false_eq_true, and_true, ne_eq, List.append_eq_nil_iff, List.cons_ne_self, and_false,
    true_and]

end Nftables.Text
