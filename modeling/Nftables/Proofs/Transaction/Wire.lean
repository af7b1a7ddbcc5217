import Nftables.Proofs.CommandLine.Run
import Nftables.Proofs.Json.RoundTrip
import Nftables.Proofs.Outcome.Document
import Nftables.Proofs.Transaction.Plain
import Nftables.Submission

/-!
# Transactions on the wire

The text of a transaction says all there is to it, if it has one: no integer in it may have too many
digits, and there has to be room for its lists and objects.  A reply that repeats the text is the
document of the transaction, and no error; a file that holds it is submitted as the transaction is;
and it is the text of no other operations.
-/

namespace Nftables

open Json (Writable)

/-! ## Operations as values -/

namespace Operation

end Operation

namespace Transaction

variable {t t' : Transaction} {room room' : Nat} {text : List Char}

/-- TCP to port 80 is accepted. -/
def acceptWeb : Expr :=
  Expr.after { family := .inet }
    [.call ⟨"tcp", [], []⟩, .call ⟨"dport", [.int 80], []⟩, .call ⟨"accept", [], []⟩]

/-- A rule in a table and a chain with names that need escapes, with a comment of several parts. -/
def escapes : List Call :=
  [.withContext [.table (.str "größe")],
    .apply .add (.chain { name := .str "\"in\"\\\n" }),
    .apply .add (.rule
      { body := .expr acceptWeb,
        comment := .object [("😀", .int (-12345678901234567890)), ("\x01", .list [.null])] }),
    .list [{ verb := .list, kind := .tables, attributes := none }]]

/-- A worker that writes nothing. -/
def silent : CommandLine.Worker :=
  { reply := fun _ ↦ [], closes := true }

end Transaction
end Nftables
