import Nftables.Channel
import Nftables.Value.Literal

/-!
# Environments

What a run of the command finds around it: files, its input, the workers that can be started, the room
on its stack and what its output takes.
-/

namespace Nftables.CommandLine

open Nftables.Frame (Bytes)

/-- An error that the system reports, by its number. -/
structure SystemError where
  number : Nat
  reason : String
deriving DecidableEq, Repr

/-- The message of an error about a file. -/
def SystemError.message (e : SystemError) (file : String) : String :=
  "[Errno " ++ Text.showNat e.number ++ "] " ++ e.reason ++ ": " ++ (Value.str file).showLiteral

/-- Why a file gives no text. -/
inductive ReadError where
  | system (e : SystemError)
  /-- its bytes are no text, or its name has no encoding, for a reason that is told -/
  | notText (reason : String)
deriving DecidableEq, Repr

def ReadError.message (file : String) : ReadError → String
  | .system e => e.message file
  | .notText reason => reason

/-- Why a worker is not started. -/
inductive StartError where
  | system (e : SystemError)
  /-- the words of its command are none in the encoding of the system -/
  | unencodable
deriving DecidableEq, Repr

/-- A worker, by what it does with the first bytes that it is sent. -/
structure Worker where
  /-- the bytes that it writes -/
  reply : Bytes → Bytes
  /-- does it write no more than that? -/
  closes : Bool
  /-- has it closed its input before it is sent anything? -/
  refuses : Bool := false

/-- The channel to a worker that gets a frame, if it gets one. -/
def Worker.channel (w : Worker) (frame : Bytes) : Channel :=
  { pending := w.reply frame, repliesClosed := w.closes, requestsClosed := w.refuses }

/-- The lists and objects that may be open at a time where a text is read. -/
def stackRoom : Nat := 980

theorem five_le_stackRoom : 5 ≤ stackRoom := by decide

/-- What is around a run. Where a run depends on something that is not described here, that is a part
of its environment which may be anything:

* `readsOptions` tells of the reader of configurations, a library of its own, if it gets to the end of
  a text with the room it has on the stack;
* `documentRoom` and `replyRoom` are the lists and objects that may be open at a time where a document
  and a reply are read. What has been read is written from a place where there is no less room;
* `takes` tells of the output if it takes a text that is not ASCII. It depends on the encoding of the
  output, and on surrogates without their other halves, which no encoding has and for which there is
  the replacement character here.

Left out are failures of the output and of the error stream themselves, directories of the user with
other templates for plans, and signals. -/
structure Environment where
  file : String → Except ReadError (List Char)
  /-- the input, or why it gives no text -/
  input : Except String (List Char)
  worker : List String → Except StartError Worker
  readsOptions : List Char → Bool := fun _ => true
  documentRoom : Nat := stackRoom
  replyRoom : Nat := stackRoom
  takes : List Char → Bool := fun _ => true
  /-- a listing of the ruleset always has room -/
  listingFits : 5 ≤ documentRoom := by
    exact Nftables.CommandLine.five_le_stackRoom

/-- Is a text written to the output? -/
def Environment.prints (env : Environment) (text : List Char) : Bool :=
  text.all (·.toNat < 0x80) || env.takes text

end Nftables.CommandLine
