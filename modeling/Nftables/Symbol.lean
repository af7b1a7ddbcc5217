import Nftables.Error
import Nftables.Text.Blank
import Nftables.Text.Case

/-!
# Symbolic names

Looking up the names that callers use for the words of the wire format. A name is looked up in its
normal form, so that case, surrounding blanks and the choice of `-`, `_` or a blank between words
make no difference. An unknown name is refused, never guessed at.
-/

namespace Nftables

namespace Symbol

/-- `-` and blanks between words count as `_`. -/
def joint (c : Char) : Char :=
  if c = '-' ∨ c = ' ' then '_' else c

/-- The normal form of a name: no blanks around it, lower case, words joined by `_`. -/
def normal (s : String) : List Char :=
  (Text.lower (Text.trim s.toList)).map joint

end Symbol

open Nftables.Symbol (normal)

/-- A finite set of words, each with the text it has on the wire. -/
class Vocabulary (α : Type) where
  members : List α
  wire : α → String
  /-- the name by which callers may call a word beside its wire text -/
  name : α → String := wire

namespace Vocabulary

variable {α : Type} [Vocabulary α]

/-- Is `key`, a normal form, one of the names of a word? -/
def answers (key : List Char) (a : α) : Bool :=
  key = (name a).toList || key = normal (wire a)

/-- The word with a given wire text, or else with a given name. -/
def find? (s : String) : Option α :=
  match members.find? fun (a : α) => wire a = s with
  | some a => some a
  | none => members.find? (answers (normal s))

def choices (α : Type) [Vocabulary α] : List String :=
  members.map fun (a : α) => wire a

/-- The word a value names; `what` says in the message what was looked for. -/
def resolve (what : String) (v : Value) : Except ArgumentError α :=
  match v with
  | .str s =>
    match find? s with
    | some a => .ok a
    | none => .error (.unknownChoice what v (choices α))
  | _ => .error (.unknownChoice what v (choices α))

end Vocabulary

/-- Names with the values they stand for on the wire. -/
structure SymbolTable (α : Type) where
  entries : List (String × α)
  /-- the value that a text given instead of a name stands for -/
  ofText? : String → Option α
  /-- the value that a number given instead of a name stands for -/
  ofNumber? : Int → Option α

namespace SymbolTable

variable {α : Type}

def find? (t : SymbolTable α) (s : String) : Option α :=
  match t.entries.find? fun e => e.1.toList = normal s with
  | some e => some e.2
  | none => t.ofText? s

/-- The wire value of a name or number. -/
def resolve (t : SymbolTable α) (what : String) (v : Value) : Except ArgumentError α :=
  match v with
  | .int n =>
    match t.ofNumber? n with
    | some a => .ok a
    | none => .error (.numberOutOfTable what n)
  | .str s =>
    match t.find? s with
    | some a => .ok a
    | none => .error (.unknownSymbol what v)
  | _ => .error (.unknownSymbol what v)

/-- A table of plain values: a wire text stands for itself, and so does a number from zero up to
`max`, if numbers are admitted. -/
def ofEntries (entries : List (String × Value)) (max : Option Nat) : SymbolTable Value where
  entries := entries
  ofText? s := if entries.any (fun e => e.2.isText s) then some (.str s) else none
  ofNumber? n :=
    match max with
    | some m => if 0 ≤ n ∧ n ≤ m then some (.int n) else none
    | none => none

end SymbolTable

end Nftables
