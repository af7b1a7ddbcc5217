import Nftables.Binary64.Parser
import Nftables.CommandLine.Flag
import Nftables.Text.Decimals
import Nftables.Text.Pattern

/-!
# Arguments

What the arguments of the command say. Flags may stand anywhere in front of a `--`; what is no flag
is the document. A long name may be cut short as long as one flag alone is meant, short names may
share a dash, and the argument of a flag follows it, directly, after an equals sign or as the next
argument.
-/

namespace Nftables.CommandLine

open Text (isDigit)

structure Arguments where
  document : Option String := none
  listRuleset : Bool := false
  family : Option String := none
  config : Option String := none
  worker : Option String := none
  timeout : Option Binary64 := none
  dryRun : Bool := false
  verbosity : Nat := 0
deriving DecidableEq

/-- Why arguments lead to no run. -/
inductive Halt where
  | help
  | version
  | misuse
deriving DecidableEq, Repr

/-! ## Tokens -/

/-- What is given to a flag in the same argument: after an equals sign, or directly. -/
structure Attached where
  bySign : Bool
  text : List Char
deriving DecidableEq, Repr

/-- An argument, before it is known what it belongs to. -/
inductive Token where
  | plain (text : List Char)
  | separator
  | flag (f : Flag) (attached : Option Attached)
  /-- something that looks like a flag -/
  | unknown
deriving DecidableEq, Repr

/-- The parts of a text in front of its first equals sign and after it. -/
def cutAtSign : List Char → Option (List Char × List Char)
  | [] => none
  | '=' :: cs => some ([], cs)
  | c :: cs => (cutAtSign cs).map fun (name, text) => (c :: name, text)

open Text.Pattern in
/-- A dash with digits after it, or with a point among them that is not the last. -/
def negative : Text.Pattern :=
  orElse (inOrder [char '-', several isDigit])
    (inOrder [char '-', many isDigit, char '.', several isDigit])

/-- The flags that a text with a dash in front may mean, none of whose names it is. -/
def candidates (arg : List Char) : List Token :=
  match arg with
  | '-' :: '-' :: _ =>
    match cutAtSign arg with
    | some (name, text) => (Flag.startingWith name).map (.flag · (some { bySign := true, text }))
    | none => (Flag.startingWith arg).map (.flag · none)
  | '-' :: c :: text =>
    ((Flag.find? ['-', c]).map fun f => Token.flag f (some { bySign := false, text })).toList
  | _ => []

/-- The flag that a text names exactly, in front of an equals sign if it has one. -/
def named? (arg : List Char) : Option Token :=
  match Flag.find? arg with
  | some f => some (.flag f none)
  | none => do
    let (name, text) ← cutAtSign arg
    let f ← Flag.find? name
    some (.flag f (some { bySign := true, text }))

/-- The token of an argument other than a separator. A dash alone is no flag, and a text with a
blank in it is none unless it begins like one. -/
def tokenOf (arg : List Char) : Except Halt Token :=
  if arg.head? ≠ some '-' ∨ arg.length = 1 then .ok (.plain arg)
  else match named? arg with
    | some t => .ok t
    | none =>
      match candidates arg with
      | [t] => .ok t
      | [] =>
        if negative.covers (Text.plainDigits arg) ∨ arg.contains ' ' then .ok (.plain arg)
        else .ok .unknown
      | _ => .error .misuse

/-- The tokens of arguments. There are no flags after a separator. -/
def tokens : List (List Char) → Except Halt (List Token)
  | [] => .ok []
  | arg :: args =>
    if arg = ['-', '-'] then .ok (.separator :: args.map .plain)
    else do .ok ((← tokenOf arg) :: (← tokens args))

/-! ## Flags with what is given to them -/

/-- The flags of one argument. -/
structure Group where
  flags : List (Flag × List Char)
  /-- has the next argument been given to the last flag? -/
  takesNext : Bool := false
  /-- does the argument go on with something that is no flag? -/
  hasRest : Bool := false

/-- A flag in front of others. -/
def Group.cons (f : Flag) (g : Group) : Group :=
  { g with flags := (f, []) :: g.flags }

/-- A flag with nothing attached to it; `next?` is the next argument, if it is plain. -/
def lone (f : Flag) (next? : Option (List Char)) : Except Halt Group :=
  if f.takesArgument then
    match next? with
    | some text => .ok { flags := [(f, text)], takesNext := true }
    | none => .error .misuse
  else .ok { flags := [(f, [])] }

/-- A flag with a text attached to it, which may hold further flags. -/
def cluster (f : Flag) (bySign : Bool) (next? : Option (List Char)) :
    List Char → Except Halt Group
  | [] => if f.takesArgument then .ok { flags := [(f, [])] } else .error .misuse
  | c :: text =>
    if f.takesArgument then .ok { flags := [(f, c :: text)] }
    else if bySign ∨ c = '-' then .error .misuse
    else match Flag.find? ['-', c] with
      | none => .ok { flags := [(f, [])], hasRest := true }
      | some g =>
        Group.cons f <$> match text with
          | [] => lone g next?
          | '=' :: text => cluster g true next? text
          | c :: text => cluster g false next? (c :: text)

def groupOf (f : Flag) (attached : Option Attached) (next? : Option (List Char)) :
    Except Halt Group :=
  match attached with
  | some a => cluster f a.bySign next? a.text
  | none => lone f next?

/-! ## Reading -/

/-- Sets a flag. -/
def Arguments.set (a : Arguments) (f : Flag) (text : List Char) : Except Halt Arguments :=
  match f with
  | .help => .error .help
  | .version => .error .version
  | .listRuleset => .ok { a with listRuleset := true }
  | .family => .ok { a with family := some (String.ofList text) }
  | .config => .ok { a with config := some (String.ofList text) }
  | .worker => .ok { a with worker := some (String.ofList text) }
  | .timeout =>
    match Binary64.parse? text with
    | some x => .ok { a with timeout := some x }
    | none => .error .misuse
  | .dryRun => .ok { a with dryRun := true }
  | .verbose => .ok { a with verbosity := a.verbosity + 1 }

/-- What has been read of the arguments; `excess` tells of one that belongs to nothing. -/
structure Reading where
  arguments : Arguments := {}
  excess : Bool := false

namespace Reading

def hasDocument (r : Reading) : Bool :=
  r.arguments.document.isSome

def place (r : Reading) (text : List Char) : Reading :=
  { r with arguments := { r.arguments with document := some (String.ofList text) } }

def exceed (r : Reading) : Reading :=
  { r with excess := true }

/-- Sets the flags of a group, in order. -/
def setAll (r : Reading) (g : Group) : Except Halt Reading := do
  let arguments ← g.flags.foldlM (fun a e => a.set e.1 e.2) r.arguments
  .ok { arguments, excess := r.excess || g.hasRest }

/-- Reads tokens. The separator goes with the document, be it in front of it or behind it. -/
def readAll (r : Reading) : List Token → Except Halt Reading
  | [] => .ok r
  | .unknown :: ts => readAll r.exceed ts
  | .plain text :: ts =>
    if r.hasDocument then readAll r.exceed ts
    else match ts with
      | .separator :: ts => readAll (r.place text) ts
      | ts => readAll (r.place text) ts
  | .separator :: ts =>
    if r.hasDocument then readAll r.exceed ts
    else match ts with
      | .plain text :: ts => readAll (r.place text) ts
      | ts => readAll r ts
  | .flag f attached :: ts =>
    match ts with
    | .plain text :: rest => do
      let g ← groupOf f attached (some text)
      let r ← r.setAll g
      if g.takesNext then readAll r rest else readAll r (.plain text :: rest)
    | ts => do readAll (← r.setAll (← groupOf f attached none)) ts

end Reading

/-- The meaning of arguments. -/
def Arguments.read (args : List String) : Except Halt Arguments := do
  let r ← Reading.readAll {} (← tokens (args.map String.toList))
  if r.excess then .error .misuse else .ok r.arguments

end Nftables.CommandLine
