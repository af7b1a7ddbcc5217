import Nftables.CommandLine

/-!
# The program

Runs the command on the files and the input of the system. Processes cannot be started from here: a
run that needs a worker ends with the error that the system gives for a missing function.
-/

namespace Nftables.CommandLine

def noFunction : SystemError := ⟨38, "Function not implemented"⟩

/-- What is behind a failure to read a file: an error of the system, or bytes that are no text. -/
def readError : IO.Error → ReadError
  | .noFileOrDirectory _ number reason | .permissionDenied _ number reason
  | .inappropriateType _ number reason | .invalidArgument _ number reason
  | .noSuchThing _ number reason | .resourceExhausted _ number reason
  | .interrupted _ number reason | .otherError number reason => .system ⟨number.toNat, reason⟩
  | e => .notText (toString e)

def readFile (path : String) : IO (Except ReadError (List Char)) := do
  try
    let text ← IO.FS.readFile path
    return .ok text.toList
  catch e =>
    return .error (readError e)

def readInput : IO (Except String (List Char)) := do
  try
    let text ← (← IO.getStdin).readToEnd
    return .ok text.toList
  catch e =>
    return .error (toString e)

/-- The files that arguments name. -/
def Arguments.files (a : Arguments) : List String :=
  (given a.document).toList ++
    ((given a.config).map configFile).toList

/-- The environment of a run with the given arguments. -/
def environment (a : Arguments) : IO Environment := do
  let files ← a.files.mapM fun path => return (path, ← readFile path)
  return {
    file path := (files.lookup path).getD (.error (.system noFunction))
    input := ← if a.document = some "-" then readInput else pure (.ok [])
    worker _ := .error (.system noFunction) }

/-- The exit code; an error that nothing handles counts as a failure. -/
def Ending.code : Ending → UInt32
  | .exit code | .halted code => code.toUInt32
  | .crashed _ => 1

end Nftables.CommandLine

open Nftables.CommandLine in
def main (args : List String) : IO UInt32 := do
  let r := run (← environment ((Arguments.read args).toOption.getD {})) args
  IO.print (String.ofList r.output)
  IO.eprint (String.ofList r.errors)
  return r.ending.code
