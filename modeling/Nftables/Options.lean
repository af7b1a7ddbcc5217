import Nftables.Client
import Nftables.Log
import Nftables.Outcome
import Nftables.Symbol.Vocabularies
import Nftables.Text.Lines
import Nftables.Text.Words
import Nftables.Yaml.Load

/-!
# Options

The settings of a configuration file: a mapping with at most the keys of `Key`. What it does not set
keeps its default, and no key is ignored. Error markers are added to the default ones.
-/

namespace Nftables

open Yaml (Datum)

structure Options where
  timeout : Binary64 := Client.defaultTimeout
  /-- the family to which listings are restricted -/
  family : Option Family := none
  /-- the command that starts the worker, by its words -/
  worker : List String := []
  markers : List String := Outcome.defaultMarkers
  logLevel : Log.Severity := .warning

namespace Options

inductive Key where
  | timeout | family | worker | markers | logLevel
deriving DecidableEq, Repr

namespace Key

def name : Key → String
  | .timeout => "timeout"
  | .family => "family"
  | .worker => "worker_command"
  | .markers => "error_markers"
  | .logLevel => "log_level"

def all : List Key :=
  [.timeout, .family, .worker, .markers, .logLevel]

end Key

/-- What a configuration may not say. -/
inductive Refusal where
  | notMapping (given : Datum)
  | unknownKeys (keys : List Datum)
  /-- a key with a value that it cannot have -/
  | badValue (key : Key) (given : Datum)

/-- Why a configuration gives no options. -/
inductive Error where
  | refused (r : Refusal)
  /-- the timeout is an integer beyond all floating-point numbers -/
  | hugeTimeout
  | command (f : Text.Words.Fault)
  | unreadable (f : Yaml.Fault)

/-- What the value of a key has to be, in front of the value that was given instead. -/
def Key.demand : Key → String
  | .timeout => "timeout must be a positive number, got "
  | .family => "Unknown family: "
  | .worker => "worker_command must be a string or a list of strings, got "
  | .markers => "error_markers must be a list of non-empty strings, got "
  | .logLevel =>
    "log_level must be one of " ++ ", ".intercalate (Log.Severity.all.map (·.name)) ++ ", got "

def Key.hint : Key → String
  | .family => " (expected one of: " ++ ", ".intercalate (Vocabulary.choices Family) ++ ")"
  | _ => ""

def Refusal.message : Refusal → String
  | .notMapping d => "Configuration must be a mapping, got " ++ d.kindName
  | .unknownKeys keys =>
    "Unknown configuration key(s): " ++
      ", ".intercalate (keys.map fun k => String.ofList k.text).mergeSort
  | .badValue key d => key.demand ++ String.ofList d.literal ++ key.hint

/-- The data that the message of a refusal shows. -/
def Refusal.shown : Refusal → List Datum
  | .notMapping _ => []
  | .unknownKeys keys => keys
  | .badValue _ d => [d]

/-- The message of a refusal that is told. If a datum in it cannot be written, nobody is told of the
refusal, and what is raised in its place is that an integer has too many digits. -/
def Refusal.message? (r : Refusal) : Option String :=
  if r.shown.all Datum.hasLiteral then some r.message else none

def refuse {α : Type} (key : Key) (d : Datum) : Except Error α :=
  .error (.refused (.badValue key d))

/-! ## Values -/

/-- A number above zero; no number at all is let through. -/
def readTimeout (d : Datum) : Except Error Binary64 :=
  match d with
  | .int n =>
    if n ≤ 0 then refuse .timeout d
    else match Binary64.ofInt? n with
      | some x => .ok x
      | none => .error .hugeTimeout
  | .float x => if x.isNonPositive then refuse .timeout d else .ok x
  | _ => refuse .timeout d

def readFamily (d : Datum) : Except Error Family :=
  match d with
  | .str s =>
    match Vocabulary.find? s with
    | some f => .ok f
    | none => refuse .family d
  | _ => refuse .family d

/-- The texts in a list, if it holds nothing else. -/
def texts? : List Datum → Option (List String)
  | [] => some []
  | .str s :: ds => (s :: ·) <$> texts? ds
  | _ :: _ => none

/-- The words of a command. -/
def commandWords (s : String) : Except Text.Words.Fault (List String) :=
  (·.map String.ofList) <$> Text.Words.split s.toList

/-- A command, as a text or by its words. -/
def readWorker (d : Datum) : Except Error (List String) :=
  match d with
  | .str s => (commandWords s).mapError .command
  | .list ds =>
    match texts? ds with
    | some ws => .ok ws
    | none => refuse .worker d
  | _ => refuse .worker d

/-- Markers with further ones at the end, each of them once. -/
def addMarkers (markers : List String) : List String → List String
  | [] => markers
  | m :: ms => addMarkers (if markers.contains m then markers else markers ++ [m]) ms

def readMarkers (d : Datum) : Except Error (List String) :=
  match d with
  | .list ds =>
    match texts? ds with
    | some ms =>
      if ms.contains "" then refuse .markers d else .ok (addMarkers Outcome.defaultMarkers ms)
    | none => refuse .markers d
  | _ => refuse .markers d

/-- A level by its name in any case. A datum that cannot be written names none, and is refused. -/
def readLogLevel (d : Datum) : Except Error Log.Severity :=
  match Log.Severity.all.find? fun s => s.name.toList = Text.upper d.text with
  | some s => .ok s
  | none => refuse .logLevel d

/-! ## Configurations -/

/-- The value of a key, if the configuration sets it, or else the default one. -/
def setting {α : Type} (es : List (Datum × Datum)) (key : Key) (default : α)
    (read : Datum → Except Error α) : Except Error α :=
  match Datum.lookup key.name es with
  | some d => read d
  | none => .ok default

def isKnown : Datum → Bool
  | .str s => Key.all.any (·.name = s)
  | _ => false

/-- The keys that mean nothing. -/
def unknownKeys (es : List (Datum × Datum)) : List Datum :=
  (es.filter fun e => !isKnown e.1).map (·.1)

def ofMapping (es : List (Datum × Datum)) : Except Error Options := do
  if !(unknownKeys es).isEmpty then throw (.refused (.unknownKeys (unknownKeys es)))
  let timeout ← setting es .timeout Client.defaultTimeout readTimeout
  let family ← setting es .family none fun d => some <$> readFamily d
  let worker ← setting es .worker [] readWorker
  let markers ← setting es .markers Outcome.defaultMarkers readMarkers
  let logLevel ← setting es .logLevel .warning readLogLevel
  .ok { timeout, family, worker, markers, logLevel }

/-- The options of a configuration; an empty one sets nothing. -/
def ofDatum : Datum → Except Error Options
  | .null => .ok {}
  | .mapping es => ofMapping es
  | d => .error (.refused (.notMapping d))

/-- The options of a configuration file with a given text. -/
def ofText (text : List Char) : Except Error Options := do
  ofDatum (← (Yaml.load (Text.lineFeeds text)).mapError .unreadable)

end Options

end Nftables
