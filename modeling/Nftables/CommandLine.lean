import Nftables.Client
import Nftables.CommandLine.Arguments
import Nftables.CommandLine.Environment
import Nftables.Options
import Nftables.Path
import Nftables.Plan
import Nftables.Query

/-!
# The command

Submits a document, or a listing of the ruleset, to a worker and reports the outcome. The exit code
is 0 if the worker has accepted the document, 1 if there is no document or the worker has refused it,
and 2 if the worker could not be asked. A dry run shows the plan instead.
-/

namespace Nftables.CommandLine

open Nftables.Frame (Bytes)

/-- An error that nothing handles. -/
inductive Crash where
  | options (e : Options.Error)
  /-- a configuration whose bytes are no text -/
  | notText
  | command (f : Text.Words.Fault)
  | plan (e : Plan.Error)
  | write (e : WriteError)
  | request (e : RequestError)
  | stack (e : StackError)
  /-- a name for the system that holds a null character -/
  | nullCharacter
  /-- a text that the system or the output has no encoding for -/
  | unencodable

inductive Ending where
  | exit (code : Nat)
  /-- the arguments ask for no run -/
  | halted (code : Nat)
  | crashed (c : Crash)

/-- What a run has written, and how it has ended. -/
structure Run where
  output : List Char := []
  errors : List Char := []
  ending : Ending

namespace Run

def complain (code : Nat) (message : String) : Run :=
  { errors := ("Error: " ++ message ++ "\n").toList, ending := .exit code }

def crash (c : Crash) : Run :=
  { ending := .crashed c }

/-- Puts log lines in front of what the run has written to its errors. -/
def after (r : Run) (lines : List Char) : Run :=
  { r with errors := lines ++ r.errors }

end Run

/-! ## Log lines -/

/-- Flags of verbosity win over the configured level. -/
def threshold (a : Arguments) (o : Options) : Log.Severity :=
  match a.verbosity with
  | 0 => o.logLevel
  | 1 => .info
  | _ => .debug

def logLine (r : Log.Record) : List Char :=
  (r.severity.name ++ " " ++ r.source ++ ": ").toList ++ r.message ++ ['\n']

def logLines (threshold : Log.Severity) (rs : List Log.Record) : List Char :=
  (Log.atLeast threshold rs).flatMap logLine

/-! ## Options -/

/-- An argument counts as given unless it is empty. -/
def given (argument : Option String) : Option String :=
  argument.filter (· ≠ "")

/-- No name for the system may hold a null character. -/
def isName (s : String) : Bool :=
  !s.toList.contains (Char.ofNat 0)

/-- The message that a configuration gives no options, unless the error is none that is handled. A
refusal that cannot be told is not handled either. -/
def configProblem (path : String) (e : Options.Error) : Except Crash String :=
  match e with
  | .refused r =>
    match r.message? with
    | some message => .ok message
    | none => .error (.options e)
  | .unreadable .malformed => .ok ("Invalid YAML in " ++ path)
  | e => .error (.options e)

/-- The name of the file of a configuration. -/
def configFile (path : String) : String :=
  String.ofList (Path.normal path.toList)

def optionsOf (env : Environment) (path : String) : Except Run Options :=
  let complaint (message : String) : Run :=
    .complain 1 ("failed to load configuration from " ++ path ++ ": " ++ message)
  let file := configFile path
  if isName file then
    match env.file file with
    | .error (.system e) => .error (complaint (e.message file))
    | .error (.notText _) => .error (.crash .notText)
    | .ok text =>
      if env.readsOptions text then
        match Options.ofText text with
        | .ok o => .ok o
        | .error e =>
          match configProblem file e with
          | .ok message => .error (complaint message)
          | .error c => .error (.crash c)
      else .error (.crash (.stack .exhausted))
  else .error (.crash .nullCharacter)

/-- The options of a run: those of the configuration, if one is given. -/
def settings (env : Environment) (a : Arguments) : Except Run Options :=
  match given a.config with
  | some path => optionsOf env path
  | none => .ok {}

/-! ## Documents -/

/-- A listing of everything, or of one family. -/
def listing (a : Arguments) (o : Options) : Except String Value :=
  let family := match given a.family with
    | some name => Value.str name
    | none => (o.family.map fun f => Value.str (Vocabulary.wire f)).getD .null
  match Query.ruleset family with
  | .ok query => .ok (document [query])
  | .error e => .error e.message

/-- The text of a file, or of the input in place of a dash. -/
def textOf (env : Environment) (path : String) : Except String (List Char) :=
  if path = "-" then env.input
  else if isName path then
    match env.file path with
    | .ok text => .ok (Text.lineFeeds text)
    | .error e => .error (e.message path)
  else .error "embedded null byte"

/-- The run that ends since there is no document. -/
def noDocument (message : String) : Run :=
  .complain 1 ("cannot read document: " ++ message)

/-- The document of a text: an object with a list of commands. -/
def documentOf (room : Nat) (text : List Char) : Except Run Value :=
  match Json.parse room text with
  | .error f =>
    if f.problem = .tooDeep then .error (.crash (.stack .exhausted))
    else .error (noDocument (f.message text))
  | .ok document =>
    match document.get? "nftables" with
    | some (.list _) => .ok document
    | _ => .error (noDocument "document must be an object with an \"nftables\" list")

/-- The document to submit. -/
def choose (env : Environment) (a : Arguments) (o : Options) : Except Run Value :=
  if a.listRuleset then (listing a o).mapError noDocument
  else match given a.document with
    | some path => do
      let text ← (textOf env path).mapError noDocument
      documentOf env.documentRoom text
    | none => .error (.complain 1 "give a document path or --list-ruleset")

/-! ## Runs -/

/-- The plan of a document, and the document itself. -/
def dryRun (env : Environment) (document : Value) : Run :=
  match Plan.render env.documentRoom document with
  | .error e => .crash (.plan e)
  | .ok plan =>
    if env.prints plan then
      match Json.write env.documentRoom document with
      | .ok text => { output := plan ++ text ++ ['\n'], ending := .exit 0 }
      | .error e => { output := plan, ending := .crashed (.write e) }
    else .crash .unencodable

/-- The words of the worker's command: of the argument for it, or else as configured. -/
def commandOf (a : Arguments) (o : Options) : Except Text.Words.Fault (List String) :=
  match given a.worker with
  | some text => Options.commandWords text
  | none => .ok o.worker

/-- The command of the worker, if it has any words. -/
def workerOf (a : Arguments) (o : Options) : Except Run (List String) :=
  match commandOf a o with
  | .error f => .error (.crash (.command f))
  | .ok [] => .error (.complain 2 "no worker configured (use --worker or worker_command)")
  | .ok command => .ok command

def startRecord (command : List String) : Log.Record :=
  { severity := .debug, source := Channel.source,
    message := ("Starting worker: " ++ " ".intercalate command).toList }

/-- Reports an outcome, with room on the stack for so many lists and objects within each other. -/
def report (room : Nat) : Outcome → Run
  | .success => { ending := .exit 0 }
  | .data document =>
    match Json.writeIndented room document with
    | .ok text => { output := text ++ ['\n'], ending := .exit 0 }
    | .error e => .crash (.write e)
  | .failure reason _ =>
    match reason.text? with
    | .ok text => .complain 1 (String.ofList text)
    | .error e => .crash (.write e)

/-- Reports what has come of a request. -/
def conclude (room : Nat) (x : Exchange) (o : Options) : Run × List Log.Record :=
  match x.reply with
  | .error (.transport e) => (.complain 2 e.message, x.log)
  | .error e => (.crash (.request e), x.log)
  | .ok reply =>
    match Outcome.classify room (.bytes reply) o.markers with
    | .ok (outcome, log) => (report room outcome, x.log ++ log)
    | .error e => (.crash (.stack e), x.log)

/-- What comes of sending a payload to a worker that has been started. -/
def ask (w : Worker) (payload : Bytes) (timeout : Binary64) : Exchange :=
  ((w.channel (Frame.frame payload)).request payload (.float timeout)).2

/-- Sends a document to a worker that has been started. -/
def converse (env : Environment) (w : Worker) (document : Value) (timeout : Binary64) (o : Options) :
    Run × List Log.Record :=
  match (Document.value document).payload env.documentRoom with
  | .ok payload => conclude env.replyRoom (ask w payload timeout) o
  | .error e => (.crash (.write e), [])

/-- Starts a worker and sends it a document. -/
def submit (env : Environment) (command : List String) (document : Value) (timeout : Binary64)
    (o : Options) : Run × List Log.Record :=
  let name := command.headD ""
  if command.all isName then
    match env.worker command with
    | .error (.system e) =>
      let b := Breakdown.notStarted name (e.message name)
      (.complain 2 (TransportError.down b).message, [])
    | .error .unencodable => (.crash .unencodable, [])
    | .ok w => converse env w document timeout o
  else (.crash .nullCharacter, [])

/-- Runs the command with arguments that have been read. -/
def perform (env : Environment) (a : Arguments) : Except Run Run := do
  let o ← settings env a
  let document ← choose env a o
  if a.dryRun then .ok (dryRun env document)
  else do
    let command ← workerOf a o
    let (r, log) := submit env command document (a.timeout.getD o.timeout) o
    .ok (r.after (logLines (threshold a o) (startRecord command :: log)))

/-- Runs the command. -/
def run (env : Environment) (args : List String) : Run :=
  match Arguments.read args with
  | .error .help => { output := helpText.toList, ending := .halted 0 }
  | .error .version => { output := versionLine.toList, ending := .halted 0 }
  | .error .misuse => { errors := usageText.toList, ending := .halted 2 }
  | .ok a =>
    match perform env a with
    | .ok r => r
    | .error r => r

end Nftables.CommandLine
