/-!
# Flags

The options that the command knows, by their names.
-/

namespace Nftables.CommandLine

inductive Flag where
  | help | listRuleset | family | config | worker | timeout | dryRun | verbose | version
deriving DecidableEq, Repr

namespace Flag

/-- Does a flag need an argument? -/
def takesArgument : Flag → Bool
  | .family | .config | .worker | .timeout => true
  | _ => false

/-- The names of all flags; a name is short if it has one dash. -/
def names : List (String × Flag) :=
  [("-h", .help), ("--help", .help), ("--list-ruleset", .listRuleset), ("--family", .family),
    ("-c", .config), ("--config", .config), ("-w", .worker), ("--worker", .worker),
    ("-t", .timeout), ("--timeout", .timeout), ("-n", .dryRun), ("--dry-run", .dryRun),
    ("-v", .verbose), ("--verbose", .verbose), ("-V", .version), ("--version", .version)]

def find? (name : List Char) : Option Flag :=
  (names.find? fun e => e.1.toList = name).map (·.2)

/-- The flags that have a name with a given beginning. -/
def startingWith (start : List Char) : List Flag :=
  (names.filter fun e => start.isPrefixOf e.1.toList).map (·.2)

end Flag

def program : String := "nftfabrik-submit"

def versionLine : String :=
  program ++ ": v0.1.0 by Linuxfabrik GmbH, Zurich/Switzerland\n"

def usageLines : List String := [
  "usage: nftfabrik-submit [-h] [--list-ruleset] [--family FAMILY] [-c CONFIG]",
  "                        [-w WORKER] [-t TIMEOUT] [-n] [-v] [-V]",
  "                        [document]"]

def helpLines : List String := [
  "",
  "Submits a libnftables JSON command document to a worker process over a length-",
  "prefixed channel and reports the classified outcome.",
  "",
  "positional arguments:",
  "  document              path to a JSON document (\x7b\"nftables\": [...]\x7d), \"-\" for",
  "                        stdin",
  "",
  "options:",
  "  -h, --help            show this help message and exit",
  "  --list-ruleset        submit a ruleset listing instead of a document",
  "  --family FAMILY       restrict --list-ruleset to one address family",
  "                        (overrides the configured family)",
  "  -c CONFIG, --config CONFIG",
  "                        path to a YAML configuration file",
  "  -w WORKER, --worker WORKER",
  "                        worker command line (overrides worker_command from the",
  "                        configuration)",
  "  -t TIMEOUT, --timeout TIMEOUT",
  "                        seconds to wait for the worker response. Default: from",
  "                        configuration",
  "  -n, --dry-run         print the plan and the JSON document, submit nothing",
  "  -v, --verbose         verbose output (repeat for higher verbosity)",
  "  -V, --version         show program's version number and exit"]

def usageText : String :=
  String.join (usageLines.map (· ++ "\n"))

def helpText : String :=
  usageText ++ String.join (helpLines.map (· ++ "\n"))

end Nftables.CommandLine
