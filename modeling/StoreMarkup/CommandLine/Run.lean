import StoreMarkup.Check.Listing
import StoreMarkup.CommandLine.Options
import StoreMarkup.Json.Printer

/-! The command that checks the templates of a directory. -/
namespace StoreMarkup.CommandLine

def programName : String := "isml-check"

/-- What the command tells its caller. -/
inductive ExitStatus where
  | ok
  | failed
  | usage
deriving DecidableEq, Repr

def ExitStatus.code : ExitStatus → Nat
  | ok => 0
  | failed => 1
  | usage => 2

/-- Why the command did not check anything. -/
inductive CommandError where
  | usage (error : UsageError)
  | tooFewWorkers (workers : Int)
  | check (error : CheckError)
deriving DecidableEq, Repr

def CommandError.message : CommandError → String
  | usage error => s!"{programName}: error: {error.message}"
  | tooFewWorkers workers => s!"--workers must be at least 1, got {workers}"
  | check error => error.message

/-- How the command ends. -/
structure Completion where
  status : ExitStatus
  output : String := ""
  error : Option CommandError := none
deriving DecidableEq, Repr

/-- What the command can be asked. -/
def helpLines (settings : Settings) : List String :=
  ["usage: isml-check [-h] [--encoding ENCODING] [--workers WORKERS]",
    "                  [--fail-on-warning] [--isml-only] [--no-hash-expressions]",
    "                  [--json]",
    "                  src_dir",
    "",
    "Parse every ISML template below a source directory and report syntax problems",
    "",
    "positional arguments:",
    "  src_dir               Template source directory holding the language",
    "                        directories",
    "",
    "options:",
    "  -h, --help            show this help message and exit",
    "  --encoding ENCODING, -e ENCODING",
    s!"                        Template file encoding (default: {String.ofList settings.encoding})",
    "  --workers WORKERS, -w WORKERS",
    "                        Number of parallel workers",
    "  --fail-on-warning     Treat warnings as errors",
    "  --isml-only           Only <is...> tags are elements; HTML is plain text",
    "  --no-hash-expressions",
    "                        Do not recognize legacy #...# expressions in attribute",
    "                        values",
    "  --json                Print the full report as JSON"]

/-- Lines as text, each with its end. -/
def unlines (lines : List String) : String := String.join (lines.map fun l => l ++ "\n")

/-- The check that options ask for. An empty encoding stands for that of the settings. -/
def Options.toCheck (settings : Settings) (o : Options) : Check :=
  { sourceDir := .ofText o.sourceDir
    dialect := { htmlTags := !o.ismlOnly, hashExpressions := !o.noHashExpressions }
    encoding := if o.encoding.isEmpty then settings.encoding else o.encoding
    maxWorkers := o.workers
    failOnWarning := o.failOnWarning }

/-- How the command ends that has a result to show. -/
def Completion.ofResult (json : Bool) (result : CheckResult) : Completion :=
  { status := if result.failed then .failed else .ok
    output := unlines (if json then [result.toJson.render .indented] else result.lines) }

/-- Runs a check. Too few workers are noticed before the directory is looked at. -/
def runCheck (settings : Settings) (o : Options) (host : Host) : Completion :=
  match o.workers.filter (· < 1) with
  | some n => { status := .usage, error := some (.tooFewWorkers n) }
  | none =>
    match (o.toCheck settings).run host with
    | .error e => { status := .usage, error := some (.check e) }
    | .ok result => .ofResult o.json result

/-- Runs the command with its arguments on a host. -/
def run (settings : Settings) (arguments : List Text) (host : Host) : Completion :=
  match Options.ofArguments settings arguments with
  | .error .help => { status := .ok, output := unlines (helpLines settings) }
  | .error (.usage e) => { status := .usage, error := some (.usage e) }
  | .ok options => runCheck settings options host

end StoreMarkup.CommandLine
