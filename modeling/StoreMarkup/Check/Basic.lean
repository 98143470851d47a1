import StoreMarkup.Check.Templates
import StoreMarkup.Report

/-! Checking all templates of a source directory, so that a build can stop before they are in
use. -/
namespace StoreMarkup

/-- What to check and how. -/
structure Check where
  sourceDir : Path
  dialect : Dialect := {}
  /-- The name of the encoding that the templates are stored in. -/
  encoding : Text := "UTF-8".toList
  /-- How many templates may be checked at a time. It does not change the result. -/
  maxWorkers : Option Int := none
  failOnWarning : Bool := false
deriving DecidableEq, Repr

/-- Why there is no result at all. -/
inductive CheckError where
  | directoryNotFound (path : Path)
  | noWorkers
deriving DecidableEq, Repr

def CheckError.message : CheckError → String
  | directoryNotFound path =>
    "Template source directory not found: " ++ String.ofList path.toText
  | noWorkers => "max_workers must be greater than 0"

/-- Why a template cannot be read. -/
inductive ReadError where
  | file (path : Path) (error : FileError)
  | decode (error : DecodeError)
deriving DecidableEq, Repr

def ReadError.message : ReadError → String
  | file path error => error.message path
  | decode error => error.message

/-- A template that cannot be read. -/
structure Unreadable where
  sourceName : String
  reason : ReadError
deriving DecidableEq, Repr

/-- The result for one template. -/
inductive Outcome where
  | report (report : Report)
  | unreadable (template : Unreadable)
deriving Repr

namespace Outcome

def report? : Outcome → Option Report
  | report r => some r
  | unreadable _ => none

def unreadable? : Outcome → Option Unreadable
  | report _ => none
  | unreadable u => some u

end Outcome

/-- The result for a source directory. -/
structure CheckResult where
  sourceDir : Path
  failOnWarning : Bool
  reports : List Report := []
  unreadable : List Unreadable := []
deriving Repr

namespace CheckResult

def failedReports (r : CheckResult) : List Report := r.reports.filter (·.failed r.failOnWarning)

def errorCount (r : CheckResult) : Nat := (r.reports.flatMap (·.errors)).length

def warningCount (r : CheckResult) : Nat := (r.reports.flatMap (·.warnings)).length

def failed (r : CheckResult) : Bool := !r.unreadable.isEmpty || !r.failedReports.isEmpty

end CheckResult

namespace Check

/-- The report on the text of a template. -/
def reportOn (c : Check) (sourceName : String) (source : Text) : Report :=
  .ofDocument none (.parse c.dialect (some sourceName) source)

/-- The text of the file at a path. -/
def readText (c : Check) (host : Host) (path : Path) : Except ReadError Text :=
  match host.read path with
  | .error e => .error (.file path e)
  | .ok bytes =>
    match host.codecs.decodeText c.encoding bytes with
    | .error e => .error (.decode e)
    | .ok source => .ok source

/-- Checks the template at a path. -/
def checkFile (c : Check) (host : Host) (sourceName : String) (path : Path) : Outcome :=
  match c.readText host path with
  | .ok source => .report (c.reportOn sourceName source)
  | .error reason => .unreadable ⟨sourceName, reason⟩

/-- The templates to check. -/
def collect (c : Check) (host : Host) : Except CheckError (List Template) :=
  match host.find c.sourceDir with
  | .ok (.directory entries) => .ok (Template.collect entries)
  | _ => .error (.directoryNotFound c.sourceDir)

/-- Where a template is. -/
def pathOf (c : Check) (t : Template) : Path := c.sourceDir.append { parts := t.path }

/-- Sorts outcomes into reports and unreadable templates. -/
def gather (c : Check) (outcomes : List Outcome) : CheckResult :=
  { sourceDir := c.sourceDir
    failOnWarning := c.failOnWarning
    reports := outcomes.filterMap Outcome.report?
    unreadable := outcomes.filterMap Outcome.unreadable? }

/-- Checks all templates. Workers are only needed if there are any. -/
def run (c : Check) (host : Host) : Except CheckError CheckResult :=
  match c.collect host with
  | .error e => .error e
  | .ok templates =>
    if !templates.isEmpty && c.maxWorkers.any (· ≤ 0) then .error .noWorkers
    else .ok (c.gather (templates.map fun t => c.checkFile host t.sourceName (c.pathOf t)))

end Check

def Unreadable.toJson (u : Unreadable) : Json :=
  .object [("source_name", .string u.sourceName), ("reason", .string u.reason.message)]

def Outcome.toJson : Outcome → Json
  | report r => r.toJson false
  | unreadable u => u.toJson

def CheckResult.toJson (r : CheckResult) : Json :=
  let stats : Json :=
    .object [("templates", .nat r.reports.length), ("failed", .nat r.failedReports.length),
      ("unreadable", .nat r.unreadable.length), ("errors", .nat r.errorCount),
      ("warnings", .nat r.warningCount)]
  .object [("src_dir", .text r.sourceDir.toText), ("failed", .bool r.failed), ("stats", stats),
    ("templates", .array (r.reports.map fun p => p.toJson false)),
    ("unreadable", .array (r.unreadable.map Unreadable.toJson))]

end StoreMarkup
