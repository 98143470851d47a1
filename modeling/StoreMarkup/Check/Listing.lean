import StoreMarkup.Check.Basic

/-! The result of a check as lines of text. -/
namespace StoreMarkup

/-- Diagnostics in the order of their places, with equal places in the order given. -/
def inLineOrder (ds : List Diagnostic) : List Diagnostic :=
  ds.mergeSort fun a b =>
    a.span.start.line < b.span.start.line ||
      (a.span.start.line == b.span.start.line && a.span.start.column ≤ b.span.start.column)

/-- A line for each problem that makes the template fail. Every template of a check has a name. -/
def Report.problemLines (strict : Bool) (r : Report) : List String :=
  (inLineOrder (r.errors ++ if strict then r.warnings else [])).map fun d =>
    r.sourceName.getD "" ++ s!":{d.span.start.line}:{d.span.start.column}: " ++
      s!"{d.severity.label}: {d.message} [{d.code.label}]"

namespace CheckResult

def summaryLine (r : CheckResult) : String :=
  s!"{r.reports.length} templates checked, {r.failedReports.length} failed, " ++
    s!"{r.unreadable.length} unreadable " ++
    s!"({r.errorCount} errors, {r.warningCount} warnings)"

def lines (r : CheckResult) : List String :=
  r.reports.flatMap (·.problemLines r.failOnWarning) ++
    r.unreadable.map (fun u => s!"{u.sourceName}: unreadable: {u.reason.message}") ++
    [r.summaryLine]

end CheckResult

end StoreMarkup
