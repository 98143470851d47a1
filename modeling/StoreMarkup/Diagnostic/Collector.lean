import StoreMarkup.Diagnostic.Basic

/-! Collecting diagnostics until they are handed out. -/
namespace StoreMarkup

/-- Diagnostics in the order of their reports. Once frozen, no more are taken. -/
structure Collector where
  sourceName : Option String
  reported : Array Diagnostic := #[]
  frozen : Bool := false
deriving DecidableEq, Repr

/-- A report after the diagnostics were handed out. -/
inductive CollectorError where
  | frozen
deriving DecidableEq, Repr

def CollectorError.message : CollectorError → String
  | frozen => "Diagnostics are immutable once parsing has finished"

namespace Collector

def size (c : Collector) : Nat := c.reported.size

def errorCount (c : Collector) : Nat := c.reported.countP Diagnostic.isError

/-- A diagnostic of this collector's source. Without a severity it has that of its code. -/
def diagnostic (c : Collector) (code : Code) (message : String) (span : Span)
    (severity : Option Severity) : Diagnostic :=
  ⟨severity.getD code.defaultSeverity, code, message, span, c.sourceName⟩

def report (c : Collector) (code : Code) (message : String) (span : Span)
    (severity : Option Severity) : Except CollectorError (Diagnostic × Collector) :=
  if c.frozen then .error .frozen
  else
    let d := c.diagnostic code message span severity
    .ok (d, { c with reported := c.reported.push d })

/-- Hands the diagnostics out in source order. -/
def freeze (c : Collector) : List Diagnostic × Collector :=
  (Diagnostic.inSourceOrder c.reported.toList, { c with frozen := true })

/-- What can be asked of a collector. -/
inductive Call where
  | report (code : Code) (message : String) (span : Span) (severity : Option Severity)
  | freeze
deriving DecidableEq, Repr

/-- What a collector answers. -/
inductive Answer where
  | reported (diagnostic : Diagnostic)
  | refused (error : CollectorError)
  | handedOut (diagnostics : List Diagnostic)
deriving DecidableEq, Repr

/-- The answer to a call, and the collector after it. -/
def call (c : Collector) : Call → Answer × Collector
  | .report code message span severity =>
    match c.report code message span severity with
    | .ok (d, c) => (.reported d, c)
    | .error error => (.refused error, c)
  | .freeze =>
    let (ds, c) := c.freeze
    (.handedOut ds, c)

/-- The answers to calls one after the other, and the collector after them. -/
def run (c : Collector) : List Call → List Answer × Collector
  | [] => ([], c)
  | call :: calls =>
    let (answer, c) := c.call call
    let (answers, c) := run c calls
    (answer :: answers, c)

end Collector

end StoreMarkup
