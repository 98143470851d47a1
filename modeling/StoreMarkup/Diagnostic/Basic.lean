import StoreMarkup.Source.Position

/-! Syntax problems as they are reported: severity, code, message and place. Failures that callers
see when they ask for one. -/
namespace StoreMarkup

inductive Severity where
  | error
  | warning
deriving DecidableEq, Repr

namespace Severity

def label : Severity → String
  | error => "error"
  | warning => "warning"

def all : List Severity := [error, warning]

def ofLabel? (label : String) : Option Severity := all.find? fun s => s.label == label

end Severity

/-- The kinds of problem. Their labels are stable, so that others may refer to them. -/
inductive Code where
  | unterminatedTag
  | unterminatedExpression
  | unterminatedComment
  | unexpectedClosingTag
  | mismatchedNesting
  | unterminatedElement
  | malformedAttribute
  | malformedClosingTag
deriving DecidableEq, Repr

namespace Code

def label : Code → String
  | unterminatedTag => "unterminated-tag"
  | unterminatedExpression => "unterminated-expression"
  | unterminatedComment => "unterminated-comment"
  | unexpectedClosingTag => "unexpected-closing-tag"
  | mismatchedNesting => "mismatched-nesting"
  | unterminatedElement => "unterminated-element"
  | malformedAttribute => "malformed-attribute"
  | malformedClosingTag => "malformed-closing-tag"

def all : List Code :=
  [unterminatedTag, unterminatedExpression, unterminatedComment, unexpectedClosingTag,
    mismatchedNesting, unterminatedElement, malformedAttribute, malformedClosingTag]

def ofLabel? (label : String) : Option Code := all.find? fun c => c.label == label

/-- Stray content in a close tag does no harm. Everything else is an error. -/
def defaultSeverity : Code → Severity
  | malformedClosingTag => .warning
  | _ => .error

end Code

/-- A name that is worth showing: the empty one is not. -/
def shownName (name : Option String) : Option String := name.filter fun n => !n.isEmpty

/-- A problem at a place of a source. -/
structure Diagnostic where
  severity : Severity
  code : Code
  message : String
  span : Span
  sourceName : Option String
deriving DecidableEq, Repr

namespace Diagnostic

def isError (d : Diagnostic) : Bool := d.severity == .error

/-- Severity, message and code, after the place. -/
def describeAt (place : String) (d : Diagnostic) : String :=
  s!"{place}: {d.severity.label}: {d.message} [{d.code.label}]"

/-- The diagnostic in one line. -/
def describe (d : Diagnostic) : String :=
  d.describeAt (match shownName d.sourceName with
    | some name => s!"{name}:{d.span.label}"
    | none => d.span.label)

/-- Diagnostics by their start. Those that start together keep their order. -/
def inSourceOrder (ds : List Diagnostic) : List Diagnostic :=
  ds.mergeSort fun a b => a.span.start.offset ≤ b.span.start.offset

end Diagnostic

/-- A message about a source. -/
structure Failure where
  message : String
  sourceName : Option String
deriving DecidableEq, Repr

namespace Failure

/-- The message after the name of the source, if there is one. -/
def describe (f : Failure) : String :=
  match shownName f.sourceName with
  | some name => s!"[{name}] {f.message}"
  | none => f.message

/-- The failure of a template with the given problems, one to a line. -/
def ofDiagnostics (ds : List Diagnostic) (sourceName : Option String) : Failure :=
  let count := s!"{ds.length} problem(s) in template"
  let details := "\n".intercalate (ds.map Diagnostic.describe)
  ⟨if details.isEmpty then count else s!"{count}:\n{details}", sourceName⟩

end Failure

end StoreMarkup
