import StoreMarkup.Construct.Basic
import StoreMarkup.Diagnostic.Collector
import StoreMarkup.Text.Quoted

/-! What can be wrong with a template, and the words for it. -/
namespace StoreMarkup

/-- A cause of a diagnostic. -/
inductive Problem where
  /-- The template ends inside a tag. It starts with `opening` if its start was read. -/
  | unterminatedTag (opening : Option Text)
  | unterminatedExpression
  | unterminatedComment
  | unexpectedClosingTag (tag : Text)
  /-- A close tag ends elements inside its own, given innermost first. -/
  | mismatchedNesting (tag : Text) (inner : List Text)
  | unterminatedElement (tag : Text)
  | malformedAttribute (fault : Fault) (name : Text)
  | malformedClosingTag (fault : Fault) (content : Text)
deriving DecidableEq, Repr

namespace Problem

def code : Problem → Code
  | unterminatedTag _ => .unterminatedTag
  | unterminatedExpression => .unterminatedExpression
  | unterminatedComment => .unterminatedComment
  | unexpectedClosingTag _ => .unexpectedClosingTag
  | mismatchedNesting .. => .mismatchedNesting
  | unterminatedElement _ => .unterminatedElement
  | malformedAttribute .. => .malformedAttribute
  | malformedClosingTag .. => .malformedClosingTag

/-- A tag name in angle brackets. -/
def bracketed (tag : Text) : String := "<" ++ String.ofList tag ++ ">"

def message : Problem → String
  | unterminatedTag none => "Unterminated tag: missing '>'"
  | unterminatedTag (some opening) =>
    "Unterminated tag " ++ String.ofList opening ++ ": missing '>'"
  | unterminatedExpression => "Unterminated expression: missing '\x7d'"
  | unterminatedComment => "Unterminated comment: missing </iscomment>"
  | unexpectedClosingTag tag =>
    "Closing tag " ++ bracketed ('/' :: tag) ++ " has no matching open tag"
  | mismatchedNesting tag inner =>
    "Closing tag " ++ bracketed ('/' :: tag) ++ " does not match the open " ++
      ", ".intercalate (inner.map bracketed)
  | unterminatedElement tag => "Element " ++ bracketed tag ++ " is never closed"
  | malformedAttribute fault name => fault.message ++ " in " ++ bracketed name
  | malformedClosingTag fault content =>
    fault.message ++ ": " ++ String.ofList (quotedText content)

/-- The diagnostic of a problem. -/
def diagnostic (c : Collector) (p : Located Problem) : Diagnostic :=
  c.diagnostic p.value.code p.value.message p.span none

end Problem

/-- The diagnostics of problems in the order of their discovery. -/
def Collector.ofProblems (sourceName : Option String) (problems : List (Located Problem)) :
    Collector :=
  let empty : Collector := { sourceName }
  { empty with reported := (problems.map (Problem.diagnostic empty)).toArray }

end StoreMarkup
