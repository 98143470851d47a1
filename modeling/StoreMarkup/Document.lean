import StoreMarkup.Tree.Export
import StoreMarkup.Tree.Nesting
import StoreMarkup.Tree.Source

/-! Template text as callers hand it over, and parsed templates. -/
namespace StoreMarkup

/-- Why a value is no template text. -/
inductive SourceError where
  | missing
  | notText (typeName : String)
deriving DecidableEq, Repr

def SourceError.message : SourceError → String
  | missing => "Template source is required"
  | notText typeName => s!"Template source must be a string, got {typeName}"

/-- The template text that a value holds. -/
def Json.sourceText : Json → Except SourceError Text
  | .null => .error .missing
  | .string value => .ok value.toList
  | value => .error (.notText value.typeName)

/-- A template as a forest of nodes, with everything that is wrong with it. -/
structure Document where
  children : List Node
  /-- In source order. -/
  diagnostics : List Diagnostic
  sourceName : Option String
  /-- The number of characters of the template. -/
  length : Nat
deriving Repr

namespace Document

/-- The document of a finished tree. -/
def ofNesting (sourceName : Option String) (source : Text) (nesting : Nesting) : Document :=
  { children := nesting.roots.toList
    diagnostics := (Collector.ofProblems sourceName nesting.problems.toList).freeze.1
    sourceName
    length := source.length }

/-- Parses a template. This never fails: problems become diagnostics. -/
def parse (d : Dialect) (sourceName : Option String) (source : Text) : Document :=
  ofNesting sourceName source (Nesting.ofReading (.ofText d source))

def errors (doc : Document) : List Diagnostic := doc.diagnostics.filter (·.isError)

def warnings (doc : Document) : List Diagnostic := doc.diagnostics.filter (!·.isError)

def hasErrors (doc : Document) : Bool := doc.diagnostics.any (·.isError)

/-- How deep elements are nested, zero without elements. -/
def maxDepth (doc : Document) : Nat := Node.maxDepth doc.children

/-- The template text, without the close tags that were dropped. -/
def toSource (doc : Document) : Text := Node.write doc.children

/-- The elements in document order, all of them or those of a tag. The empty name stands for
all. -/
def elements (doc : Document) (tag : Option Text) : List Element :=
  Node.elements ((tag.filter (!·.isEmpty)).map lower) doc.children

/-- Fails if there are errors, or warnings if these count, too. -/
def check (doc : Document) (strict : Bool) : Except Failure Unit :=
  let failing := if strict then doc.diagnostics else doc.errors
  if failing.isEmpty then .ok () else .error (.ofDiagnostics failing doc.sourceName)

end Document

def Diagnostic.toJson (d : Diagnostic) : Json :=
  .object [("severity", .string d.severity.label), ("code", .string d.code.label),
    ("message", .string d.message), ("line", .nat d.span.start.line),
    ("column", .nat d.span.start.column), ("span", d.span.toJson)]

/-- A name as JSON. -/
def Json.name (name : Option String) : Json :=
  match name with
  | some n => .string n
  | none => .null

def Document.toJson (spans : Bool) (doc : Document) : Json :=
  .object [("source_name", .name doc.sourceName), ("valid", .bool (!doc.hasErrors)),
    ("children", .array (Node.exportAll spans doc.children)),
    ("diagnostics", .array (doc.diagnostics.map Diagnostic.toJson))]

end StoreMarkup
