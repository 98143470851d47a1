import StoreMarkup.Report
import StoreMarkup.Service.Request

/-! The endpoints that take templates. -/
namespace StoreMarkup.Service

structure Response where
  status : Nat
  /-- The body, if it is JSON. -/
  body : Option Json := none
deriving Repr

/-- What is wrong with the data of a request. -/
inductive Refusal where
  | contentMissing
  | contentNotText
  | nameNotText
  | spansNotBoolean
deriving DecidableEq, Repr

def Refusal.message : Refusal → String
  | contentMissing => "template_content is required"
  | contentNotText => "template_content must be a string"
  | nameNotText => "source_name must be a string"
  | spansNotBoolean => "include_spans must be a boolean"

namespace Response

/-- A response that says what is wrong. -/
def error (status : Nat) (message : String) (more : List (String × Json) := []) : Response :=
  ⟨status, some (.object (("error", .string message) :: more))⟩

def refusal (r : Refusal) : Response := error 400 r.message

end Response

/-- A template in a request. -/
structure Submission where
  content : Text
  sourceName : Option String
deriving DecidableEq, Repr

namespace Submission

def content? (data : Json) : Except Refusal Text :=
  match data.get? "template_content" with
  | none | some .null => .error .contentMissing
  | some (.string content) => .ok content.toList
  | some _ => .error .contentNotText

def sourceName? (data : Json) : Except Refusal (Option String) :=
  match data.get? "source_name" with
  | none | some .null => .ok none
  | some (.string name) => .ok (some name)
  | some _ => .error .nameNotText

def ofJson (data : Json) : Except Refusal Submission := do
  let content ← content? data
  let sourceName ← sourceName? data
  return { content, sourceName }

def document (d : Dialect) (s : Submission) : Document := .parse d s.sourceName s.content

end Submission

/-- Whether places are to be shown. They are unless the data say no. -/
def spans? (data : Json) : Except Refusal Bool :=
  match data.get? "include_spans" with
  | none => .ok true
  | some (.bool b) => .ok b
  | some _ => .error .spansNotBoolean

/-- The report on a document. A limit that makes no sense is not noticed without elements, since no
level is compared with it. -/
def reportResponse (limit : Limit) (doc : Document) : Response :=
  match limit.bound with
  | .ok bound => ⟨200, some ((Report.ofDocument bound doc).toJson true)⟩
  | .error typeName =>
    if doc.maxDepth = 0 then ⟨200, some ((Report.ofDocument none doc).toJson true)⟩
    else
      .error 500 (comparisonMessage typeName)
        [("valid", .bool false), ("errors", .array []), ("warnings", .array [])]

/-- The tree of a document, unless it is nested too deep. -/
def treeResponse (limit : Limit) (spans : Bool) (doc : Document) : Response :=
  match limit.bound with
  | .error typeName => .error 500 (comparisonMessage typeName)
  | .ok none => ⟨200, some (doc.toJson spans)⟩
  | .ok (some n) =>
    if n < (doc.maxDepth : Int) then
      .error 422 s!"Template nesting exceeds {limit.text} levels; use /validate instead"
        [("max_depth", .nat doc.maxDepth)]
    else ⟨200, some (doc.toJson spans)⟩

inductive Endpoint where
  | validate
  | parse
deriving DecidableEq, Repr

namespace Endpoint

/-- The answer to the data of a request. -/
def answer (c : Configuration) (endpoint : Endpoint) (data : Json) : Response :=
  match Submission.ofJson data with
  | .error r => .refusal r
  | .ok submission =>
    match endpoint with
    | validate => reportResponse c.outlineLimit (submission.document c.dialect)
    | parse =>
      match spans? data with
      | .error r => .refusal r
      | .ok spans => treeResponse c.exportLimit spans (submission.document c.dialect)

end Endpoint

end StoreMarkup.Service
