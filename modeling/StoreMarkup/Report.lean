import StoreMarkup.Document
import StoreMarkup.Tree.Outline

/-! What a template holds and what is wrong with it, for editors and builds. -/
namespace StoreMarkup

/-- Counts over the nodes of a forest. -/
structure Statistics where
  textNodes : Nat := 0
  elements : Nat := 0
  ismlTags : Nat := 0
  /-- Expressions in the text and in attribute values. -/
  expressions : Nat := 0
  comments : Nat := 0
  maxDepth : Nat := 0
  /-- The ISML tags in use, each once, in the order of their first use. -/
  tags : List Text := []
deriving DecidableEq, Repr

namespace Statistics

/-- Counts an element at a level. -/
def addElement (s : Statistics) (e : Element) (level : Nat) : Statistics :=
  let isml := isIsmlTag e.tag
  { s with
    elements := s.elements + 1
    ismlTags := if isml then s.ismlTags + 1 else s.ismlTags
    expressions := s.expressions + (e.attributes.flatMap (·.expressions)).length
    maxDepth := max s.maxDepth level
    tags := if isml && !s.tags.contains e.tag then s.tags ++ [e.tag] else s.tags }

/-- Counts a node at a level, but for its children. -/
def add (s : Statistics) (node : Node) (level : Nat) : Statistics :=
  match node with
  | .text .. => { s with textNodes := s.textNodes + 1 }
  | .expression .. => { s with expressions := s.expressions + 1 }
  | .comment .. => { s with comments := s.comments + 1 }
  | .element e _ => s.addElement e level

/-- Counts the nodes of a forest whose top nodes have the given levels. -/
def addAll (s : Statistics) (nodes : List (Node × Nat)) : Statistics :=
  match nodes with
  | [] => s
  | (node, level) :: rest =>
    addAll (s.add node level) (node.children.map (·, level + 1) ++ rest)
termination_by Node.sizeAll (nodes.map Prod.fst)
decreasing_by simp [Function.comp_def, Node.size_eq]

def ofNodes (nodes : List Node) : Statistics := addAll {} (nodes.map (·, 1))

end Statistics

/-- The findings about one template. -/
structure Report where
  sourceName : Option String
  errors : List Diagnostic
  warnings : List Diagnostic
  statistics : Statistics
  /-- The number of all diagnostics. -/
  diagnostics : Nat
  outline : List Outline
deriving Repr

namespace Report

/-- The report on a document, with the outline down to a level. -/
def ofDocument (limit : Option Int) (doc : Document) : Report :=
  { sourceName := doc.sourceName
    errors := doc.errors
    warnings := doc.warnings
    statistics := .ofNodes doc.children
    diagnostics := doc.diagnostics.length
    outline := Outline.ofNodes limit doc.children }

def isValid (r : Report) : Bool := r.errors.isEmpty

/-- Whether the template is to be refused. With `strict` warnings count, too. -/
def failed (strict : Bool) (r : Report) : Bool := !r.isValid || (strict && !r.warnings.isEmpty)

def toJson (outline : Bool) (r : Report) : Json :=
  let s := r.statistics
  let stats : Json :=
    .object [("text_nodes", .nat s.textNodes), ("elements", .nat s.elements),
      ("isml_tags", .nat s.ismlTags), ("expressions", .nat s.expressions),
      ("comments", .nat s.comments), ("max_depth", .nat s.maxDepth),
      ("diagnostics", .nat r.diagnostics)]
  let fields : List (String × Json) :=
    [("valid", .bool r.isValid), ("source_name", .name r.sourceName),
      ("errors", .array (r.errors.map Diagnostic.toJson)),
      ("warnings", .array (r.warnings.map Diagnostic.toJson)),
      ("tags", .array (s.tags.map Json.text)), ("stats", stats)]
  .object (if outline then fields ++ [("outline", .array (Outline.allToJson r.outline))]
    else fields)

end Report

end StoreMarkup
