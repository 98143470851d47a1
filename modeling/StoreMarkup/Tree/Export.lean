import StoreMarkup.Json.Basic
import StoreMarkup.Tree.Fold

/-! Trees as JSON. -/
namespace StoreMarkup

def Json.text (t : Text) : Json := .string (String.ofList t)

def Json.nat (n : Nat) : Json := .int n

def Span.toJson (s : Span) : Json :=
  .object [("start_offset", .nat s.start.offset), ("end_offset", .nat s.stop.offset),
    ("start_line", .nat s.start.line), ("start_column", .nat s.start.column),
    ("end_line", .nat s.stop.line), ("end_column", .nat s.stop.column)]

/-- An object that ends with a place, if places are wanted. -/
def withSpan (spans : Bool) (fields : List (String × Json)) (span : Span) : Json :=
  .object (if spans then fields ++ [("span", span.toJson)] else fields)

def Fragment.toJson (spans : Bool) (f : Located Fragment) : Json :=
  let fields := match f.value with
    | .literal text => [("type", .string "literal"), ("text", .text text)]
    | .expression delimiter body =>
      [("type", .string "expression"), ("expression", .text body),
        ("delimiter", .text delimiter.opening)]
  withSpan spans fields f.span

def Attribute.toJson (spans : Bool) (a : Attribute) : Json :=
  let value := match a.value with
    | none => .null
    | some fragments => .array (fragments.map (Fragment.toJson spans))
  withSpan spans
    [("name", .text a.name), ("value_kind", .string a.valueKind.label), ("value", value)] a.span

namespace Node

/-- The fields of a node, where `children` are those of its children. -/
def toJson (spans : Bool) (node : Node) (children : List Json) : Json :=
  let fields := match node with
    | text content _ => [("type", .string "text"), ("content", .text content)]
    | comment _ content _ _ => [("type", .string "comment"), ("content", .text content)]
    | expression opening body _ _ =>
      [("type", .string "expression"), ("expression", .text body), ("delimiter", .text opening)]
    | element e _ =>
      [("type", .string "element"), ("tag_name", .text e.tag),
        ("self_closing", .bool e.selfClosing),
        ("attributes", .array (e.attributes.map (Attribute.toJson spans))),
        ("children", .array children)]
  withSpan spans fields node.span

/-- Only an element has children to wait for. -/
def exportVisit (spans : Bool) (node : Node) : Visit Json :=
  match node.kind with
  | .element => .branch (node.toJson spans)
  | _ => .leaf (node.toJson spans [])

/-- The JSON values of a forest. -/
def exportAll (spans : Bool) (nodes : List Node) : List Json :=
  fold (fun _ => exportVisit spans) nodes

end Node

end StoreMarkup
