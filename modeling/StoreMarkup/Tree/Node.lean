import StoreMarkup.Construct.Basic

/-! The tree of a template. -/
namespace StoreMarkup

/-- What kind of value an attribute has. -/
inductive ValueKind where
  | none
  | literal
  | expression
  | mixed
deriving DecidableEq, Repr

def ValueKind.label : ValueKind → String
  | none => "none"
  | literal => "literal"
  | expression => "expression"
  | mixed => "mixed"

/-- An attribute of an element. -/
structure Attribute where
  /-- The name as it is written. -/
  name : Text
  /-- The parts of the value, if there is an equals sign. -/
  value : Option (List (Located Fragment))
  quote : Option Quote
  /-- The attribute as it is written. -/
  source : Text
  span : Span
deriving DecidableEq, Repr

namespace Attribute

/-- The parts of the value that are expressions. -/
def expressions (a : Attribute) : List (Located Fragment) :=
  (a.value.getD []).filter fun f => f.value.isExpression

def valueKind (a : Attribute) : ValueKind :=
  match a.value with
  | none => .none
  | some fragments =>
    if a.expressions.isEmpty then .literal
    else if fragments.length = 1 then .expression
    else .mixed

/-- The value of an attribute without expressions. -/
def literalValue? (a : Attribute) : Option Text :=
  match a.valueKind with
  | .literal => some ((a.value.getD []).flatMap fun f => f.value.source)
  | _ => none

end Attribute

/-- How an element ends. -/
inductive Closing where
  /-- With its open tag: by a slash, by its name, or because it was left open and may be. -/
  | selfClosed
  | tag (text : Text) (span : Span)
  /-- Without a close tag at the given point, where another tag or the template ends it. -/
  | implied (point : Position)
deriving DecidableEq, Repr

/-- An element but for its children. -/
structure Element where
  /-- The name in lower case. -/
  tag : Text
  attributes : List Attribute
  openText : Text
  openSpan : Span
  closing : Closing
deriving DecidableEq, Repr

namespace Element

def selfClosing (e : Element) : Bool := e.closing == .selfClosed

/-- Whether the close tag is missing. -/
def recovered (e : Element) : Bool :=
  match e.closing with
  | .implied _ => true
  | _ => false

def closeText (e : Element) : Text :=
  match e.closing with
  | .tag text _ => text
  | _ => []

def closeSpan? (e : Element) : Option Span :=
  match e.closing with
  | .selfClosed => none
  | .tag _ span => some span
  | .implied point => some (.point point)

/-- From the open tag to the end of the close tag. -/
def span (e : Element) : Span :=
  match e.closeSpan? with
  | none => e.openSpan
  | some close => ⟨e.openSpan.start, close.stop⟩

/-- The attributes of a name, which may be given more than once. -/
def attributesNamed (e : Element) (name : Text) : List Attribute :=
  e.attributes.filter fun a => a.name == name

def attribute? (e : Element) (name : Text) : Option Attribute := (e.attributesNamed name).head?

end Element

/-- A node of the tree. -/
inductive Node where
  | text (content : Text) (span : Span)
  | expression (opening body closing : Text) (span : Span)
  | comment (opening content closing : Text) (span : Span)
  | element (element : Element) (children : List Node)
deriving Repr

inductive NodeKind where
  | text
  | element
  | expression
  | comment
deriving DecidableEq, Repr

def NodeKind.label : NodeKind → String
  | text => "text"
  | element => "element"
  | expression => "expression"
  | comment => "comment"

namespace Node

def kind : Node → NodeKind
  | text .. => .text
  | expression .. => .expression
  | comment .. => .comment
  | element .. => .element

def span : Node → Span
  | text _ span | expression _ _ _ span | comment _ _ _ span => span
  | element e _ => e.span

def children : Node → List Node
  | element _ children => children
  | _ => []

def element? : Node → Option Element
  | element e _ => some e
  | _ => none

end Node

end StoreMarkup
