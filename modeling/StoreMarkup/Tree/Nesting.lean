import StoreMarkup.Construct.Scan
import StoreMarkup.Diagnostic.Problem
import StoreMarkup.Token
import StoreMarkup.Tree.Node

/-! From constructs to a tree: open elements wait on a stack for their close tags. -/
namespace StoreMarkup

/-- An element that is still open. -/
structure Frame where
  tag : Text
  attributes : List Attribute
  openText : Text
  openSpan : Span
  children : Array Node := #[]
deriving Repr

namespace Frame

def element (f : Frame) (closing : Closing) : Element :=
  ⟨f.tag, f.attributes, f.openText, f.openSpan, closing⟩

def append (f : Frame) (nodes : List Node) : Frame :=
  { f with children := f.children ++ nodes }

/-- The element with its close tag. -/
def close (f : Frame) (text : Text) (span : Span) : Node :=
  .element (f.element (.tag text span)) f.children.toList

/-- What becomes of an element without a close tag. One that may be left open is empty and leaves
its children to its parent. -/
def closeImplicitly (point : Position) (f : Frame) : List Node :=
  if closesOptionally f.tag then .element (f.element .selfClosed) [] :: f.children.toList
  else [.element (f.element (.implied point)) f.children.toList]

/-- What frames without close tags, innermost first, leave to the element around them. -/
def collapse (point : Position) (frames : List Frame) : List Node :=
  frames.foldl (fun nodes f => (f.append nodes).closeImplicitly point) []

end Frame

/-- The innermost frame of a tag, with the frames inside it and those around it. -/
def splitFrames? (tag : Text) : List Frame → Option (List Frame × Frame × List Frame)
  | [] => none
  | f :: fs =>
    if f.tag = tag then some ([], f, fs)
    else (splitFrames? tag fs).map fun (inner, found, outer) => (f :: inner, found, outer)

/-- The attribute that a part of an open tag stands for, if it is one. -/
def TagPart.attribute? (p : Position) : TagPart → Option Attribute
  | .attribute gap name none =>
    some ⟨name, none, none, name, .covering (p.advance gap) name⟩
  | .attribute gap name (some value) =>
    let source := name ++ value.lead ++ value.text
    let fragments := value.locatedFragments (p.advance (gap ++ name ++ value.lead))
    some ⟨name, some fragments, value.quote, source, .covering (p.advance gap) source⟩
  | .stray .. => none

/-- The problem that a part of an open tag is, if it is one. -/
def TagPart.problem? (tagName : Text) (p : Position) : TagPart → Option (Located Problem)
  | .attribute .. => none
  | .stray s fault =>
    some ⟨.malformedAttribute fault tagName, .covering (p.advance s.gap) s.text⟩

/-- The problem that stray text in a close tag is. -/
def Stray.problem (p : Position) (s : Stray) : Located Problem :=
  ⟨.malformedClosingTag .closingContent s.text, .covering (p.advance s.gap) s.text⟩

/-- The attributes among the parts of an open tag that starts at a point. -/
def tagAttributes (p : Position) (name : Text) (parts : List TagPart) : List Attribute :=
  (locate TagPart.source (p.advance ('<' :: name)) parts).filterMap fun part =>
    part.value.attribute? part.span.start

def tagProblems (p : Position) (name : Text) (parts : List TagPart) : List (Located Problem) :=
  (locate TagPart.source (p.advance ('<' :: name)) parts).filterMap fun part =>
    part.value.problem? name part.span.start

def closeTagProblems (p : Position) (name : Text) (strays : List Stray) :
    List (Located Problem) :=
  (locate Stray.source (p.advance ('<' :: '/' :: name)) strays).map fun stray =>
    stray.value.problem stray.span.start

/-- A tree under construction. -/
structure Nesting where
  /-- The open elements, innermost first. -/
  stack : List Frame := []
  /-- The finished nodes outside of open elements. -/
  roots : Array Node := #[]
  problems : Array (Located Problem) := #[]
deriving Repr

namespace Nesting

/-- Adds nodes to the innermost open element. -/
def append (n : Nesting) (nodes : List Node) : Nesting :=
  match n.stack with
  | [] => { n with roots := n.roots ++ nodes }
  | f :: fs => { n with stack := f.append nodes :: fs }

def report (n : Nesting) (problems : List (Located Problem)) : Nesting :=
  { n with problems := n.problems ++ problems }

/-- An element without a body is finished at once, and any other waits for its close tag. -/
def openElement (n : Nesting) (frame : Frame) (slash : Bool) : Nesting :=
  if slash || isVoid frame.tag then n.append [.element (frame.element .selfClosed) []]
  else { n with stack := frame :: n.stack }

def openTag (n : Nesting) (span : Span) (name : Text) (parts : List TagPart) (gap : Text)
    (slash : Bool) : Nesting :=
  (n.report (tagProblems span.start name parts)).openElement
    { tag := canonicalName name
      attributes := tagAttributes span.start name parts
      openText := Construct.source (.openTag name parts gap slash)
      openSpan := span } slash

/-- Elements inside the one that a close tag ends are ended with it. A close tag that ends no
element is dropped. -/
def closeElement (n : Nesting) (tag text : Text) (span : Span) : Nesting :=
  match splitFrames? tag n.stack with
  | none => n.report [⟨.unexpectedClosingTag tag, span⟩]
  | some (inner, frame, outer) =>
    let skipped := (inner.map Frame.tag).filter fun t => !closesOptionally t
    let n := if skipped.isEmpty then n else n.report [⟨.mismatchedNesting tag skipped, span⟩]
    let frame := frame.append (Frame.collapse span.start inner)
    append { n with stack := outer } [frame.close text span]

def closeTag (n : Nesting) (span : Span) (name : Text) (strays : List Stray) (gap : Text) :
    Nesting :=
  (n.report (closeTagProblems span.start name strays)).closeElement (canonicalName name)
    (Construct.source (.closeTag name strays gap)) span

/-- Adds a construct. -/
def step (n : Nesting) (c : Located Construct) : Nesting :=
  match c.value with
  | .text content => n.append [.text content c.span]
  | .expression body =>
    n.append [.expression Delimiter.dollar.opening body Delimiter.dollar.closing c.span]
  | .comment opening content closing => n.append [.comment opening content closing c.span]
  | .openTag name parts gap slash => n.openTag c.span name parts gap slash
  | .closeTag name strays gap => n.closeTag c.span name strays gap

/-- What is wrong with an ending that starts at a point: what was read of the construct, and that
it does not end. -/
def endingProblems (p : Position) : Ending → List (Located Problem)
  | .clean => []
  | .openTag name parts _ =>
    tagProblems p name parts ++
      [⟨.unterminatedTag (some ('<' :: name)), .covering p ('<' :: name)⟩]
  | .closeTag name strays _ =>
    closeTagProblems p name strays ++
      [⟨.unterminatedTag (some ('<' :: '/' :: name)), .covering p ('<' :: '/' :: name)⟩]
  | .expression _ => [⟨.unterminatedExpression, .covering p Delimiter.dollar.opening⟩]
  | .comment opening text => [⟨.unterminatedComment, .covering p (opening.getD text)⟩]

/-- What is left of a template is text. -/
def endingNodes (p : Position) : Ending → List Node
  | .clean => []
  | ending => [.text ending.source (.covering p ending.source)]

/-- Elements that are open at the end of the template and may not be. -/
def openProblems (frames : List Frame) : List (Located Problem) :=
  (frames.filter fun f => !closesOptionally f.tag).map fun f =>
    ⟨.unterminatedElement f.tag, f.openSpan⟩

/-- Ends all open elements at the end of the template. -/
def closeAll (n : Nesting) (stop : Position) : Nesting :=
  let n := n.report (openProblems n.stack)
  { n with stack := [], roots := n.roots ++ Frame.collapse stop n.stack }

/-- Ends the template with an ending that starts at a point. -/
def finish (n : Nesting) (p : Position) (ending : Ending) : Nesting :=
  ((n.report (endingProblems p ending)).append (endingNodes p ending)).closeAll
    (p.advance ending.source)

/-- The finished tree of a reading. -/
def ofReading (r : Reading) : Nesting :=
  (r.located.foldl step {}).finish r.endingStart r.ending

end Nesting

end StoreMarkup
