import StoreMarkup.Construct.Tag

/-! The constructs of a template, each with every character that belongs to it. -/
namespace StoreMarkup

/-- A piece of a template that is read as a unit. -/
inductive Construct where
  | text (content : Text)
  | openTag (name : Text) (parts : List TagPart) (gap : Text) (slash : Bool)
  | closeTag (name : Text) (strays : List Stray) (gap : Text)
  | expression (body : Text)
  | comment (opening content closing : Text)
deriving DecidableEq, Repr

/-- The construct as it is written. -/
def Construct.source : Construct → Text
  | text content => content
  | openTag name parts gap slash =>
    '<' :: name ++ parts.flatMap TagPart.source ++ gap ++ tagEnd slash
  | closeTag name strays gap =>
    '<' :: '/' :: name ++ strays.flatMap Stray.source ++ gap ++ ['>']
  | expression body => Delimiter.dollar.opening ++ body ++ Delimiter.dollar.closing
  | comment opening content closing => opening ++ content ++ closing

/-- The kinds of construct that a template can end inside. -/
inductive Unterminated where
  | tag
  | expression
  | comment
deriving DecidableEq, Repr

def Unterminated.label : Unterminated → String
  | tag => "tag"
  | expression => "expression"
  | comment => "comment"

/-- How a template ends: between constructs, or inside one, of which `text` is all that is left
from its first character on. -/
inductive Ending where
  | clean
  | openTag (name : Text) (parts : List TagPart) (text : Text)
  | closeTag (name : Text) (strays : List Stray) (text : Text)
  | expression (text : Text)
  | comment (opening : Option Text) (text : Text)
deriving DecidableEq, Repr

namespace Ending

/-- What is left of the template. -/
def source : Ending → Text
  | clean => []
  | openTag _ _ text | closeTag _ _ text | expression text | comment _ text => text

def unterminated? : Ending → Option Unterminated
  | clean => none
  | openTag .. | closeTag .. => some .tag
  | expression _ => some .expression
  | comment .. => some .comment

end Ending

/-- A template as its constructs and its ending. -/
structure Reading where
  constructs : List Construct
  ending : Ending
deriving DecidableEq, Repr

/-- The template that was read. -/
def Reading.source (r : Reading) : Text :=
  r.constructs.flatMap Construct.source ++ r.ending.source

end StoreMarkup
