import StoreMarkup.Text.Alphanumeric
import StoreMarkup.Text.Lowercase

/-! What a template may be written in: its dialect, and tag names with their classes. What a tag
does is not known here, only whether it has a body, never has one, or may be left open. -/
namespace StoreMarkup

/-- The choices that change how templates are read. -/
structure Dialect where
  /-- Every tag is an element. Without it only ISML tags are, and HTML is plain text. -/
  htmlTags : Bool := true
  /-- Attribute values may hold expressions between hash signs. -/
  hashExpressions : Bool := true
deriving DecidableEq, Repr

def isNameStart (c : Char) : Bool := c.isAlpha

def isNameChar (c : Char) : Bool :=
  isAlphanumeric c || c == '-' || c == '_' || c == ':' || c == '.'

/-- The tag name at the start of a text and what follows it. -/
def splitName? (s : Text) : Option (Text × Text) :=
  match s with
  | [] => none
  | c :: _ =>
    if isNameStart c then some (s.takeWhile isNameChar, s.dropWhile isNameChar) else none

/-- Comments have a tag of their own, and what stands inside is not read. -/
def commentTag : Text := "iscomment".toList

/-- ISML tags that never have a body or a close tag. -/
def emptyTags : List Text :=
  ["isbinary", "isbreak", "iscache", "iscachekey", "iscontent", "iscookie", "isdictionary",
    "iselse", "iselseif", "isfile", "isinclude", "ismodule", "isnext", "isplaceholder",
    "ispipeline", "isprint", "isredirect", "isselect", "isset", "istext"].map String.toList

/-- ISML tags that need a close tag. -/
def bodyTags : List Text :=
  ["isfilebundle", "isform", "isif", "isloop", "isplacement", "isrender"].map String.toList

/-- HTML elements that never have a body. -/
def htmlVoidTags : List Text :=
  ["area", "base", "br", "col", "embed", "hr", "img", "input", "link", "meta", "param", "source",
    "track", "wbr"].map String.toList

/-- Elements whose body is text but for ISML constructs. -/
def rawTextTags : List Text := ["script", "style"].map String.toList

/-- Tag names are compared in lower case. -/
def canonicalName (name : Text) : Text := lower name

def isIsmlTag (name : Text) : Bool := "is".toList.isPrefixOf (canonicalName name)

/-- Whether an element is complete without a slash or a close tag. -/
def isVoid (name : Text) : Bool :=
  emptyTags.contains (canonicalName name) || htmlVoidTags.contains (canonicalName name)

/-- Whether an element may be left without a close tag. Tags that a store declares for its own
modules are written both ways. -/
def closesOptionally (name : Text) : Bool :=
  isIsmlTag name && !bodyTags.contains (canonicalName name) &&
    !emptyTags.contains (canonicalName name) && canonicalName name != commentTag

end StoreMarkup
