import StoreMarkup.Construct.Basic
import StoreMarkup.Vocabulary

/-! Raw text: in the body of a script or a style only ISML constructs are read. -/
namespace StoreMarkup

/-- The raw text element that the reading is inside of. -/
structure RawText where
  tag : Text
  /-- ISML tags opened in the body and not closed yet. Tags that are left open count too. -/
  depth : Nat
deriving DecidableEq, Repr

/-- Whether a tag with this name is read as a tag. Raw text has its own close tag, too. -/
def recognizes (d : Dialect) (raw : Option RawText) (name : Text) (closing : Bool) : Bool :=
  match raw with
  | some r => isIsmlTag name || (closing && canonicalName name == r.tag)
  | none => d.htmlTags || isIsmlTag name

/-- An open tag, not closed by a slash, starts raw text or goes deeper into it. -/
def RawText.afterOpen (d : Dialect) (raw : Option RawText) (name : Text) : Option RawText :=
  match raw with
  | some r =>
    if isIsmlTag name && !isVoid name then some { r with depth := r.depth + 1 } else some r
  | none =>
    if d.htmlTags && rawTextTags.contains (canonicalName name) then some ⟨canonicalName name, 0⟩
    else none

/-- Raw text ends with its own close tag, and with an ISML close tag when no ISML tag is open in
it: that tag closes an element around the raw text. -/
def RawText.afterClose (raw : Option RawText) (name : Text) : Option RawText :=
  match raw with
  | some r =>
    if canonicalName name = r.tag then none
    else if isIsmlTag name then
      match r.depth with
      | 0 => none
      | depth + 1 => some { r with depth }
    else some r
  | none => none

/-- Where the reading is after a construct. -/
def RawText.after (d : Dialect) (raw : Option RawText) : Construct → Option RawText
  | .openTag name _ _ false => afterOpen d raw name
  | .closeTag name _ _ => afterClose raw name
  | _ => raw

end StoreMarkup
