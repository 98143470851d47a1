import StoreMarkup.Files.Tree
import StoreMarkup.Text.Lowercase

/-! The templates of a source directory. Its first level holds one directory for each language, and
the templates are below these. -/
namespace StoreMarkup

def templateSuffix : Text := ".isml".toList

/-- Whether a file of this name is a template: more than the suffix, which may be in any case. -/
def isTemplateName (name : Text) : Bool :=
  templateSuffix.isSuffixOf (lower name) && templateSuffix.length < name.length

/-- A template by its path below the source directory. -/
structure Template where
  path : List Text
deriving DecidableEq, Repr

namespace Template

/-- The path with slashes. -/
def sourceName (t : Template) : String := String.ofList (Text.join ['/'] t.path)

def isTemplate (t : Template) : Bool := t.path.getLast?.any isTemplateName

/-- Whether the path of a template comes before that of another part by part. -/
def before (a b : Template) : Bool := a.path.lex b.path Text.before

/-- The files below a language directory. -/
def filesBelow (language : Text × FileTree) : List Template :=
  (language.2.files [language.1]).map Template.mk

/-- The templates below a language directory, in the order of their paths part by part. -/
def below (language : Text × FileTree) : List Template :=
  ((filesBelow language).filter isTemplate).mergeSort fun a b => !b.before a

/-- The language directories among the entries of a source directory, in the order of their
names. -/
def languages (entries : List (Text × FileTree)) : List (Text × FileTree) :=
  (entries.filter fun e => e.2.isDirectory).mergeSort fun a b => !Text.before b.1 a.1

/-- The templates of a source directory with these entries. -/
def collect (entries : List (Text × FileTree)) : List Template :=
  (languages entries).flatMap below

end Template

end StoreMarkup
