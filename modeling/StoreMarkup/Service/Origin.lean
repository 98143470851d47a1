import StoreMarkup.Pattern.Match
import StoreMarkup.Pattern.Parser
import StoreMarkup.Text.CaseFold
import StoreMarkup.Text.Quoted

/-! The origins that may call the service. -/
namespace StoreMarkup.Service

/-- What is wrong with a list of origins. -/
inductive OriginError where
  | notText (typeName : String)
  | badPattern (text : Text)
  | tooManyRepetitions
  | incompatibleFlags
deriving DecidableEq, Repr

def OriginError.message : OriginError → String
  | notText typeName => s!"'{typeName}' object has no attribute 'split'"
  | badPattern text =>
    "Invalid regular expression in Flask-CORS configuration: " ++ String.ofList (quotedText text)
  | tooManyRepetitions => "the repetition number is too large"
  | incompatibleFlags => "ASCII and UNICODE flags are incompatible"

/-- An entry in a list of origins. -/
inductive OriginRule where
  | any
  | name (origin : Text)
  /-- The origins that start with what the pattern fits. -/
  | pattern (pattern : Pattern)
deriving Repr

namespace OriginRule

/-- Characters that make an entry a pattern. -/
def isPatternMark (c : Char) : Bool := "*\\]?$^[()".toList.contains c

/-- The rule of an entry. Case does not count in patterns. -/
def ofText (entry : Text) : Except OriginError OriginRule :=
  if entry == ['*'] || entry == ['.', '*'] then .ok any
  else if entry.any isPatternMark then
    match Pattern.parse { ignoreCase := true } entry with
    | .ok p => .ok (pattern p)
    | .error .malformed => .error (.badPattern entry)
    | .error .tooManyRepetitions => .error .tooManyRepetitions
    | .error .incompatibleFlags => .error .incompatibleFlags
  else .ok (name entry)

def allows (origin : Text) : OriginRule → Bool
  | any => true
  | name allowed => caseFold allowed == caseFold origin
  | pattern p => p.fits origin

def isAny : OriginRule → Bool
  | any => true
  | _ => false

def name? : OriginRule → Option Text
  | name origin => some origin
  | _ => none

end OriginRule

/-- The entries of a list with commas. Blanks around an entry do not count. -/
def splitOrigins (list : Text) : List Text :=
  ((Text.fields ',' list).map trimBlanks).filter fun entry => !entry.isEmpty

/-- The rules of a list. The list is also taken as one entry, which has to make sense too. -/
def originRules (list : Text) : Except OriginError (List OriginRule) := do
  let _ ← OriginRule.ofText list
  (splitOrigins list).mapM OriginRule.ofText

/-- The origins that may always call the service. -/
def localOrigins : List OriginRule :=
  [.name "http://localhost:5173".toList, .name "http://localhost:3000".toList]

/-- The first text by code points. -/
def firstOf : List Text → Option Text
  | [] => none
  | t :: rest =>
    match firstOf rest with
    | some first => some (if t.before first then t else first)
    | none => some t

/-- The origin that a response is open to. If a request has an empty one, this is every origin or
the first that is allowed by name. -/
def openTo (rules : List OriginRule) (origin : Text) : Option Text :=
  if origin.isEmpty then
    if rules.any OriginRule.isAny then some ['*'] else firstOf (rules.filterMap OriginRule.name?)
  else if rules.any fun rule => rule.allows origin then some origin
  else none

end StoreMarkup.Service
