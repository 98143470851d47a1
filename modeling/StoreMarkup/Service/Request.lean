import StoreMarkup.Json.Parser
import StoreMarkup.Service.Configuration
import StoreMarkup.Service.Location
import StoreMarkup.Text.CaseFold
import StoreMarkup.Text.WideEncoding

/-! Requests to the service and the JSON in their bodies. -/
namespace StoreMarkup.Service

inductive Method where
  | get
  | head
  | options
  | post
  | other
deriving DecidableEq, Repr

/-- The method of a name in any case. -/
def Method.ofText (name : Text) : Method :=
  match String.ofList (asciiCapitals name) with
  | "GET" => get
  | "HEAD" => head
  | "OPTIONS" => options
  | "POST" => post
  | _ => other

structure Request where
  method : Method := .post
  location : Text
  /-- The media type of the body, with its parameters. -/
  contentType : Option Text := none
  body : String := ""
  origin : Option Text := none
deriving DecidableEq, Repr

def isHeaderBlank (c : Char) : Bool := c == ' ' || c == '\t'

/-- A media type without parameters, in small letters. -/
def mediaType (contentType : Text) : Text :=
  let type := (contentType.takeWhile (· != ';')).dropWhile isHeaderBlank
  lower (type.reverse.dropWhile isHeaderBlank).reverse

/-- Whether bodies of a media type are JSON. -/
def isJsonType (type : Text) : Bool :=
  type == "application/json".toList ||
    ("application/".toList.isPrefixOf type && "+json".toList.isSuffixOf type)

/-- The mark that text in an encoding of Unicode may start with. -/
def byteOrderMark : Char := Char.ofNat 0xFEFF

def withoutMark : Text → Text
  | [] => []
  | c :: t => if c = byteOrderMark then t else c :: t

namespace Request

/-- Whether a header would end before its value does. -/
def hasBrokenHeader (r : Request) : Bool :=
  [r.origin, r.contentType].any fun value => value.any fun v => v.contains '\n' || v.contains '\r'

def hasJson (r : Request) : Bool := r.contentType.any fun t => isJsonType (mediaType t)

/-- Whether the body has more bytes than are allowed. The error is the name of a type. -/
def isTooLarge (limit : Limit) (r : Request) : Except String Bool := do
  return (← limit.bound).any fun n => n < (r.body.utf8ByteSize : Int)

/-- The text of the body, which may also be stored in wider units than bytes. -/
def bodyText (r : Request) : Option Text :=
  (detectedText r.body.toList).map withoutMark

/-- The JSON value of the body, if it is one and is declared as one. -/
def json? (r : Request) : Option Json := if r.hasJson then r.bodyText.bind Json.parse? else none

end Request

end StoreMarkup.Service
