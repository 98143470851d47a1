import StoreMarkup.Construct.Scan
import StoreMarkup.Text.Quoted

/-! The constructs of a template as a flat stream of tokens. -/
namespace StoreMarkup

/-- What a token is, with what is known of it beyond its text. -/
inductive TokenKind where
  | text
  | tagOpenStart
  | tagOpenEnd
  | tagCloseStart
  | tagCloseEnd
  | attributeName
  | attributeValue (fragments : List (Located Fragment))
  | expressionStart
  | expressionContent
  | expressionEnd
  | commentStart
  | commentContent
  | commentEnd
  | invalid (fault : Fault)
  | endOfInput (unterminated : Option Unterminated)
deriving DecidableEq, Repr

def TokenKind.label : TokenKind → String
  | text => "TEXT"
  | tagOpenStart => "TAG_OPEN_START"
  | tagOpenEnd => "TAG_OPEN_END"
  | tagCloseStart => "TAG_CLOSE_START"
  | tagCloseEnd => "TAG_CLOSE_END"
  | attributeName => "ATTRIBUTE_NAME"
  | attributeValue _ => "ATTRIBUTE_VALUE"
  | expressionStart => "EXPRESSION_START"
  | expressionContent => "EXPRESSION_CONTENT"
  | expressionEnd => "EXPRESSION_END"
  | commentStart => "COMMENT_START"
  | commentContent => "COMMENT_CONTENT"
  | commentEnd => "COMMENT_END"
  | invalid _ => "INVALID"
  | endOfInput _ => "END_OF_INPUT"

/-- A piece of the source with its kind. -/
structure Token where
  kind : TokenKind
  text : Text
  span : Span
deriving DecidableEq, Repr

namespace Token

/-- A token that starts at a point. -/
def place (p : Position) (kind : TokenKind) (text : Text) : Token :=
  ⟨kind, text, .covering p text⟩

/-- Tokens that follow each other directly. -/
def placeAll (p : Position) : List (TokenKind × Text) → List Token
  | [] => []
  | (kind, text) :: rest => place p kind text :: placeAll (p.advance text) rest

/-- The token in one line. -/
def describe (t : Token) : String :=
  let value := String.ofList (quotedText t.text)
  s!"Token({t.kind.label}, {value}, pos={t.span.start.offset})"

end Token

/-- The tokens of a part of an open tag that starts at a point. -/
def TagPart.tokens (p : Position) : TagPart → List Token
  | .attribute gap name none => [.place (p.advance gap) .attributeName name]
  | .attribute gap name (some value) =>
    let start := p.advance (gap ++ name ++ value.lead)
    [.place (p.advance gap) .attributeName name,
      .place start (.attributeValue (value.locatedFragments start)) value.text]
  | .stray s fault => [.place (p.advance s.gap) (.invalid fault) s.text]

/-- The token of stray text in a close tag. -/
def Stray.token (p : Position) (s : Stray) : Token :=
  .place (p.advance s.gap) (.invalid .closingContent) s.text

/-- The tokens of an open tag but for its end. -/
def openTagTokens (p : Position) (name : Text) (parts : List TagPart) : List Token :=
  .place p .tagOpenStart ('<' :: name) ::
    (locate TagPart.source (p.advance ('<' :: name)) parts).flatMap fun part =>
      part.value.tokens part.span.start

/-- The tokens of a close tag but for its end. -/
def closeTagTokens (p : Position) (name : Text) (strays : List Stray) : List Token :=
  .place p .tagCloseStart ('<' :: '/' :: name) ::
    (locate Stray.source (p.advance ('<' :: '/' :: name)) strays).map fun stray =>
      stray.value.token stray.span.start

/-- The tokens of a construct that starts at a point. -/
def Construct.tokens (p : Position) : Construct → List Token
  | text content => [.place p .text content]
  | openTag name parts gap slash =>
    let stop := p.advance ('<' :: name ++ parts.flatMap TagPart.source ++ gap)
    openTagTokens p name parts ++ [.place stop .tagOpenEnd (tagEnd slash)]
  | closeTag name strays gap =>
    let stop := p.advance ('<' :: '/' :: name ++ strays.flatMap Stray.source ++ gap)
    closeTagTokens p name strays ++ [.place stop .tagCloseEnd ['>']]
  | expression body =>
    Token.placeAll p [(.expressionStart, Delimiter.dollar.opening), (.expressionContent, body),
      (.expressionEnd, Delimiter.dollar.closing)]
  | comment opening content closing =>
    Token.placeAll p [(.commentStart, opening), (.commentContent, content), (.commentEnd, closing)]

/-- The tokens of an ending that starts at a point. The last of them covers all that is left. -/
def Ending.tokens (p : Position) (e : Ending) : List Token :=
  let started := match e with
    | clean | comment none _ => []
    | openTag name parts _ => openTagTokens p name parts
    | closeTag name strays _ => closeTagTokens p name strays
    | expression _ => [.place p .expressionStart Delimiter.dollar.opening]
    | comment (some opening) _ => [.place p .commentStart opening]
  started ++ [.place p (.endOfInput e.unterminated?) e.source]

namespace Reading

/-- The constructs with their places in the source. -/
def located (r : Reading) : List (Located Construct) :=
  locate Construct.source .start r.constructs

/-- Where the ending starts. -/
def endingStart (r : Reading) : Position :=
  Position.start.advance (r.constructs.flatMap Construct.source)

def tokens (r : Reading) : List Token :=
  (r.located.flatMap fun c => c.value.tokens c.span.start) ++ r.ending.tokens r.endingStart

end Reading

/-- The tokens of a template. -/
def tokenize (d : Dialect) (source : Text) : List Token := (Reading.ofText d source).tokens

end StoreMarkup
