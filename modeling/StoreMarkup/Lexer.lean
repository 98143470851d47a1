import StoreMarkup.Source.Cursor
import StoreMarkup.Token

/-! Tokens one at a time: between two tokens a lexer waits with its cursor in the source. -/
namespace StoreMarkup

/-- What a lexer is inside of, and where that starts if the source may end there. -/
inductive LexerMode where
  | markup
  /-- In an open tag, before an attribute or the end of the tag. -/
  | openTag (opener : Position) (name : Text)
  /-- In an open tag, right after the name of an attribute. -/
  | attribute (opener : Position) (name : Text)
  | closeTag (opener : Position) (name : Text)
  | expression (opener : Position)
  | expressionEnd
  /-- After the open tag of a comment, which is written as `opening`. -/
  | comment (opener : Position) (opening : Text)
  | commentEnd (closing : Text)
  | done
deriving DecidableEq, Repr

/-- A lexer between two tokens. -/
structure Lexer where
  dialect : Dialect
  cursor : Cursor
  raw : Option RawText := none
  mode : LexerMode := .markup
deriving DecidableEq, Repr

namespace Lexer

/-- A lexer before the first token. -/
def start (d : Dialect) (source : Text) : Lexer := { dialect := d, cursor := { text := source } }

/-- Moves over the given text, which the source goes on with. -/
def skip (l : Lexer) (t : Text) : Lexer := { l with cursor := (l.cursor.advanceBy t.length).2 }

/-- The token from a point to the cursor, after which the lexer waits in the given mode. -/
def emit (l : Lexer) (kind : TokenKind) (start : Position) (mode : LexerMode) : Token × Lexer :=
  let stop := l.cursor.position
  (⟨kind, l.cursor.slice start.offset (some stop.offset), ⟨start, stop⟩⟩, { l with mode })

/-- The last token of a source that ends inside a construct: all that is left from there on. -/
def emitUnterminated (l : Lexer) (construct : Unterminated) (opener : Position) : Token × Lexer :=
  let l := l.skip l.cursor.rest
  (⟨.endOfInput (some construct), l.cursor.slice opener.offset none, ⟨opener, l.cursor.position⟩⟩,
    { l with mode := .done })

/-- Text up to the next construct, or the first token of that construct. -/
def markupToken (l : Lexer) : Token × Lexer :=
  let start := l.cursor.position
  match opener? l.dialect l.raw l.cursor.rest with
  | some (.expression _) =>
    (l.skip Delimiter.dollar.opening).emit .expressionStart start (.expression start)
  | some .comment =>
    match throughBracket? l.cursor.rest with
    | some (opening, _) => (l.skip opening).emit .commentStart start (.comment start opening)
    | none => l.emitUnterminated .comment start
  | some (.openTag name _) =>
    (l.skip ('<' :: name)).emit .tagOpenStart start (.openTag start name)
  | some (.closeTag name _) =>
    (l.skip ('<' :: '/' :: name)).emit .tagCloseStart start (.closeTag start name)
  | none =>
    match l.cursor.rest with
    | [] => l.emit (.endOfInput none) start .done
    | c :: cs => (l.skip (c :: (textRun l.dialect l.raw cs).1)).emit .text start .markup

/-- The end of an open tag, an attribute name or something that does not belong there. -/
def openTagToken (l : Lexer) (opener : Position) (name : Text) : Token × Lexer :=
  let l := l.skip (blanks l.cursor.rest)
  let start := l.cursor.position
  match l.cursor.rest with
  | [] => l.emitUnterminated .tag opener
  | c :: cs =>
    if endsTag c cs then
      let slash := c == '/'
      let raw := if slash then l.raw else RawText.afterOpen l.dialect l.raw name
      (skip { l with raw } (tagEnd slash)).emit .tagOpenEnd start .markup
    else
      match Quote.ofChar? c with
      | some q =>
        match quotedTail q cs with
        | some (t, _) =>
          (l.skip (c :: t)).emit (.invalid .strayQuoted) start (.openTag opener name)
        | none => l.emitUnterminated .tag opener
      | none =>
        if c == '=' || c == '<' || c == '/' then
          (l.skip [c]).emit (.invalid (.strayMark c)) start (.openTag opener name)
        else
          match attributeName (c :: cs) with
          | some (found, _) => (l.skip found).emit .attributeName start (.attribute opener name)
          | none => l.emitUnterminated .tag opener

/-- The value of an attribute after its equals sign, which the blanks in front of `value` follow. -/
def valueToken (l : Lexer) (opener : Position) (name value : Text) : Token × Lexer :=
  let equals := l.cursor.position
  let l := l.skip ('=' :: blanks value)
  let start := l.cursor.position
  match afterBlanks value with
  | [] => l.emitUnterminated .tag opener
  | c :: cs =>
    if endsTag c cs then l.emit (.invalid .missingValue) equals (.openTag opener name)
    else
      match valueFragments l.dialect (Quote.ofChar? c) (afterQuote c cs) with
      | some (fragments, _) =>
        let value : Value := ⟨[], Quote.ofChar? c, fragments⟩
        (l.skip value.text).emit (.attributeValue (value.locatedFragments start)) start
          (.openTag opener name)
      | none => l.emitUnterminated .tag opener

/-- What follows the name of an attribute: its value, if there is an equals sign. -/
def attributeToken (l : Lexer) (opener : Position) (name : Text) : Token × Lexer :=
  match afterBlanks l.cursor.rest with
  | '=' :: value => (l.skip (blanks l.cursor.rest)).valueToken opener name value
  | _ => l.openTagToken opener name

/-- The end of a close tag or something that does not belong there. -/
def closeTagToken (l : Lexer) (opener : Position) (name : Text) : Token × Lexer :=
  match closeStep l.cursor.rest with
  | .close gap _ =>
    let l := l.skip gap
    let raw := RawText.afterClose l.raw name
    (skip { l with raw } ['>']).emit .tagCloseEnd l.cursor.position .markup
  | .more stray _ =>
    let l := l.skip stray.gap
    (l.skip stray.text).emit (.invalid .closingContent) l.cursor.position (.closeTag opener name)
  | .cutOff => l.emitUnterminated .tag opener

def expressionToken (l : Lexer) (opener : Position) : Token × Lexer :=
  match expressionBody 0 l.cursor.rest with
  | some (body, _) => (l.skip body).emit .expressionContent l.cursor.position .expressionEnd
  | none => l.emitUnterminated .expression opener

def commentToken (l : Lexer) (opener : Position) (opening : Text) : Token × Lexer :=
  if ['/', '>'].isSuffixOf opening then
    l.emit .commentContent l.cursor.position (.commentEnd [])
  else
    match commentBody? l.cursor.rest with
    | some (content, closing, _) =>
      (l.skip content).emit .commentContent l.cursor.position (.commentEnd closing)
    | none => l.emitUnterminated .comment opener

/-- The next token, unless the last one was given. -/
def pull (l : Lexer) : Option (Token × Lexer) :=
  match l.mode with
  | .markup => some l.markupToken
  | .openTag opener name => some (l.openTagToken opener name)
  | .attribute opener name => some (l.attributeToken opener name)
  | .closeTag opener name => some (l.closeTagToken opener name)
  | .expression opener => some (l.expressionToken opener)
  | .expressionEnd =>
    some ((l.skip Delimiter.dollar.closing).emit .expressionEnd l.cursor.position .markup)
  | .comment opener opening => some (l.commentToken opener opening)
  | .commentEnd closing => some ((l.skip closing).emit .commentEnd l.cursor.position .markup)
  | .done => none

/-- Up to `n` tokens, each with the lexer after it. -/
def pulls : Nat → Lexer → List (Token × Lexer)
  | 0, _ => []
  | n + 1, l =>
    match l.pull with
    | some (t, l) => (t, l) :: pulls n l
    | none => []

end Lexer

end StoreMarkup
