import StoreMarkup.Source.Position
import StoreMarkup.Text.Lowercase

/-! A cursor that moves over a source and looks around. -/
namespace StoreMarkup

/-- A source with a point in it. -/
structure Cursor where
  text : Text
  position : Position := {}
deriving DecidableEq, Repr

/-- A look at a character before the start of the text. -/
inductive CursorError where
  | outOfRange
deriving DecidableEq, Repr

def CursorError.message : CursorError → String
  | outOfRange => "string index out of range"

namespace Cursor

def length (c : Cursor) : Nat := c.text.length

def atEnd (c : Cursor) : Bool := c.length ≤ c.position.offset

/-- The text from the cursor on. -/
def rest (c : Cursor) : Text := c.text.drop c.position.offset

/-- The character `n` places ahead, or none from the end of the text on. An index before the start
counts from the end of the text. -/
def peek (c : Cursor) (n : Int) : Except CursorError (Option Char) :=
  let index := c.position.offset + n
  let fromEnd := index + c.length
  if 0 ≤ index then .ok c.text[index.toNat]?
  else if 0 ≤ fromEnd then .ok c.text[fromEnd.toNat]?
  else .error .outOfRange

/-- Moves over up to `n` characters and gives them. -/
def advanceBy (c : Cursor) (n : Int) : Text × Cursor :=
  let taken := c.rest.take n.toNat
  (taken, { c with position := c.position.advance taken })

/-- Moves over one character, if there is one. -/
def advance (c : Cursor) : Option Char × Cursor :=
  let (taken, c) := c.advanceBy 1
  (taken.head?, c)

/-- Whether the text goes on with the given one, in the same case or in any. -/
def startsWith (c : Cursor) (t : Text) (ignoreCase : Bool) : Bool :=
  let chunk := c.rest.take t.length
  if ignoreCase then lower chunk == lower t else chunk == t

/-- An index into a text of the given length. A negative one counts from the end, and one outside
the text moves to its nearer end. -/
def clamp (length : Nat) (index : Int) : Nat :=
  if index < 0 then (index + length).toNat else min index.toNat length

/-- The text between two indexes, up to the end if there is no second one. -/
def slice (c : Cursor) (start : Int) (stop : Option Int) : Text :=
  c.text.slice (clamp c.length start) ((stop.map (clamp c.length)).getD c.length)

/-- What can be asked of a cursor. -/
inductive Call where
  | peek (n : Int)
  | advance
  | advanceBy (n : Int)
  | startsWith (text : Text) (ignoreCase : Bool)
  | slice (start : Int) (stop : Option Int)
deriving DecidableEq, Repr

/-- What a cursor answers. -/
inductive Answer where
  | character (c : Option Char)
  | text (t : Text)
  | decision (holds : Bool)
  | failure (error : CursorError)
deriving DecidableEq, Repr

/-- The answer to a call, and the cursor after it. -/
def call (c : Cursor) : Call → Answer × Cursor
  | .peek n =>
    match c.peek n with
    | .ok found => (.character found, c)
    | .error error => (.failure error, c)
  | .advance =>
    let (found, c) := c.advance
    (.character found, c)
  | .advanceBy n =>
    let (taken, c) := c.advanceBy n
    (.text taken, c)
  | .startsWith text ignoreCase => (.decision (c.startsWith text ignoreCase), c)
  | .slice start stop => (.text (c.slice start stop), c)

/-- The cursor after some calls. -/
def run (c : Cursor) (calls : List Call) : Cursor := calls.foldl (fun c call => (c.call call).2) c

end Cursor

end StoreMarkup
