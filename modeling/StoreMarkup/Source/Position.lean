import StoreMarkup.Text.Basic

/-! Points and regions of a source text. -/
namespace StoreMarkup

/-- A point between two characters of a source: the offset counts from 0, line and column from 1.
-/
structure Position where
  offset : Nat := 0
  line : Nat := 1
  column : Nat := 1
deriving DecidableEq, Repr

namespace Position

/-- The start of every source. -/
def start : Position := {}

/-- The point after one more character. Only a line feed starts a line. -/
def next (p : Position) (c : Char) : Position :=
  if c = '\n' then ⟨p.offset + 1, p.line + 1, 1⟩ else ⟨p.offset + 1, p.line, p.column + 1⟩

/-- The point after some more text. -/
def advance (p : Position) (t : Text) : Position := t.foldl next p

@[simp] theorem advance_nil (p : Position) : p.advance [] = p := rfl

@[simp] theorem advance_append (p : Position) (s t : Text) :
    p.advance (s ++ t) = (p.advance s).advance t := List.foldl_append

@[simp] theorem offset_advance (p : Position) (t : Text) :
    (p.advance t).offset = p.offset + t.length := by
  induction t generalizing p with
  | nil => rfl
  | cons c t ih =>
    have h : (p.next c).offset = p.offset + 1 := by unfold next; split <;> rfl
    simp only [advance, List.foldl_cons, List.length_cons] at ih ⊢
    rw [ih, h]
    omega

end Position

/-- A region of a source from one point to another. An empty region marks a place where a close
tag is missing. -/
structure Span where
  start : Position
  stop : Position
deriving DecidableEq, Repr

namespace Span

/-- The empty region at a point. -/
def point (p : Position) : Span := ⟨p, p⟩

/-- The region of a text that starts at a point. -/
def covering (p : Position) (t : Text) : Span := ⟨p, p.advance t⟩

/-- The number of characters covered, negative if the ends are in the wrong order. -/
def length (s : Span) : Int := s.stop.offset - s.start.offset

def isEmpty (s : Span) : Bool := s.start.offset == s.stop.offset

/-- Whether another region lies inside this one. -/
def contains (s other : Span) : Bool :=
  s.start.offset ≤ other.start.offset && other.stop.offset ≤ s.stop.offset

/-- The start as line and column. -/
def label (s : Span) : String := s!"{s.start.line}:{s.start.column}"

end Span

/-- A value with the region of the source that it was read from. -/
structure Located (α : Type) where
  value : α
  span : Span
deriving DecidableEq, Repr

/-- Places values one after the other from a point on, where `source` gives the text of each. -/
def locate {α : Type} (source : α → Text) (p : Position) : List α → List (Located α)
  | [] => []
  | a :: as =>
    let span := Span.covering p (source a)
    ⟨a, span⟩ :: locate source span.stop as

end StoreMarkup
