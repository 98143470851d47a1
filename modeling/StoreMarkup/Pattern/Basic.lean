import StoreMarkup.Text.Basic

/-! Patterns that describe texts. -/
namespace StoreMarkup

/-- How a pattern is compared with text. -/
structure PatternMode where
  ignoreCase : Bool := false
  /-- Only ASCII characters have case and belong to a kind. -/
  asciiOnly : Bool := false
  /-- The places at the two ends of the text are also those at the two ends of a line. -/
  multiline : Bool := false
  /-- A point stands for the end of a line too. -/
  dotAll : Bool := false
deriving DecidableEq, Repr

inductive CharKind where
  | digit
  | blank
  /-- Letters, numbers and the underscore. -/
  | word
deriving DecidableEq, Repr

/-- What a set of characters lists. -/
inductive CharItem where
  | code (n : Nat)
  | range (first last : Nat)
  | kind (kind : CharKind) (negated : Bool)
deriving DecidableEq, Repr

/-- A place between two characters. -/
inductive Place where
  | start
  | stop
  /-- The start of the text, or of a line if lines count. -/
  | lineStart
  /-- The end of the text or of its last line, or of any line if lines count. -/
  | lineStop
  | wordEdge (negated : Bool)
deriving DecidableEq, Repr

/-- Which number of repetitions is tried first. -/
inductive Eagerness where
  | greedy
  | reluctant
  /-- As many as there are, and never fewer afterwards. -/
  | possessive
deriving DecidableEq, Repr

inductive Pattern where
  | empty
  | char (mode : PatternMode) (code : Nat) (negated : Bool)
  /-- Any character. -/
  | point (mode : PatternMode)
  | oneOf (mode : PatternMode) (items : List CharItem) (negated : Bool)
  | place (mode : PatternMode) (place : Place)
  | seq (first second : Pattern)
  | either (first second : Pattern)
  /-- A part in parentheses. What a part with a number stands for is remembered. -/
  | group (number : Option Nat) (body : Pattern)
  /-- The first way in which the body fits is the only one. -/
  | atomic (body : Pattern)
  | repeated (eagerness : Eagerness) (least : Nat) (most : Option Nat) (body : Pattern)
  /-- Whether the body fits what follows. -/
  | ahead (holds : Bool) (body : Pattern)
  /-- Whether the body fits the last `width` characters. -/
  | behind (holds : Bool) (width : Nat) (body : Pattern)
  /-- The text of a group once more. -/
  | again (mode : PatternMode) (number : Nat)
  /-- One of two patterns, by whether a group has a text. -/
  | ifGroup (number : Nat) (yes no : Pattern)
deriving Repr

/-- The least and the greatest number of characters that a pattern fits. -/
structure Width where
  least : Nat
  /-- None if there is no greatest number. -/
  most : Option Nat
deriving DecidableEq, Repr

namespace Width

def add (a b : Width) : Width := ⟨a.least + b.least, do return (← a.most) + (← b.most)⟩

def either (a b : Width) : Width := ⟨min a.least b.least, do return max (← a.most) (← b.most)⟩

def times (least : Nat) (most : Option Nat) (w : Width) : Width :=
  ⟨w.least * least,
    if w.most = some 0 || most = some 0 then some 0 else do return (← w.most) * (← most)⟩

end Width

namespace Pattern

/-- The width of a pattern, given those of the groups. -/
def width (groups : Nat → Width) : Pattern → Width
  | empty | place .. | ahead .. | behind .. => ⟨0, some 0⟩
  | char .. | point _ | oneOf .. => ⟨1, some 1⟩
  | seq first second => (first.width groups).add (second.width groups)
  | either first second => (first.width groups).either (second.width groups)
  | group _ body | atomic body => body.width groups
  | repeated _ least most body => (body.width groups).times least most
  | again _ number => groups number
  | ifGroup _ yes no => (yes.width groups).either (no.width groups)

/-- The patterns one after the other. -/
def sequence (parts : List Pattern) : Pattern := parts.foldr seq empty

end Pattern

end StoreMarkup
