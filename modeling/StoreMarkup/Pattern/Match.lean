import StoreMarkup.Pattern.Basic
import StoreMarkup.Pattern.Case
import StoreMarkup.Text.Alphanumeric
import StoreMarkup.Text.Blank
import StoreMarkup.Text.Integer

/-! Whether a pattern fits the start of a text. -/
namespace StoreMarkup

namespace CharKind

def holds (asciiOnly : Bool) (c : Char) : CharKind → Bool
  | digit => if asciiOnly then c.isDigit else (digitValue? c).isSome
  | blank => if asciiOnly then c == ' ' || (0x9 ≤ c.toNat && c.toNat ≤ 0xD) else isBlank c
  | word => c == '_' || if asciiOnly then c.isAlphanum else isAlphanumeric c

end CharKind

namespace PatternMode

def asciiLower (n : Nat) : Nat := if 0x41 ≤ n && n ≤ 0x5A then n + 32 else n

/-- Whether a character is one that the pattern gives by its code point. -/
def same (mode : PatternMode) (code : Nat) (c : Char) : Bool :=
  if !mode.ignoreCase then code == c.toNat
  else if mode.asciiOnly then asciiLower code == asciiLower c.toNat
  else sameButCase code c.toNat

/-- The code points that stand for a character in ranges. -/
def variants (mode : PatternMode) (c : Char) : List Nat :=
  if !mode.ignoreCase then [c.toNat]
  else if mode.asciiOnly then
    let small := asciiLower c.toNat
    if 0x61 ≤ small && small ≤ 0x7A then [small, small - 32] else [small]
  else caseVariants c.toNat

end PatternMode

namespace CharItem

/-- Whether a set with this item holds a character. The code points past FFFF are compared with
the small letter only. -/
def holds (mode : PatternMode) (c : Char) : CharItem → Bool
  | code n =>
    if mode.ignoreCase && !mode.asciiOnly && 0xFFFF < n then simpleLower c.toNat == n
    else mode.same n c
  | range first last => (mode.variants c).any fun n => first ≤ n && n ≤ last
  | kind k negated => k.holds mode.asciiOnly c != negated

end CharItem

/-- A place in a text, with the texts of the groups so far. -/
structure Spot where
  /-- What precedes the place, in reverse. -/
  before : Text := []
  after : Text
  groups : List (Nat × Text) := []
deriving DecidableEq, Repr

namespace Spot

/-- Goes on after a character that passes the test. -/
def step (test : Char → Bool) (s : Spot) : Option Spot :=
  match s.after with
  | [] => none
  | c :: rest => if test c then some { s with before := c :: s.before, after := rest } else none

/-- Goes on after a text, character by character. -/
def follow (mode : PatternMode) : Text → Spot → Option Spot
  | [], s => some s
  | c :: t, s =>
    let lower := fun n : Nat =>
      if !mode.ignoreCase then n
      else if mode.asciiOnly then PatternMode.asciiLower n
      else simpleLower n
    (s.step fun d => lower c.toNat == lower d.toNat).bind (follow mode t)

/-- Goes back over a number of characters. -/
def back : Nat → Spot → Option Spot
  | 0, s => some s
  | n + 1, s =>
    match s.before with
    | [] => none
    | c :: rest => back n { s with before := rest, after := c :: s.after }

/-- Remembers the text since an earlier place. -/
def remember (s : Spot) (number : Option Nat) (earlier : Spot) : Spot :=
  match number with
  | none => s
  | some n =>
    let text := earlier.after.take (earlier.after.length - s.after.length)
    { s with groups := (n, text) :: s.groups }

/-- Whether the place is at an edge of a word. There is none in an empty text. -/
def atWordEdge (mode : PatternMode) (s : Spot) : Bool :=
  let isWord := fun c : Option Char => c.any fun c => CharKind.word.holds mode.asciiOnly c
  isWord s.before.head? != isWord s.after.head?

def isAt (mode : PatternMode) (s : Spot) : Place → Bool
  | .start => s.before.isEmpty
  | .stop => s.after.isEmpty
  | .lineStart => s.before.isEmpty || (mode.multiline && s.before.head? == some '\n')
  | .lineStop =>
    s.after.isEmpty || s.after == ['\n'] || (mode.multiline && s.after.head? == some '\n')
  | .wordEdge negated =>
    !(s.before.isEmpty && s.after.isEmpty) && s.atWordEdge mode != negated

end Spot

/-- What is to fit after a pattern. The result is the place at the very end. -/
abbrev Continuation := Spot → Option Spot

/-- Runs one pattern as often as wanted. A repetition that takes no character is the last one, so
that there are no more than `fuel`, the number of characters. -/
def iterate (run : Spot → Continuation → Option Spot) (reluctant : Bool) :
    Nat → Nat → Option Nat → Spot → Continuation → Option Spot
  | 0, _, _, s, next => next s
  | fuel + 1, least, most, s, next =>
    let once := fun _ : Unit =>
      if most = some 0 then none
      else run s fun t =>
        if t.after.length < s.after.length then
          iterate run reluctant fuel (least - 1) (most.map (· - 1)) t next
        else next t
    if 0 < least then once ()
    else if reluctant then (next s).orElse once
    else (once ()).orElse fun _ => next s

namespace Pattern

/-- Tries the ways in which a pattern fits, in their order, until the rest fits too. -/
def run : Pattern → Spot → Continuation → Option Spot
  | empty, s, next => next s
  | char mode code negated, s, next => (s.step fun c => mode.same code c != negated).bind next
  | point mode, s, next => (s.step fun c => mode.dotAll || c != '\n').bind next
  | oneOf mode items negated, s, next =>
    (s.step fun c => (items.any fun item => item.holds mode c) != negated).bind next
  | place mode p, s, next => if s.isAt mode p then next s else none
  | seq first second, s, next => first.run s fun t => second.run t next
  | either first second, s, next => (first.run s next).orElse fun _ => second.run s next
  | group number body, s, next => body.run s fun t => next (t.remember number s)
  | atomic body, s, next => (body.run s some).bind next
  | repeated .possessive least most body, s, next =>
    let once := fun (t : Spot) (rest : Continuation) => (body.run t some).bind rest
    (iterate once false (s.after.length + 1) least most s some).bind next
  | repeated eagerness least most body, s, next =>
    iterate body.run (eagerness == .reluctant) (s.after.length + 1) least most s next
  | ahead true body, s, next =>
    (body.run s some).bind fun t => next { s with groups := t.groups }
  | ahead false body, s, next => if (body.run s some).isSome then none else next s
  | behind true width body, s, next =>
    ((s.back width).bind fun t => body.run t some).bind fun t => next { s with groups := t.groups }
  | behind false width body, s, next =>
    if ((s.back width).bind fun t => body.run t some).isSome then none else next s
  | again mode number, s, next =>
    match s.groups.lookup number with
    | none => none
    | some text => (s.follow mode text).bind next
  | ifGroup number yes no, s, next =>
    if (s.groups.lookup number).isSome then yes.run s next else no.run s next

/-- Whether a pattern fits a text from its start, wherever it ends. -/
def fits (p : Pattern) (text : Text) : Bool := (p.run { after := text } some).isSome

end Pattern

end StoreMarkup
