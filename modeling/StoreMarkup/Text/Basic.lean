/-! Text as its code points, and sets of these. -/
namespace StoreMarkup

/-- Text as the list of its code points. Offsets, columns and lengths all count these, so that
cutting and joining text is cutting and joining lists. -/
abbrev Text := List Char

/-- The pieces one after the other, with `sep` between neighbours. -/
def Text.join (sep : Text) (pieces : List Text) : Text := sep.intercalate pieces

/-- The text from one index up to another. -/
def Text.slice (start stop : Nat) (t : Text) : Text := (t.drop start).take (stop - start)

/-- The parts of a text between the separators in it. -/
def Text.fields (sep : Char) : Text → List Text
  | [] => [[]]
  | c :: cs =>
    match Text.fields sep cs with
    | [] => [[c]]
    | first :: rest => if c = sep then [] :: first :: rest else (c :: first) :: rest

/-- Whether a text comes before another by the code points of their first difference. -/
def Text.before (a b : Text) : Bool := a.lex b fun c d => c.toNat < d.toNat

/-- Ranges of code points, both ends included, in increasing order. -/
abbrev CharRanges := List (Nat × Nat)

/-- Looks a code point up. The order of the table lets the search stop at the first range that
lies above it. -/
def CharRanges.member : CharRanges → Nat → Bool
  | [], _ => false
  | (lo, hi) :: rest, n => if n < lo then false else n ≤ hi || member rest n

end StoreMarkup
