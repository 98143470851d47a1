import StoreMarkup.Text.Encoding

/-! Text in units of two or four bytes, and how to tell it from text in bytes. -/
namespace StoreMarkup

/-- The form of text whose first characters are ASCII, by where the zeros in its first bytes are. -/
inductive UnitForm where
  | bytes
  | pairs (bigEndian : Bool)
  | quads (bigEndian : Bool)
deriving DecidableEq, Repr

def UnitForm.detect : Bytes → UnitForm
  | [a, b] => if a = 0 then pairs true else if b = 0 then pairs false else bytes
  | a :: b :: c :: d :: _ =>
    if a = 0 then if b = 0 then quads true else pairs true
    else if b = 0 then if c = 0 ∧ d = 0 then quads false else pairs false
    else bytes
  | _ => bytes

/-- The number in a unit. -/
def unitValue (bigEndian : Bool) (unit : Bytes) : Nat :=
  (if bigEndian then unit else unit.reverse).foldl (fun n b => 256 * n + b.toNat) 0

def pairUnits (bigEndian : Bool) : Bytes → Option (List Nat)
  | [] => some []
  | a :: b :: rest => (pairUnits bigEndian rest).map (unitValue bigEndian [a, b] :: ·)
  | _ => none

def quadUnits (bigEndian : Bool) : Bytes → Option (List Nat)
  | [] => some []
  | a :: b :: c :: d :: rest =>
    (quadUnits bigEndian rest).map (unitValue bigEndian [a, b, c, d] :: ·)
  | _ => none

def charOfCode? (n : Nat) : Option Char := if n.isValidChar then some (Char.ofNat n) else none

/-- Characters from units of 16 bits, where two surrogates stand for one character. -/
def charsOfUnits : List Nat → Option Text
  | [] => some []
  | high :: low :: rest =>
    if 0xD800 ≤ high ∧ high < 0xDC00 ∧ 0xDC00 ≤ low ∧ low < 0xE000 then do
      let c ← charOfCode? (0x10000 + (high - 0xD800) * 0x400 + (low - 0xDC00))
      return c :: (← charsOfUnits rest)
    else do return (← charOfCode? high) :: (← charsOfUnits (low :: rest))
  | [unit] => do return [← charOfCode? unit]

/-- The text that the bytes of a text stand for, in the form that the first of them show. -/
def detectedText (t : Text) : Option Text :=
  let bytes := Utf8.encode t
  match UnitForm.detect bytes with
  | .bytes => some t
  | .pairs bigEndian => (pairUnits bigEndian bytes).bind charsOfUnits
  | .quads bigEndian => (quadUnits bigEndian bytes).bind fun codes => codes.mapM charOfCode?

end StoreMarkup
