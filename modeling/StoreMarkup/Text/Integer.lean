import StoreMarkup.Text.Basic
import StoreMarkup.Text.Blank
import StoreMarkup.Text.Quoted

/-! Integers in text: blanks around, a sign, digits of any script as of Unicode 14 with single
underscores between them. -/
namespace StoreMarkup

/-- The zeros: each script has its ten digits in a row. -/
def digitZeros : List Nat :=
  [0x30, 0x660, 0x6F0, 0x7C0, 0x966, 0x9E6, 0xA66, 0xAE6, 0xB66, 0xBE6, 0xC66, 0xCE6, 0xD66,
   0xDE6, 0xE50, 0xED0, 0xF20, 0x1040, 0x1090, 0x17E0, 0x1810, 0x1946, 0x19D0, 0x1A80, 0x1A90,
   0x1B50, 0x1BB0, 0x1C40, 0x1C50, 0xA620, 0xA8D0, 0xA900, 0xA9D0, 0xA9F0, 0xAA50, 0xABF0,
   0xFF10, 0x104A0, 0x10D30, 0x11066, 0x110F0, 0x11136, 0x111D0, 0x112F0, 0x11450, 0x114D0,
   0x11650, 0x116C0, 0x11730, 0x118E0, 0x11950, 0x11C50, 0x11D50, 0x11DA0, 0x16A60, 0x16AC0,
   0x16B50, 0x1D7CE, 0x1D7D8, 0x1D7E2, 0x1D7EC, 0x1D7F6, 0x1E140, 0x1E2F0, 0x1E950, 0x1FBF0]

/-- The value of a decimal digit. -/
def digitValue? (c : Char) : Option Nat :=
  (digitZeros.find? fun z => z ≤ c.toNat && c.toNat < z + 10).map fun z => c.toNat - z

/-- Why a text is no integer. -/
inductive IntegerError where
  | malformed (text : Text)
  /-- More digits than are read, whatever follows them. -/
  | tooLong (digits : Nat)
deriving DecidableEq, Repr

namespace IntegerError

/-- The most digits an integer may have. -/
def maxDigits : Nat := 4300

def message : IntegerError → String
  | malformed text => "invalid literal for int() with base 10: " ++ String.ofList (quotedText text)
  | tooLong digits =>
    s!"Exceeds the limit ({maxDigits} digits) for integer string conversion: " ++
      s!"value has {digits} digits; use sys.set_int_max_str_digits() to increase the limit"

end IntegerError

/-- Blanks that may surround an integer: all but the information separators. -/
def isIntegerBlank (c : Char) : Bool := isBlank c && !(0x1C ≤ c.toNat && c.toNat ≤ 0x1F)

/-- The number that a list of decimal digits stands for. -/
def digitsValue (digits : List Nat) : Nat := digits.foldl (fun n d => 10 * n + d) 0

/-- The number that plain decimal digits stand for. -/
def decimalValue (digits : Text) : Nat := digitsValue (digits.map fun c => c.toNat - '0'.toNat)

def hexValue? (c : Char) : Option Nat :=
  if c.isDigit then some (c.toNat - '0'.toNat)
  else if 'a' ≤ c ∧ c ≤ 'f' then some (c.toNat - 'a'.toNat + 10)
  else if 'A' ≤ c ∧ c ≤ 'F' then some (c.toNat - 'A'.toNat + 10)
  else none

def integer (text : Text) : Except IntegerError Int :=
  let body := text.dropWhile isIntegerBlank
  let (negative, unsigned) := match body with
    | '-' :: rest => (true, rest)
    | '+' :: rest => (false, rest)
    | _ => (false, body)
  let inNumber := fun c => c == '_' || (digitValue? c).isSome
  let groups := Text.fields '_' (unsigned.takeWhile inNumber)
  let digits := groups.flatten.filterMap digitValue?
  if groups.any List.isEmpty then .error (.malformed text)
  else if IntegerError.maxDigits < digits.length then .error (.tooLong digits.length)
  else if (unsigned.dropWhile inNumber).all isIntegerBlank then
    .ok (if negative then -(digitsValue digits : Int) else digitsValue digits)
  else .error (.malformed text)

end StoreMarkup
