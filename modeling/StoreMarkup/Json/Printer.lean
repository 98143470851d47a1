import StoreMarkup.Json.Basic
import StoreMarkup.Text.Quoted

/-! JSON values as text, on one line or indented. Only ASCII is written, and the rest of Unicode as
escapes of its UTF-16 units. -/
namespace StoreMarkup

namespace Json

/-- The escape of one UTF-16 unit. -/
def unitEscape (n : Nat) : String := String.ofList ('\\' :: 'u' :: hexDigits 4 n)

def escapeChar (c : Char) : String :=
  if c = '"' then "\\\""
  else if c = '\\' then "\\\\"
  else if c = '\n' then "\\n"
  else if c = '\r' then "\\r"
  else if c = '\t' then "\\t"
  else if c.toNat = 0x8 then "\\b"
  else if c.toNat = 0xC then "\\f"
  else if 0x20 ≤ c.toNat ∧ c.toNat < 0x7F then c.toString
  else if c.toNat < 0x10000 then unitEscape c.toNat
  else
    let n := c.toNat - 0x10000
    unitEscape (0xD800 + n / 0x400) ++ unitEscape (0xDC00 + n % 0x400)

/-- A string in quotes, after the text `out`. -/
def appendString (out value : String) : String :=
  (value.foldl (fun out c => out ++ escapeChar c) (out.push '"')).push '"'

/-- A decimal as the digits of its mantissa with a point, or with an exponent if it is very large
or very small. -/
def decimalText (mantissa exponent : Int) : String :=
  let all := Nat.toDigits 10 mantissa.natAbs
  let kept := (all.reverse.dropWhile (· == '0')).reverse
  let digits := if kept.isEmpty then ['0'] else kept
  let point : Int := if kept.isEmpty then 1 else exponent + all.length
  let sign := if mantissa < 0 then "-" else ""
  let whole := String.ofList
  if -4 < point ∧ point ≤ 0 then
    sign ++ "0." ++ whole (List.replicate (-point).toNat '0' ++ digits)
  else if 0 < point ∧ point ≤ 16 then
    let n := point.toNat
    let padded := digits ++ List.replicate (n - digits.length) '0'
    let fraction := if (padded.drop n).isEmpty then ['0'] else padded.drop n
    sign ++ whole (padded.take n) ++ "." ++ whole fraction
  else
    let power := point - 1
    let fraction := if digits.length ≤ 1 then "" else "." ++ whole (digits.drop 1)
    let powerDigits := Nat.toDigits 10 power.natAbs
    sign ++ whole (digits.take 1) ++ fraction ++ (if power < 0 then "e-" else "e+") ++
      whole (List.replicate (2 - powerDigits.length) '0' ++ powerDigits)

def realText : JsonReal → String
  | .decimal mantissa exponent => decimalText mantissa exponent
  | .infinite negative => if negative then "-Infinity" else "Infinity"
  | .undefined => "NaN"

/-- How the parts of arrays and objects are set apart. -/
structure Layout where
  /-- Blanks that each level adds after a line break, or none to stay on one line. -/
  indent : Option Nat
  separator : String

namespace Layout

/-- All on one line, with a blank after each comma. -/
def line : Layout := ⟨none, ", "⟩

/-- Each part on a line of its own, two blanks deeper. -/
def indented : Layout := ⟨some 2, ","⟩

/-- The break before a part at the given level. -/
def lineBreak (layout : Layout) (level : Nat) : String :=
  match layout.indent with
  | none => ""
  | some width => "\n" ++ String.ofList (List.replicate (width * level) ' ')

end Layout

mutual

/-- The value at a level of nesting, after the text `out`. -/
def appendTo (layout : Layout) (level : Nat) (out : String) : Json → String
  | null => out ++ "null"
  | bool value => out ++ (if value then "true" else "false")
  | int value => out ++ toString value
  | real value => out ++ realText value
  | string value => appendString out value
  | array [] => out ++ "[]"
  | array (item :: items) =>
    let out := appendTo layout (level + 1) (out ++ "[" ++ layout.lineBreak (level + 1)) item
    appendItems layout (level + 1) out items ++ layout.lineBreak level ++ "]"
  | object [] => out ++ "\x7b\x7d"
  | object ((key, value) :: fields) =>
    let out := appendString (out ++ "\x7b" ++ layout.lineBreak (level + 1)) key
    let out := appendTo layout (level + 1) (out ++ ": ") value
    appendFields layout (level + 1) out fields ++ layout.lineBreak level ++ "\x7d"

def appendItems (layout : Layout) (level : Nat) (out : String) : List Json → String
  | [] => out
  | item :: items =>
    let out := appendTo layout level (out ++ layout.separator ++ layout.lineBreak level) item
    appendItems layout level out items

def appendFields (layout : Layout) (level : Nat) (out : String) : List (String × Json) → String
  | [] => out
  | (key, value) :: fields =>
    let out := appendString (out ++ layout.separator ++ layout.lineBreak level) key
    appendFields layout level (appendTo layout level (out ++ ": ") value) fields

end

def render (layout : Layout) (value : Json) : String := appendTo layout 0 "" value

end Json

end StoreMarkup
