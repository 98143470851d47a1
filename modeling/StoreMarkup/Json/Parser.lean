import StoreMarkup.Json.Basic
import StoreMarkup.Text.Integer

/-! Reading JSON values from text. -/
namespace StoreMarkup

namespace Json

def isSpace (c : Char) : Bool := c == ' ' || c == '\t' || c == '\n' || c == '\r'

/-- The value of four hexadecimal digits. -/
def unit? (a b c d : Char) : Option Nat := do
  return (((← hexValue? a) * 16 + (← hexValue? b)) * 16 + (← hexValue? c)) * 16 + (← hexValue? d)

/-- The character that stands after a backslash for another one. -/
def escaped? (c : Char) : Option Char :=
  match c with
  | '"' | '\\' | '/' => some c
  | 'b' => some (Char.ofNat 0x8)
  | 'f' => some (Char.ofNat 0xC)
  | 'n' => some '\n'
  | 'r' => some '\r'
  | 't' => some '\t'
  | _ => none

def isHighSurrogate (n : Nat) : Bool := 0xD800 ≤ n && n < 0xDC00

def isLowSurrogate (n : Nat) : Bool := 0xDC00 ≤ n && n < 0xE000

/-- A single UTF-16 unit as a character. A surrogate by itself is none, and is replaced. -/
def unitChar (n : Nat) : Char :=
  if isHighSurrogate n || isLowSurrogate n then Char.ofNat 0xFFFD else Char.ofNat n

/-- The low surrogate that a text starts with an escape of, and what follows it. -/
def lowUnit? : Text → Option (Nat × Text)
  | '\\' :: 'u' :: a :: b :: c :: d :: rest =>
    ((unit? a b c d).filter isLowSurrogate).map fun low => (low, rest)
  | _ => none

/-- The character that is escaped by its UTF-16 units, after the first backslash and its letter. -/
def unitEscape? : Text → Option (Char × Text)
  | a :: b :: c :: d :: rest =>
    match unit? a b c d with
    | none => none
    | some unit =>
      match (if isHighSurrogate unit then lowUnit? rest else none) with
      | some (low, rest) =>
        some (Char.ofNat (0x10000 + (unit - 0xD800) * 0x400 + (low - 0xDC00)), rest)
      | none => some (unitChar unit, rest)
  | _ => none

theorem length_lt_of_lowUnit? {s rest : Text} {n : Nat} (h : lowUnit? s = some (n, rest)) :
    rest.length < s.length := by
  unfold lowUnit? at h
  split at h
  · obtain ⟨low, _, he⟩ := Option.map_eq_some_iff.mp h
    obtain ⟨rfl, rfl⟩ := by simpa using he
    simp
    omega
  · simp at h

theorem length_lt_of_unitEscape? {s rest : Text} {c : Char}
    (h : unitEscape? s = some (c, rest)) : rest.length < s.length := by
  unfold unitEscape? at h
  split at h
  · split at h
    · simp at h
    · split at h
      · rename_i low r hl
        obtain ⟨rfl, rfl⟩ := by simpa using h
        split at hl
        · have := length_lt_of_lowUnit? hl
          simp only [List.length_cons]
          omega
        · simp at hl
      · obtain ⟨rfl, rfl⟩ := by simpa using h
        simp only [List.length_cons]
        omega
  · simp at h

/-- A string after its opening quote, where `read` holds what has been read in reverse. -/
def stringTail (read : Text) (s : Text) : Option (Text × Text) :=
  match s with
  | [] => none
  | '"' :: rest => some (read.reverse, rest)
  | '\\' :: 'u' :: rest =>
    match _h : unitEscape? rest with
    | none => none
    | some (c, rest) => stringTail (c :: read) rest
  | '\\' :: c :: rest =>
    match escaped? c with
    | none => none
    | some e => stringTail (e :: read) rest
  | c :: rest => if c.toNat < 0x20 then none else stringTail (c :: read) rest
termination_by s.length
decreasing_by
  · have := length_lt_of_unitEscape? _h
    simp only [List.length_cons]
    omega
  · simp only [List.length_cons]
    omega
  · exact Nat.lt_succ_self _

/-- The digits of a number: its whole part has no zero in front. -/
def wholeDigits? (s : Text) : Option (Text × Text) :=
  match s with
  | [] => none
  | c :: cs =>
    if c = '0' then some ([c], cs)
    else if c.isDigit then some (s.takeWhile Char.isDigit, s.dropWhile Char.isDigit)
    else none

/-- The digits after a decimal point, if there are any. -/
def fractionDigits (s : Text) : Text × Text :=
  match s with
  | '.' :: cs =>
    let digits := cs.takeWhile Char.isDigit
    if digits.isEmpty then ([], s) else (digits, cs.dropWhile Char.isDigit)
  | _ => ([], s)

/-- The exponent of a number, if there is one. -/
def exponent? (s : Text) : Option (Int × Text) :=
  match s with
  | [] => none
  | c :: cs =>
    if c = 'e' ∨ c = 'E' then
      let (negative, unsigned) := match cs with
        | '-' :: rest => (true, rest)
        | '+' :: rest => (false, rest)
        | _ => (false, cs)
      let digits := unsigned.takeWhile Char.isDigit
      let value := decimalValue digits
      if digits.isEmpty then none
      else some (if negative then -(value : Int) else value, unsigned.dropWhile Char.isDigit)
    else none

/-- A number without its sign. Whole numbers with too many digits are refused. -/
def number? (negative : Bool) (s : Text) : Option (Json × Text) := do
  let (whole, rest) ← wholeDigits? s
  let (fraction, rest) := fractionDigits rest
  let signed := fun (n : Nat) => if negative then -(n : Int) else (n : Int)
  match exponent? rest with
  | some (exponent, rest) =>
    let mantissa := signed (decimalValue (whole ++ fraction))
    some (.real (.decimal mantissa (exponent - fraction.length)), rest)
  | none =>
    if fraction.isEmpty then
      if IntegerError.maxDigits < whole.length then none
      else some (.int (signed (decimalValue whole)), rest)
    else
      some (.real (.decimal (signed (decimalValue (whole ++ fraction))) (-fraction.length)), rest)

/-- The words that stand for values. -/
def words : List (Text × Json) :=
  [("null".toList, .null), ("true".toList, .bool true), ("false".toList, .bool false),
    ("NaN".toList, .real .undefined), ("Infinity".toList, .real (.infinite false)),
    ("-Infinity".toList, .real (.infinite true))]

def word? (s : Text) : Option (Json × Text) :=
  (words.find? fun (word, _) => word.isPrefixOf s).map fun (word, value) =>
    (value, s.drop word.length)

mutual

/-- The value at the start of a text and what follows it. The first argument bounds the depth. -/
def value? : Nat → Text → Option (Json × Text)
  | 0, _ => none
  | fuel + 1, s =>
    match s with
    | '"' :: rest =>
      (stringTail [] rest).map fun (text, rest) => (.string (String.ofList text), rest)
    | '[' :: rest =>
      match rest.dropWhile isSpace with
      | ']' :: rest => some (.array [], rest)
      | rest => items? fuel #[] rest
    | '\x7b' :: rest =>
      match rest.dropWhile isSpace with
      | '\x7d' :: rest => some (.object [], rest)
      | rest => fields? fuel [] rest
    | '-' :: rest => (number? true rest).or (word? s)
    | _ => (number? false s).or (word? s)

/-- The items of an array from here on, after those read already. -/
def items? : Nat → Array Json → Text → Option (Json × Text)
  | 0, _, _ => none
  | fuel + 1, read, s =>
    match value? fuel s with
    | none => none
    | some (value, rest) =>
      match rest.dropWhile isSpace with
      | ',' :: rest => items? fuel (read.push value) (rest.dropWhile isSpace)
      | ']' :: rest => some (.array (read.push value).toList, rest)
      | _ => none

/-- The fields of an object from here on, after those read already. -/
def fields? : Nat → List (String × Json) → Text → Option (Json × Text)
  | 0, _, _ => none
  | fuel + 1, read, s =>
    match s with
    | '"' :: rest =>
      match stringTail [] rest with
      | none => none
      | some (key, rest) =>
        match rest.dropWhile isSpace with
        | ':' :: rest =>
          match value? fuel (rest.dropWhile isSpace) with
          | none => none
          | some (value, rest) =>
            let read := insertField read (String.ofList key) value
            match rest.dropWhile isSpace with
            | ',' :: rest => fields? fuel read (rest.dropWhile isSpace)
            | '\x7d' :: rest => some (.object read, rest)
            | _ => none
        | _ => none
    | _ => none

end

/-- The value that a text stands for. -/
def parse? (s : Text) : Option Json :=
  match value? (2 * s.length + 2) (s.dropWhile isSpace) with
  | some (value, rest) => if rest.all isSpace then some value else none
  | none => none

end Json

end StoreMarkup
