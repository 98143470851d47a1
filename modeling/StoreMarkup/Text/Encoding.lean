import StoreMarkup.Text.Basic
import StoreMarkup.Text.Lowercase
import StoreMarkup.Text.Quoted

/-! Text as bytes: the encodings that templates may be stored in, and why bytes are no text. -/
namespace StoreMarkup

abbrev Bytes := List UInt8

/-- What is wrong with bytes in an encoding. -/
inductive ByteFault where
  | invalidStart
  | invalidContinuation
  | unexpectedEnd
  | notAscii
  /-- A fault in the words of an encoding. -/
  | other (reason : String)
deriving DecidableEq, Repr

/-- Why bytes cannot be read as text. -/
inductive DecodeError where
  /-- The faulty bytes start at `start`. They are `first` and the `more` bytes after it. -/
  | faulty (encoding : String) (fault : ByteFault) (start : Nat) (first : UInt8) (more : Nat)
  /-- The named encoding does not turn bytes into text. -/
  | notText (name : Text)
  | unknown (name : Text)
deriving DecidableEq, Repr

def ByteFault.message : ByteFault → String
  | invalidStart => "invalid start byte"
  | invalidContinuation => "invalid continuation byte"
  | unexpectedEnd => "unexpected end of data"
  | notAscii => "ordinal not in range(128)"
  | other reason => reason

def DecodeError.message : DecodeError → String
  | faulty encoding fault start first 0 =>
    s!"'{encoding}' codec can't decode byte 0x" ++ String.ofList (hexDigits 2 first.toNat) ++
      s!" in position {start}: {fault.message}"
  | faulty encoding fault start _ more =>
    s!"'{encoding}' codec can't decode bytes in position {start}-{start + more}: {fault.message}"
  | notText name =>
    s!"'{String.ofList name}' is not a text encoding; " ++
      "use codecs.decode() to handle arbitrary codecs"
  | unknown name => s!"unknown encoding: {String.ofList name}"

/-! Sequences of one to four bytes for each character -/

namespace Utf8

/-- What the first byte of a longer sequence says about it. -/
structure Lead where
  /-- How many bytes follow. -/
  tails : Nat
  /-- The least and the greatest value of the second byte. The bytes after it are from 80 to BF. -/
  low : UInt8
  high : UInt8
  /-- The bits of the character in the first byte. -/
  bits : UInt8
deriving DecidableEq, Repr

/-- The second byte is limited so that no sequence is longer than needed, stands for a surrogate or
goes beyond the last character. -/
def lead? (b : UInt8) : Option Lead :=
  if 0xC2 ≤ b && b ≤ 0xDF then some ⟨1, 0x80, 0xBF, b - 0xC0⟩
  else if b == 0xE0 then some ⟨2, 0xA0, 0xBF, 0⟩
  else if b == 0xED then some ⟨2, 0x80, 0x9F, 0xD⟩
  else if 0xE1 ≤ b && b ≤ 0xEF then some ⟨2, 0x80, 0xBF, b - 0xE0⟩
  else if b == 0xF0 then some ⟨3, 0x90, 0xBF, 0⟩
  else if 0xF1 ≤ b && b ≤ 0xF3 then some ⟨3, 0x80, 0xBF, b - 0xF0⟩
  else if b == 0xF4 then some ⟨3, 0x80, 0x8F, 4⟩
  else none

/-- Reads `n` further bytes of a sequence, the next one between the two bounds. A fault comes with
the number of bytes read before it. -/
def readTails (read value : Nat) (low high : UInt8) :
    Nat → Bytes → Except (ByteFault × Nat) (Nat × Bytes)
  | 0, rest => .ok (value, rest)
  | _ + 1, [] => .error (.unexpectedEnd, read)
  | n + 1, b :: rest =>
    if low ≤ b && b ≤ high then
      readTails (read + 1) (value * 64 + (b.toNat - 0x80)) 0x80 0xBF n rest
    else .error (.invalidContinuation, read)

theorem length_le_of_readTails {read value n : Nat} {low high : UInt8} {bytes rest : Bytes}
    {code : Nat} (h : readTails read value low high n bytes = .ok (code, rest)) :
    rest.length ≤ bytes.length := by
  fun_induction readTails read value low high n bytes with
  | case1 => simp_all
  | case2 => simp at h
  | case3 _ _ _ _ _ _ _ _ ih => exact Nat.le_succ_of_le (ih h)
  | case4 => simp at h

/-- Reads bytes from a position on, after the characters `read` in reverse order. -/
def decodeFrom (start : Nat) (read : Text) (bytes : Bytes) : Except DecodeError Text :=
  match bytes with
  | [] => .ok read.reverse
  | b :: rest =>
    if b < 0x80 then decodeFrom (start + 1) (Char.ofNat b.toNat :: read) rest
    else
      match lead? b with
      | none => .error (.faulty "utf-8" .invalidStart start b 0)
      | some lead =>
        match _h : readTails 0 lead.bits.toNat lead.low lead.high lead.tails rest with
        | .error (fault, more) => .error (.faulty "utf-8" fault start b more)
        | .ok (code, after) => decodeFrom (start + 1 + lead.tails) (Char.ofNat code :: read) after
termination_by bytes.length
decreasing_by
  · exact Nat.lt_succ_self _
  · exact Nat.lt_succ_of_le (length_le_of_readTails _h)

/-- The bytes of a text. -/
def encode (t : Text) : Bytes := t.flatMap String.utf8EncodeChar

/-- What stands for bytes that are no text. -/
def replacementChar : Char := Char.ofNat 0xFFFD

/-- Reads bytes and puts one mark in the place of each faulty sequence. -/
def decodeLossy (bytes : Bytes) : Text :=
  match bytes with
  | [] => []
  | b :: rest =>
    if b < 0x80 then Char.ofNat b.toNat :: decodeLossy rest
    else
      match lead? b with
      | none => replacementChar :: decodeLossy rest
      | some lead =>
        match _h : readTails 0 lead.bits.toNat lead.low lead.high lead.tails rest with
        | .error (_, more) => replacementChar :: decodeLossy (rest.drop more)
        | .ok (code, after) => Char.ofNat code :: decodeLossy after
termination_by bytes.length
decreasing_by
  · exact Nat.lt_succ_self _
  · exact Nat.lt_succ_self _
  · exact Nat.lt_succ_of_le (List.length_drop ▸ Nat.sub_le rest.length more)
  · exact Nat.lt_succ_of_le (length_le_of_readTails _h)

end Utf8

/-- The ways to store text as bytes that are always at hand. -/
inductive Encoding where
  | utf8
  | ascii
  | latin1
deriving DecidableEq, Repr

namespace Encoding

/-- A name in small letters, with one underscore for each run of other characters. -/
def plainName (name : Text) : Text :=
  Text.join ['_'] <| (Text.fields '_' <| (lower name).map fun c =>
    if c.isAlphanum || c == '.' then c else '_').filter fun part => !part.isEmpty

/-- The names of each encoding. -/
def names : List (Encoding × List String) :=
  [(utf8, ["utf_8", "utf8", "u8", "utf", "utf8_ucs2", "utf8_ucs4", "cp65001"]),
    (ascii, ["ascii", "646", "ansi_x3.4_1968", "ansi_x3_4_1968", "ansi_x3.4_1986", "cp367",
      "csascii", "ibm367", "iso646_us", "iso_646.irv_1991", "iso_ir_6", "us", "us_ascii"]),
    (latin1, ["latin_1", "8859", "cp819", "csisolatin1", "ibm819", "iso8859", "iso8859_1",
      "iso_8859_1", "iso_8859_1_1987", "iso_ir_100", "l1", "latin", "latin1"])]

/-- Encodings of bytes as bytes or of text as text. -/
def notTextNames : List String :=
  ["hex", "hex_codec", "base64", "base_64", "base64_codec", "bz2", "bz2_codec", "zip", "zlib",
    "zlib_codec", "quopri", "quopri_codec", "quoted_printable", "quotedprintable", "uu",
    "uu_codec", "rot13", "rot_13"]

/-- The encoding of a name. -/
def ofName (name : Text) : Except DecodeError Encoding :=
  let plain := String.ofList (plainName name)
  match names.find? fun entry => entry.2.contains plain with
  | some (encoding, _) => .ok encoding
  | none => .error (if notTextNames.contains plain then .notText name else .unknown name)

/-- Reads bytes that stand for one character each. -/
def decodeAscii (bytes : Bytes) : Except DecodeError Text :=
  match bytes.dropWhile (· < 0x80) with
  | [] => .ok (bytes.map fun b => Char.ofNat b.toNat)
  | b :: rest => .error (.faulty "ascii" .notAscii (bytes.length - (rest.length + 1)) b 0)

def decode (encoding : Encoding) (bytes : Bytes) : Except DecodeError Text :=
  match encoding with
  | utf8 => Utf8.decodeFrom 0 [] bytes
  | ascii => decodeAscii bytes
  | latin1 => .ok (bytes.map fun b => Char.ofNat b.toNat)

end Encoding

/-- Encodings by their names. A name gives a way to read bytes, or the reason why it gives none. -/
abbrev Codecs := Text → Except DecodeError (Bytes → Except DecodeError Text)

/-- The encodings that are always at hand. -/
def Codecs.basic : Codecs := fun name => (Encoding.ofName name).map Encoding.decode

/-- The text that bytes stand for in the named encoding. No bytes are no text in every encoding,
so its name is not looked at for them. -/
def Codecs.decodeText (codecs : Codecs) (name : Text) (bytes : Bytes) : Except DecodeError Text :=
  if bytes.isEmpty then .ok []
  else
    match codecs name with
    | .ok decode => decode bytes
    | .error e => .error e

end StoreMarkup
