import StoreMarkup.Service.Address
import StoreMarkup.Text.Encoding

/-! Where a request goes: the parts of a location and the path that it asks for. -/
namespace StoreMarkup.Service

/-- Why a text is no location. -/
inductive LocationError where
  | unpairedBracket
  | versionedAddress
  | noAddress (text : Text)
  | octetsInBrackets
  /-- A character of the authority is another form of a mark that ends it. -/
  | disguisedMark (authority : Text)
  | emptyOrLongLabel
  | longLabel
  | socketNoNumber (socket : Text)
  | socketTooLarge
deriving DecidableEq, Repr

def LocationError.message : LocationError → String
  | unpairedBracket => "Invalid IPv6 URL"
  | versionedAddress => "IPvFuture address is invalid"
  | noAddress text =>
    String.ofList (quotedText text) ++ " does not appear to be an IPv4 or IPv6 address"
  | octetsInBrackets => "An IPv4 address cannot be in brackets"
  | disguisedMark authority =>
    s!"netloc '{String.ofList authority}' contains invalid characters under NFKC normalization"
  | emptyOrLongLabel =>
    "encoding with 'idna' codec failed (UnicodeError: label empty or too long)"
  | longLabel => "encoding with 'idna' codec failed (UnicodeError: label too long)"
  | socketNoNumber socket =>
    "Port could not be cast to integer value as " ++ String.ofList (quotedText socket)
  | socketTooLarge => "Port out of range 0-65535"

/-- The parts of a location. What follows a hash sign is no part of it. -/
structure Location where
  scheme : Text := []
  /-- The host, with who asks and the number of a socket. -/
  authority : Text := []
  path : Text
  query : Text := []
deriving DecidableEq, Repr

namespace Location

/-- The text before the first `mark` and, if there is one, what follows it. -/
def cut (mark : Char) (t : Text) : Text × Option Text :=
  (t.takeWhile (· != mark),
    match t.dropWhile (· != mark) with
    | [] => none
    | _ :: rest => some rest)

/-- Controls and spaces in front do not count, nor do tabs and line ends anywhere. -/
def clean (t : Text) : Text :=
  (t.dropWhile fun c => c.toNat ≤ 0x20).filter fun c => !(c == '\t' || c == '\r' || c == '\n')

def isSchemeChar (c : Char) : Bool := c.isAlphanum || c == '+' || c == '-' || c == '.'

/-- A scheme in small letters and what follows it. It starts with a letter. -/
def splitScheme (t : Text) : Text × Text :=
  match cut ':' t with
  | (c :: name, some rest) =>
    if c.isAlpha && name.all isSchemeChar then (lower (c :: name), rest) else ([], t)
  | _ => ([], t)

/-- Characters with a compatible form that holds one of the marks `/?#@:`. -/
def disguisedMarks : List Nat :=
  [0x2047, 0x2048, 0x2049, 0x2100, 0x2101, 0x2105, 0x2106, 0x2A74, 0xFE13, 0xFE16, 0xFE55, 0xFE56,
   0xFE5F, 0xFE6B, 0xFF03, 0xFF0F, 0xFF1A, 0xFF1F, 0xFF20]

/-- An authority holds brackets only around an address. -/
def checkBrackets (authority : Text) : Except LocationError Unit :=
  match authority.contains '[', authority.contains ']' with
  | false, false => .ok ()
  | true, true =>
    let address := ((authority.dropWhile (· != '[')).drop 1).takeWhile (· != ']')
    if address.head? == some 'v' then
      if isVersionedAddress address then .ok () else .error .versionedAddress
    else if isOctetAddress address then .error .octetsInBrackets
    else if isGroupAddress address then .ok ()
    else .error (.noAddress address)
  | _, _ => .error .unpairedBracket

def checkMarks (authority : Text) : Except LocationError Unit :=
  if authority.any fun c => disguisedMarks.contains c.toNat then .error (.disguisedMark authority)
  else .ok ()

/-- The parts of a location. The authority stands after two slashes. -/
def split (text : Text) : Except LocationError Location := do
  let (scheme, rest) := splitScheme (clean text)
  let (authority, rest) := match rest with
    | '/' :: '/' :: t =>
      let inAuthority := fun c => !(c == '/' || c == '?' || c == '#')
      (t.takeWhile inAuthority, t.dropWhile inAuthority)
    | _ => ([], rest)
  checkBrackets authority
  let (path, query) := cut '?' (rest.takeWhile (· != '#'))
  checkMarks authority
  return { scheme, authority, path, query := query.getD [] }

end Location

/-- Who is asked at a host. -/
structure Authority where
  user : Option Text
  host : Text
  socket : Option Nat
deriving DecidableEq, Repr

namespace Authority

/-- A host name in small letters, up to the zone of an address. -/
def plainHost (host : Text) : Text :=
  lower (host.takeWhile (· != '%')) ++ host.dropWhile (· != '%')

/-- The points that may stand between the labels of a name. -/
def isLabelMark (c : Char) : Bool := [0x2E, 0x3002, 0xFF0E, 0xFF61].contains c.toNat

/-- Labels have between one and 63 characters. Only the last one may be empty. -/
def checkLabels (host : Text) : Except LocationError Unit :=
  let isAscii := host.all fun c => c.toNat < 0x80
  let labels := Text.fields '.' (host.map fun c => if isLabelMark c then '.' else c)
  let last := labels.getLast?.getD []
  if labels.dropLast.any fun l => l.isEmpty || 64 ≤ l.length then .error .emptyOrLongLabel
  else if last.length < 64 then .ok ()
  else .error (if isAscii then .longLabel else .emptyOrLongLabel)

def socket? (socket : Text) : Except LocationError (Option Nat) :=
  if socket.isEmpty then .ok none
  else if !socket.all Char.isDigit then .error (.socketNoNumber socket)
  else if 65535 < decimalValue socket then .error .socketTooLarge
  else .ok (some (decimalValue socket))

/-- The parts of an authority. The host follows the last at sign. -/
def read (authority : Text) : Except LocationError Authority := do
  let hostAndSocket := (authority.reverse.takeWhile (· != '@')).reverse
  let user := if authority.contains '@' then
      some (authority.take (authority.length - (hostAndSocket.length + 1)))
    else none
  let (host, socket) := if hostAndSocket.contains '[' then
      let (address, rest) := Location.cut ']' ((hostAndSocket.dropWhile (· != '[')).drop 1)
      (address, (Location.cut ':' (rest.getD [])).2.getD [])
    else
      let (name, socket) := Location.cut ':' hostAndSocket
      (name, socket.getD [])
  let host := plainHost host
  checkLabels host
  return { user, host, socket := ← socket? socket }

/-- An authority as it is written. -/
def write (a : Authority) : Text :=
  let user := match a.user with
    | none | some [] => []
    | some user => user ++ ['@']
  let host := if a.host.contains ':' then '[' :: a.host ++ [']'] else a.host
  let socket := match a.socket with
    | none | some 0 => []
    | some n => ':' :: Nat.toDigits 10 n
  user ++ host ++ socket

end Authority

/-- The byte that two hexadecimal digits stand for. -/
def escapedByte? (high low : UInt8) : Option UInt8 := do
  let h ← hexValue? (Char.ofNat high.toNat)
  let l ← hexValue? (Char.ofNat low.toNat)
  return UInt8.ofNat (16 * h + l)

/-- Bytes with those that are written as a percent sign and two digits in their place. -/
def percentDecode : Bytes → Bytes
  | [] => []
  | b :: high :: low :: rest =>
    match if b == 0x25 then escapedByte? high low else none with
    | some decoded => decoded :: percentDecode rest
    | none => b :: percentDecode (high :: low :: rest)
  | b :: rest => b :: percentDecode rest

/-- Text with the characters that are written by their bytes. -/
def unescape (t : Text) : Text := Utf8.decodeLossy (percentDecode (Utf8.encode t))

/-- A path with its authority in the usual form. -/
def plainPath (path : Text) : Except LocationError Text := do
  let parts ← Location.split path
  let scheme := if parts.scheme.isEmpty then [] else parts.scheme ++ [':']
  if parts.authority.isEmpty then return scheme ++ parts.path
  return scheme ++ '/' :: '/' :: (← Authority.read parts.authority).write ++ parts.path

/-- The path that a location asks for. The path of the location may name another authority, which
does not count, and its path is taken as it is. -/
def askedPath (location : Text) : Except LocationError Text := do
  let outer ← Location.split location
  let inner ← Location.split
    (if outer.query.isEmpty then outer.path else outer.path ++ '?' :: outer.query)
  let path ← plainPath inner.path
  let _ ← Authority.read outer.authority
  return unescape path

end StoreMarkup.Service
