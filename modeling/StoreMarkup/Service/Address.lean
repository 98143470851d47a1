import StoreMarkup.Text.Integer

/-! Network addresses that may stand in place of a host name. -/
namespace StoreMarkup.Service

/-- A number up to 255 without zeros in front. -/
def isOctet (t : Text) : Bool :=
  !t.isEmpty && t.length ≤ 3 && t.all Char.isDigit && (t == ['0'] || t.head? != some '0') &&
    decimalValue t ≤ 255

/-- Four octets with points between them. -/
def isOctetAddress (t : Text) : Bool :=
  let octets := Text.fields '.' t
  octets.length == 4 && octets.all isOctet

/-- A group of one to four hexadecimal digits. -/
def isDigitGroup (t : Text) : Bool :=
  !t.isEmpty && t.length ≤ 4 && t.all fun c => (hexValue? c).isSome

/-- The parts between the colons of an address, where octets at the end count as two groups. -/
def addressParts (t : Text) : Option (List Text) :=
  let parts := Text.fields ':' t
  match parts.getLast? with
  | some last =>
    if last.contains '.' then
      if isOctetAddress last then some (parts.dropLast ++ [['0'], ['0']]) else none
    else some parts
  | none => none

/-- One side of the gap in an address: groups, or nothing at the very end of the address. -/
def isGapSide (parts : List Text) : Bool := parts == [[]] || parts.all isDigitGroup

/-- Eight groups with colons between them, of which one run may be left out. -/
def isGroupList (parts : List Text) : Bool :=
  let isGap := fun i => 0 < i && i + 1 < parts.length && parts[i]? == some []
  match (List.range parts.length).filter isGap with
  | [] => parts.length == 8 && parts.all isDigitGroup
  | [i] =>
    isGapSide (parts.take i) && isGapSide (parts.drop (i + 1)) &&
      (parts.filter fun p => !p.isEmpty).length < 8
  | _ => false

/-- An address of groups, with a zone after a percent sign or without one. -/
def isGroupAddress (t : Text) : Bool :=
  let zoneOk := match t.dropWhile (· != '%') with
    | [] => true
    | _ :: zone => !zone.isEmpty && !zone.contains '%'
  zoneOk && (addressParts (t.takeWhile (· != '%'))).any isGroupList

/-- An address of a later kind: a version and a text of any form. -/
def isVersionedAddress (t : Text) : Bool :=
  match t with
  | 'v' :: rest =>
    let version := rest.takeWhile fun c => (hexValue? c).isSome
    match rest.drop version.length with
    | '.' :: _ :: _ => !version.isEmpty
    | _ => false
  | _ => false

end StoreMarkup.Service
