import StoreMarkup.Json.Printer

/-! Limits that a configuration sets. -/
namespace StoreMarkup.Service

/-- The greatest number that is allowed. -/
inductive Limit where
  | unlimited
  | upTo (n : Int)
  /-- A value that is no integer and is compared like one, with its text. -/
  | written (bound : Option Int) (text : String)
  /-- A value of a type that numbers cannot be compared with. -/
  | incomparable (typeName : String)
deriving DecidableEq, Repr

/-- The integers above a real number are those above its bound. -/
def realBound : JsonReal → Option Int
  | .decimal mantissa exponent =>
    if 0 ≤ exponent then some (mantissa * (Nat.pow 10 exponent.toNat : Nat))
    else some (Int.fdiv mantissa (Nat.pow 10 exponent.natAbs : Nat))
  | .infinite true => some (-1)
  | .infinite false | .undefined => none

def realLabel : JsonReal → String
  | .decimal mantissa exponent => Json.decimalText mantissa exponent
  | .infinite negative => if negative then "-inf" else "inf"
  | .undefined => "nan"

namespace Limit

def ofJson : Json → Limit
  | .null => unlimited
  | .int n => upTo n
  | .bool b => if b then written (some 1) "True" else written (some 0) "False"
  | .real r => written (realBound r) (realLabel r)
  | v => incomparable v.typeName

/-- The limit as a number, none without a limit. The error is the name of a type. -/
def bound : Limit → Except String (Option Int)
  | unlimited => .ok none
  | upTo n => .ok (some n)
  | written bound _ => .ok bound
  | incomparable typeName => .error typeName

/-- The limit in messages. -/
def text : Limit → String
  | unlimited => "None"
  | upTo n => toString n
  | written _ text => text
  | incomparable typeName => typeName

end Limit

/-- The message about a limit that numbers cannot be compared with. -/
def comparisonMessage (typeName : String) : String :=
  s!"'>' not supported between instances of 'int' and '{typeName}'"

end StoreMarkup.Service
