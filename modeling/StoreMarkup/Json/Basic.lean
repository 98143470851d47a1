/-! JSON values. -/
namespace StoreMarkup

/-- A number with a fraction or an exponent. Besides decimals there are the infinities and a value
that is no number. -/
inductive JsonReal where
  /-- `mantissa` times ten to the power of `exponent`. -/
  | decimal (mantissa : Int) (exponent : Int)
  | infinite (negative : Bool)
  | undefined
deriving DecidableEq, Repr

/-- A JSON value. The fields of an object are in the order in which they were first given. -/
inductive Json where
  | null
  | bool (value : Bool)
  | int (value : Int)
  | real (value : JsonReal)
  | string (value : String)
  | array (items : List Json)
  | object (fields : List (String × Json))
deriving Repr, Inhabited

/-- Whether a decimal is so small that it is held as zero: at most half of the least positive
binary number, which is two to the power of -1074. -/
def JsonReal.isZero : JsonReal → Bool
  | decimal mantissa exponent =>
    let digits := (Nat.toDigits 10 mantissa.natAbs).length
    mantissa == 0 || exponent + digits < -400 ||
      (exponent < 0 && exponent + digits < -300 &&
        mantissa.natAbs * Nat.pow 2 1075 ≤ Nat.pow 10 exponent.natAbs)
  | _ => false

namespace Json

/-- Zero, the empty values and null count as false. -/
def isTrue : Json → Bool
  | null => false
  | bool value => value
  | int value => value != 0
  | real value => !value.isZero
  | string value => !value.isEmpty
  | array items => !items.isEmpty
  | object fields => !fields.isEmpty

/-- The name of a value's type in messages. -/
def typeName : Json → String
  | null => "NoneType"
  | bool _ => "bool"
  | int _ => "int"
  | real _ => "float"
  | string _ => "str"
  | array _ => "list"
  | object _ => "dict"

/-- The value of a field, if this is an object that has it. -/
def get? (key : String) : Json → Option Json
  | object fields => fields.lookup key
  | _ => none

def string? : Json → Option String
  | string value => some value
  | _ => none

/-- Adds a field, or gives it a new value in its place. -/
def insertField (fields : List (String × Json)) (key : String) (value : Json) :
    List (String × Json) :=
  match fields with
  | [] => [(key, value)]
  | (k, v) :: rest => if k = key then (k, value) :: rest else (k, v) :: insertField rest key value

mutual

def beq : Json → Json → Bool
  | null, null => true
  | bool a, bool b => a == b
  | int a, int b => a == b
  | real a, real b => a == b
  | string a, string b => a == b
  | array a, array b => beqItems a b
  | object a, object b => beqFields a b
  | _, _ => false

def beqItems : List Json → List Json → Bool
  | [], [] => true
  | a :: as, b :: bs => beq a b && beqItems as bs
  | _, _ => false

def beqFields : List (String × Json) → List (String × Json) → Bool
  | [], [] => true
  | (k, a) :: as, (l, b) :: bs => k == l && beq a b && beqFields as bs
  | _, _ => false

end

instance : BEq Json := ⟨beq⟩

end Json

end StoreMarkup
