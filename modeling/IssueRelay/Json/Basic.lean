import IssueRelay.Text.Basic

/-!
JSON values as they are read: objects keep the order of their keys, integers are exact, and any
other number keeps what its literal says.
-/

set_option autoImplicit false

namespace IssueRelay

/-- A number that is not an integer literal: `mantissa * 10 ^ exponent`, or one of three words. -/
inductive Real
  | notANumber
  | infinity (negative : Bool)
  | decimal (negative : Bool) (mantissa : Nat) (exponent : Int)
  deriving DecidableEq

/-- Whether the nearest double-precision number is zero. That is so for a magnitude of at most half
the least positive double, which is 2 ^ -1074; the number of digits settles all but the closest
cases, so that the exact comparison stays as small as the literal. -/
def Real.roundsToZero : Real → Bool
  | .notANumber | .infinity _ => false
  | .decimal _ mantissa exponent =>
    let digits : Nat := (Nat.toDigits 10 mantissa).length
    if mantissa = 0 then true
    else if exponent ≥ 0 then false
    else if digits + exponent ≤ -324 then true
    else mantissa * Nat.pow 2 1075 ≤ Nat.pow 10 exponent.natAbs

inductive Json
  | null
  | bool (b : Bool)
  | int (n : Int)
  | real (r : Real)
  | str (s : Text)
  | arr (items : List Json)
  | obj (members : List (Text × Json))
  deriving BEq

inductive Shape
  | null
  | boolean
  | integer
  | real
  | string
  | array
  | object
  deriving DecidableEq

def Shape.noun : Shape → String
  | .null => "null"
  | .boolean => "boolean"
  | .integer | .real => "number"
  | .string => "string"
  | .array => "array"
  | .object => "object"

def Shape.typeName : Shape → String
  | .null => "NoneType"
  | .boolean => "bool"
  | .integer => "int"
  | .real => "float"
  | .string => "str"
  | .array => "list"
  | .object => "dict"

namespace Json

def shape : Json → Shape
  | .null => .null
  | .bool _ => .boolean
  | .int _ => .integer
  | .real _ => .real
  | .str _ => .string
  | .arr _ => .array
  | .obj _ => .object

/-- Whether a value counts as set: all do but null, false, zeros and what is empty. -/
def isSet : Json → Bool
  | .null => false
  | .bool b => b
  | .int n => n ≠ 0
  | .real r => !r.roundsToZero
  | .str s => !s.isEmpty
  | .arr items => !items.isEmpty
  | .obj members => !members.isEmpty

/-- A member replaces one of the same key where that stands, and else comes last. -/
def put (members : List (Text × Json)) (key : Text) (value : Json) : List (Text × Json) :=
  match members with
  | [] => [(key, value)]
  | (k, v) :: rest => if k = key then (k, value) :: rest else (k, v) :: put rest key value

def ofPairs (pairs : List (Text × Json)) : List (Text × Json) :=
  pairs.foldl (fun members (k, v) => put members k v) []

def get? (members : List (Text × Json)) (key : Text) : Option Json :=
  match members with
  | [] => none
  | (k, v) :: rest => if k = key then some v else get? rest key

end Json

end IssueRelay
