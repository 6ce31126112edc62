import IssueRelay.Json.Fault

/-!
Number literals. A literal is the longest text that the number grammar admits: a point or an
exponent mark without a digit after it is not part of it.
-/

set_option autoImplicit false

namespace IssueRelay.Json

abbrev Digit := Fin 10

def digit? (c : CodePoint) : Option Digit := c.indexFrom? '0' 10

def digits : Text → List Digit × Text
  | [] => ([], [])
  | c :: rest =>
    match digit? c with
    | some d => (d :: (digits rest).1, (digits rest).2)
    | none => ([], c :: rest)

def ofDigits (ds : List Digit) : Nat := ds.foldl (fun n d => 10 * n + d.val) 0

structure Exponent where
  negative : Bool
  digits : List Digit
  deriving DecidableEq

def Exponent.value (e : Exponent) : Int :=
  if e.negative then -(ofDigits e.digits : Int) else ofDigits e.digits

/-- A number literal by its parts; a literal without a fraction has no fraction digits. -/
structure Numeral where
  negative : Bool
  whole : List Digit
  fraction : List Digit
  exponent : Option Exponent
  deriving DecidableEq

namespace Numeral

def sign : Text → Bool × Text
  | .scalar '-' :: rest => (true, rest)
  | s => (false, s)

def whole? : Text → Option (List Digit × Text)
  | [] => none
  | c :: rest =>
    match digit? c with
    | none => none
    | some d => if d = 0 then some ([d], rest) else some (d :: (digits rest).1, (digits rest).2)

def takeFraction (s : Text) : List Digit × Text :=
  match s with
  | .scalar '.' :: rest =>
    match digits rest with
    | ([], _) => ([], s)
    | (ds, rest) => (ds, rest)
  | _ => ([], s)

def exponentSign : Text → Bool × Text
  | .scalar '+' :: rest => (false, rest)
  | s => sign s

def takeExponent (s : Text) : Option Exponent × Text :=
  match s with
  | .scalar c :: rest =>
    if c = 'e' ∨ c = 'E' then
      let (negative, unsigned) := exponentSign rest
      match digits unsigned with
      | ([], _) => (none, s)
      | (ds, rest) => (some ⟨negative, ds⟩, rest)
    else (none, s)
  | _ => (none, s)

def scan? (s : Text) : Option (Numeral × Text) := do
  let (negative, unsigned) := sign s
  let (whole, s) ← whole? unsigned
  let (fraction, s) := takeFraction s
  let (exponent, s) := takeExponent s
  some (⟨negative, whole, fraction, exponent⟩, s)

def isInteger (n : Numeral) : Bool := n.fraction.isEmpty && n.exponent.isNone

def integer (n : Numeral) : Int :=
  if n.negative then -(ofDigits n.whole : Int) else ofDigits n.whole

def real (n : Numeral) : Real :=
  .decimal n.negative (ofDigits (n.whole ++ n.fraction))
    (((n.exponent.map Exponent.value).getD 0) - n.fraction.length)

/-- The value of a literal. An integer has a limit on its length; the one that other numbers have,
at a thousand million digits, is left out. -/
def value (n : Numeral) : Except Limit Json :=
  if n.isInteger then
    if n.whole.length ≤ maxDigits then .ok (.int n.integer)
    else .error (.integerDigits n.whole.length)
  else .ok (.real n.real)

end Numeral

end IssueRelay.Json
