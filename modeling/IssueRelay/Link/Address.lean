import IssueRelay.Text.Cut

set_option autoImplicit false

namespace IssueRelay.Link

def isChar (p : Char → Bool) : CodePoint → Bool
  | .scalar c => p c
  | .surrogate _ => false

def isHexChar (c : Char) : Bool := c.isDigit || ('a' ≤ c && c ≤ 'f') || ('A' ≤ c && c ≤ 'F')

def digitsValue (s : Text) : Nat := s.foldl (fun n c => 10 * n + (c.value - 0x30)) 0

def isOctet (s : Text) : Bool :=
  s ≠ [] && s.all (isChar Char.isDigit) && s.length ≤ 3 && digitsValue s ≤ 255
    && (s.length = 1 || s.head? ≠ some (.scalar '0'))

def isIpv4 (s : Text) : Bool :=
  (Text.split (.scalar '.') s).length = 4 && (Text.split (.scalar '.') s).all isOctet

def isHextet (s : Text) : Bool := s ≠ [] && s.all (isChar isHexChar) && s.length ≤ 4

/-- The parts of an address with its last part, if that is an address of the older form, as the two
hextets it takes the place of. -/
def withoutIpv4 (parts : List Text) : Option (List Text) :=
  match parts.getLast? with
  | none => some []
  | some last =>
    if .scalar '.' ∈ last then
      if isIpv4 last then some (parts.dropLast ++ [[.scalar '0'], [.scalar '0']]) else none
    else some parts

/-- How many hextets stand on one side of a gap; an empty end of the address next to the gap belongs
to it. -/
def sideSize (side : List Text) : Option Nat :=
  if side = [[]] then some 0 else if side.all isHextet then some side.length else none

/-- Eight hextets, or fewer with one gap, written as an empty part, in place of the others. -/
def areIpv6Parts : List Text → Bool
  | [] => false
  | first :: rest =>
    let high := first :: rest.takeWhile (· ≠ [])
    match rest.dropWhile (· ≠ []) with
    | [] | [_] => (first :: rest).length = 8 && (first :: rest).all isHextet
    | _ :: low =>
      match sideSize high, sideSize low with
      | some m, some n => m + n ≤ 7
      | _, _ => false

def isIpv6 (s : Text) : Bool :=
  let (address, scope) := Text.cutAt (.scalar '%') s
  let isScope := match scope with
    | none => true
    | some scope => scope ≠ [] && .scalar '%' ∉ scope
  let areParts := match withoutIpv4 (Text.split (.scalar ':') address) with
    | none => false
    | some parts => areIpv6Parts parts
  isScope && .scalar '/' ∉ s && areParts

def isFutureAddress (s : Text) : Bool :=
  match s with
  | .scalar 'v' :: rest =>
    rest.takeWhile (isChar isHexChar) ≠ [] &&
      match rest.dropWhile (isChar isHexChar) with
      | .scalar '.' :: _ :: _ => true
      | _ => false
  | _ => false

end IssueRelay.Link
