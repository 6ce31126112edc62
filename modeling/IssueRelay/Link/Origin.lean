import IssueRelay.Link.Address
import IssueRelay.Link.Error

set_option autoImplicit false

namespace IssueRelay.Link

def isLeading (c : CodePoint) : Bool := c.value ≤ 0x20

def isIgnored (c : CodePoint) : Bool := c = .scalar '\t' || c = .scalar '\r' || c = .scalar '\n'

def cleaned (url : Text) : Text := (url.dropWhile isLeading).filter (!isIgnored ·)

def isSchemeChar (c : Char) : Bool := c.isAlphanum || c = '+' || c = '-' || c = '.'

def lower : CodePoint → CodePoint
  | .scalar c => .scalar c.toLower
  | .surrogate i => .surrogate i

def splitScheme (url : Text) : Text × Text :=
  match url, Text.cutAt (.scalar ':') url with
  | first :: _, (scheme, some rest) =>
    if isChar Char.isAlpha first && scheme.all (isChar isSchemeChar) then (scheme.map lower, rest)
    else ([], url)
  | _, _ => ([], url)

def endsAuthority (c : CodePoint) : Bool := c = .scalar '/' || c = .scalar '?' || c = .scalar '#'

def authority? : Text → Option Text
  | .scalar '/' :: .scalar '/' :: rest => some (rest.takeWhile (!endsAuthority ·))
  | _ => none

def checkHost (host : Text) : Except LinkError Unit :=
  if host.head? = some (.scalar 'v') then
    if isFutureAddress host then .ok () else .error .badFutureAddress
  else if isIpv4 host then .error .bracketedIpv4
  else if isIpv6 host then .ok ()
  else .error (.notAnAddress host)

/-- The brackets stand around the host alone: a user name can come before them, and only a colon
right after them. This is the later form of the check; in the earlier one only what is between the
brackets is looked at. -/
def checkBrackets (authority : Text) : Except LinkError Unit :=
  let hostAndPort := Text.afterLast (.scalar '@') authority
  match Text.cutAt (.scalar '[') hostAndPort with
  | (_, none) => checkHost (Text.cutAt (.scalar ':') hostAndPort).1
  | (_ :: _, some _) => .error .badBrackets
  | ([], some inside) =>
    match Text.cutAt (.scalar ']') inside with
    | (host, none) | (host, some []) | (host, some (.scalar ':' :: _)) => checkHost host
    | (_, some _) => .error .badBrackets

/-- Characters whose compatibility form holds a delimiter of links: one of `/`, `?`, `#`, `@` and
`:`. -/
def delimiterForms : List Nat :=
  [0x2047, 0x2048, 0x2049, 0x2100, 0x2101, 0x2105, 0x2106, 0x2A74, 0xFE13, 0xFE16, 0xFE55, 0xFE56,
    0xFE5F, 0xFE6B, 0xFF03, 0xFF0F, 0xFF1A, 0xFF1F, 0xFF20]

def checkAuthority (authority : Text) : Except LinkError Unit := do
  let opens := decide (.scalar '[' ∈ authority)
  let closes := decide (.scalar ']' ∈ authority)
  if opens ≠ closes then .error .badBrackets
  else
    if opens then checkBrackets authority
    if authority.any (delimiterForms.contains ·.value) then .error (.foldsToDelimiter authority)

def origin (url : Text) : Except LinkError (Text × Text) :=
  let (scheme, rest) := splitScheme (cleaned url)
  match authority? rest with
  | none => .ok (scheme, [])
  | some authority => (fun _ => (scheme, authority)) <$> checkAuthority authority

end IssueRelay.Link
