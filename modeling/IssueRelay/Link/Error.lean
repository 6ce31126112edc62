import IssueRelay.Json.Basic
import IssueRelay.Text.Quoted

set_option autoImplicit false

namespace IssueRelay

inductive LinkError
  | badBrackets
  | badFutureAddress
  | bracketedIpv4
  | notAnAddress (host : Text)
  | foldsToDelimiter (authority : Text)
  | urlNotText (found : Shape)
  deriving DecidableEq

def LinkError.message : LinkError → Text
  | .badBrackets => "Invalid IPv6 URL"
  | .badFutureAddress => "IPvFuture address is invalid"
  | .bracketedIpv4 => "An IPv4 address cannot be in brackets"
  | .notAnAddress host => Text.quoted host ++ " does not appear to be an IPv4 or IPv6 address"
  | .foldsToDelimiter authority =>
    "netloc '" ++ authority ++ "' contains invalid characters under NFKC normalization"
  | .urlNotText found => "'" ++ Text.ofString found.typeName ++ "' object has no attribute 'rstrip'"

end IssueRelay
