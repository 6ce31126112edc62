import IssueRelay.Link.Origin
import IssueRelay.Settings.Basic

set_option autoImplicit false

namespace IssueRelay.Link

def isSlash (c : CodePoint) : Bool := c = .scalar '/'

def withoutEndSlashes (t : Text) : Text := (t.reverse.dropWhile isSlash).reverse

def configuredBase (url : Json) : Except LinkError Text :=
  match url with
  | .str s => .ok (withoutEndSlashes s)
  | v => .error (.urlNotText v.shape)

def derivedBase (apiUrl : Text) : Except LinkError Text :=
  match Text.before? "/rest/" apiUrl with
  | some base => .ok base
  | none => (fun (scheme, authority) => scheme ++ "://" ++ authority) <$> origin apiUrl

def base (apiUrl : Text) (settings : Option Settings) : Except LinkError Text :=
  match settings with
  | some s => if s.link.isConfigured then configuredBase s.link.url else derivedBase apiUrl
  | none => derivedBase apiUrl

def browse (apiUrl key : Text) (settings : Option Settings) : Except LinkError Text :=
  (fun base => base ++ "/browse/" ++ key) <$> base apiUrl settings

end IssueRelay.Link
