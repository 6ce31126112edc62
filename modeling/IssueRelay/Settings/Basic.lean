import IssueRelay.Json.Basic

/-!
Settings: how records are written, and which site browse links lead to. Values are kept as they were
read, whatever their sort; what a value means is decided where it is used.
-/

set_option autoImplicit false

namespace IssueRelay

structure OutputSettings where
  sortKeys : Json
  asciiOnly : Json
  indent : Json
  deriving BEq

structure LinkSettings where
  url : Json
  deriving BEq

structure Settings where
  version : Json
  output : OutputSettings
  link : LinkSettings
  deriving BEq

/-- A value that is looked into for settings and is no object. -/
structure SettingsError where
  found : Shape
  deriving DecidableEq

def SettingsError.message (e : SettingsError) : Text :=
  "'" ++ Text.ofString e.found.typeName ++ "' object has no attribute 'get'"

namespace OutputSettings

def plain : OutputSettings := ⟨.bool false, .bool false, .null⟩

def ofMembers (members : List (Text × Json)) : OutputSettings where
  sortKeys := (Json.get? members "sort_keys").getD plain.sortKeys
  asciiOnly := (Json.get? members "ensure_ascii").getD plain.asciiOnly
  indent := (Json.get? members "indent").getD plain.indent

def toJson (s : OutputSettings) : Json :=
  .obj [("sort_keys", s.sortKeys), ("ensure_ascii", s.asciiOnly), ("indent", s.indent)]

end OutputSettings

namespace LinkSettings

def plain : LinkSettings := ⟨.null⟩

def ofMembers (members : List (Text × Json)) : LinkSettings where
  url := (Json.get? members "url").getD plain.url

def toJson (s : LinkSettings) : Json := .obj [("url", s.url)]

def isConfigured (s : LinkSettings) : Bool := s.url.isSet

end LinkSettings

namespace Settings

/-- A section of the settings. One that is absent or not set has the plain values. -/
def readSection {α : Type} (plain : α) (ofMembers : List (Text × Json) → α) :
    Option Json → Except SettingsError α
  | none => .ok plain
  | some v =>
    if v.isSet then
      match v with
      | .obj members => .ok (ofMembers members)
      | v => .error ⟨v.shape⟩
    else .ok plain

def ofJson : Json → Except SettingsError Settings
  | .obj members => do
    let output ← readSection .plain .ofMembers (Json.get? members "codec")
    let link ← readSection .plain .ofMembers (Json.get? members "jira")
    .ok ⟨(Json.get? members "version").getD (.str "0.1"), output, link⟩
  | v => .error ⟨v.shape⟩

def ofOptional : Option Json → Except SettingsError (Option Settings)
  | none => .ok none
  | some v => some <$> ofJson v

def outputOf : Option Settings → OutputSettings
  | none => .plain
  | some s => s.output

def toJson (s : Settings) : Json :=
  .obj [("version", s.version), ("codec", s.output.toJson), ("jira", s.link.toJson)]

end Settings

end IssueRelay
