import IssueRelay.Json.Reader
import IssueRelay.Settings.Basic
import IssueRelay.Settings.Path
import IssueRelay.Text.Utf8

/-!
Settings files: a JSON object in UTF-8. Lines may end in any of the three usual ways, and places in
messages count after they have been made alike.
-/

set_option autoImplicit false

namespace IssueRelay

inductive SettingsFileError
  | file (e : FileError)
  | invalidUtf8 (f : Utf8.Fault)
  | malformed (path : Text) (m : Json.Malformed)
  | limit (l : Json.Limit)
  | notObject (path : Text)
  | settings (e : SettingsError)
  deriving DecidableEq

def SettingsFileError.message : SettingsFileError → Text
  | .file e => e.message
  | .invalidUtf8 f => f.message
  | .malformed path m => "Invalid config file " ++ path ++ ": " ++ m.message
  | .limit l => l.message
  | .notObject path => "Invalid config file " ++ path ++ ": expected a JSON object"
  | .settings e => e.message

/-- A text with a line feed at the end of each line, where there was a carriage return, a line feed,
or the two together. -/
def unifyLines : List Char → List Char
  | [] => []
  | '\r' :: '\n' :: rest => '\n' :: unifyLines rest
  | c :: rest => (if c = '\r' then '\n' else c) :: unifyLines rest

namespace Settings

def ofOctets (path : Text) (octets : List UInt8) : Except SettingsFileError Settings := do
  let chars ← (Utf8.decode octets).mapError .invalidUtf8
  match Json.read (Text.ofChars (unifyLines chars)) with
  | .error (.malformed m) => .error (.malformed path m)
  | .error (.limit l) => .error (.limit l)
  | .ok (.obj members) => (ofJson (.obj members)).mapError .settings
  | .ok _ => .error (.notObject path)

def load (folder : Folder) (path : FilePath) : Except SettingsFileError Settings := do
  let octets ← (folder.read path).mapError .file
  ofOctets path.text octets

end Settings

end IssueRelay
