import IssueRelay.Json.Reader
import IssueRelay.Log
import IssueRelay.Record.Reading

/-!
Payloads: JSON that comes in as a text or as octets. A payload that is refused as text, as JSON or
as a record leaves one log entry.
-/

set_option autoImplicit false

namespace IssueRelay

inductive Payload
  | text (s : Text)
  | octets (bytes : List UInt8)

namespace Payload

def toText : Payload → Except Utf8.Fault Text
  | .text s => .ok s
  | .octets bytes => Text.ofChars <$> Utf8.decode bytes

/-- The JSON value of a payload; `what` names the payload in log entries. -/
def load (what : Text) (p : Payload) : Logged DecodeFailure Json :=
  match p.toText with
  | .error f => .fail (.refused (.invalidUtf8 f)) [.invalidUtf8 what f]
  | .ok s =>
    match Json.read s with
    | .ok v => pure v
    | .error (.malformed m) => .fail (.refused (.malformed m)) [.malformed what m]
    | .error (.limit l) => .fail (.limit l) []

end Payload

namespace RecordType

/-- A record from a payload's value; `component` logs why the value is refused. -/
def ofLoaded (type : RecordType) (component : Component) (v : Json) :
    Logged DecodeFailure type.Row :=
  match type.ofJson [] v with
  | .ok r => pure r
  | .error e => .fail (.refused (.record e)) [.notRecord component type e]

def decode (type : RecordType) (p : Payload) : Logged DecodeFailure type.Row := do
  let v ← p.load type.name
  type.ofLoaded .records v

end RecordType

def Record.decode (type : RecordType) (p : Payload) : Logged DecodeFailure Record :=
  Record.mk type <$> type.decode p

end IssueRelay
