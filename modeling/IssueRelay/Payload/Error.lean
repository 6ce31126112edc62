import IssueRelay.Envelope.Kind
import IssueRelay.Record.Error
import IssueRelay.Text.Utf8

set_option autoImplicit false

namespace IssueRelay

inductive DecodeError
  | invalidUtf8 (f : Utf8.Fault)
  | malformed (m : Json.Malformed)
  | record (e : RecordError)
  | unknownEnvelope (e : UnknownEnvelope)
  deriving DecidableEq

namespace DecodeError

def message : DecodeError → Text
  | .invalidUtf8 f => "invalid UTF-8: " ++ f.message
  | .malformed m => "malformed JSON: " ++ m.message
  | .record e => e.message
  | .unknownEnvelope e => e.message

def path : DecodeError → Text
  | .record e => e.path
  | .invalidUtf8 _ | .malformed _ | .unknownEnvelope _ => []

end DecodeError

/-- A payload is refused, or the JSON reader stops at a limit of its own. -/
inductive DecodeFailure
  | refused (e : DecodeError)
  | limit (l : Json.Limit)
  deriving DecidableEq

end IssueRelay
