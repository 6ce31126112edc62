import IssueRelay.Payload.Error

set_option autoImplicit false

namespace IssueRelay

inductive Component
  | records
  | envelopes
  deriving DecidableEq

def Component.logger : Component → String
  | .records => "bridgeas.codec"
  | .envelopes => "bridgeas.mapper"

inductive LogEntry
  | invalidUtf8 (what : Text) (f : Utf8.Fault)
  | malformed (what : Text) (m : Json.Malformed)
  | notRecord (component : Component) (type : RecordType) (e : RecordError)
  | built (kind : EnvelopeKind) (link : Text)
  deriving DecidableEq

namespace LogEntry

def component : LogEntry → Component
  | .invalidUtf8 .. | .malformed .. => .records
  | .notRecord component .. => component
  | .built .. => .envelopes

def message : LogEntry → Text
  | .invalidUtf8 what f => "Invalid UTF-8 for " ++ what ++ ": " ++ f.message
  | .malformed what m => "Malformed JSON for " ++ what ++ ": " ++ m.message
  | .notRecord _ type e => "Failed to decode " ++ Text.ofString type.name ++ ": " ++ e.message
  | .built kind link => "Built " ++ Text.ofString kind.label ++ " envelope for " ++ link

end LogEntry

structure Logged (ε α : Type) where
  outcome : Except ε α
  log : List LogEntry

namespace Logged

variable {ε ε' α β : Type}

def ofExcept (outcome : Except ε α) : Logged ε α := ⟨outcome, []⟩

def fail (e : ε) (log : List LogEntry) : Logged ε α := ⟨.error e, log⟩

def andThen (x : Logged ε α) (next : α → Logged ε β) : Logged ε β :=
  match x.outcome with
  | .error e => ⟨.error e, x.log⟩
  | .ok v => ⟨(next v).outcome, x.log ++ (next v).log⟩

instance : Monad (Logged ε) where
  pure v := ⟨.ok v, []⟩
  bind := andThen

def mapError (f : ε → ε') (x : Logged ε α) : Logged ε' α := ⟨x.outcome.mapError f, x.log⟩

end Logged

end IssueRelay
