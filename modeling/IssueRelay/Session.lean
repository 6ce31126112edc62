import IssueRelay.Envelope.Basic
import IssueRelay.Record.Encoding

/-!
Sessions: runs of steps over a current record and records saved under names. A step that fails or
does not apply leaves the current record as it is, except that a failed decoding leaves none.
-/

set_option autoImplicit false

namespace IssueRelay

inductive RelayError
  | decode (f : DecodeFailure)
  | encode (e : EncodeError)
  | settings (e : SettingsError)
  | link (e : LinkError)

inductive Step
  | decode (type : RecordType) (payload : Payload)
  | save (name : Text)
  | repoEnvelope (repo link : Text)
  | gitHubIssueEnvelope (issue repo link : Text)
  | jiraEnvelope (issue : Text) (link : Option Text) (settings : Option Json)
  | encodeParse (settings : Option Json)
  | reencodeAs (type : RecordType) (excluded : List String)
  | sameAs (name : Text)

inductive StepResult
  | current (r : Record)
  | same (answer : Bool)
  | failed (e : RelayError)
  | skipped

structure Session where
  current : Option Record
  saved : List (Text × Record)
  log : List LogEntry

namespace Session

def start : Session := ⟨none, [], []⟩

/-- The record last saved under a name. -/
def saved? (s : Session) (name : Text) : Option Record :=
  (s.saved.find? (·.1 = name)).map (·.2)

def savedAs? (α : Type) [Recorded α] (s : Session) (name : Text) : Option α :=
  (s.saved? name).bind (Record.as? α)

/-- What a step makes of the current record and the saved ones; none where it does not apply. -/
def outcome? (s : Session) : Step → Option (Logged RelayError Record)
  | .decode type payload => some ((Record.decode type payload).mapError .decode)
  | .save _ => s.current.map pure
  | .repoEnvelope repo link => do
    let repo ← s.savedAs? GitHub.Repo repo
    some (Envelope.record <$> Envelope.ofRepo repo link)
  | .gitHubIssueEnvelope issue repo link => do
    let issue ← s.savedAs? GitHub.Issue issue
    let repo ← s.savedAs? GitHub.Repo repo
    some (Envelope.record <$> Envelope.ofIssue issue repo link)
  | .jiraEnvelope issue link settings => do
    let issue ← s.savedAs? Jira.Issue issue
    some do
      let settings ← .ofExcept ((Settings.ofOptional settings).mapError .settings)
      Envelope.record <$> (Envelope.ofJiraIssue issue link settings).mapError .link
  | .encodeParse settings => do
    let r ← s.current
    some do
      let settings ← .ofExcept ((Settings.ofOptional settings).mapError .settings)
      let octets ← .ofExcept ((r.encode [] (Settings.outputOf settings)).mapError .encode)
      Envelope.record <$> (Envelope.parse (.octets octets)).mapError .decode
  | .reencodeAs type excluded => do
    let r ← s.current
    some do
      let octets ← .ofExcept ((r.encode excluded .plain).mapError .encode)
      (Record.decode type (.octets octets)).mapError .decode
  | .sameAs _ => none

def clears : Step → Bool
  | .decode .. => true
  | _ => false

def advance (s : Session) (step : Step) (x : Logged RelayError Record) : Session × StepResult :=
  let s := { s with log := s.log ++ x.log }
  match x.outcome with
  | .error e => ({ s with current := if clears step then none else s.current }, .failed e)
  | .ok r =>
    let saved := match step with
      | .save name => (name, r) :: s.saved
      | _ => s.saved
    ({ s with current := some r, saved }, .current r)

def next (s : Session) (step : Step) : Session × StepResult :=
  match step with
  | .sameAs name =>
    match s.current, s.saved? name with
    | some r, some r' => (s, .same (r = r'))
    | _, _ => (s, .skipped)
  | step =>
    match s.outcome? step with
    | none => (s, .skipped)
    | some x => s.advance step x

def run (s : Session) : List Step → Session × List StepResult
  | [] => (s, [])
  | step :: rest =>
    let (s, answer) := s.next step
    let (s, answers) := s.run rest
    (s, answer :: answers)

end Session

end IssueRelay
