import IssueRelay.Envelope.Kind
import IssueRelay.GitHub
import IssueRelay.Jira
import IssueRelay.Link.Browse
import IssueRelay.Payload.Basic

/-!
Envelopes: built from records, and read back from payloads. Nothing checks that the records put into
one envelope belong together.
-/

set_option autoImplicit false

namespace IssueRelay

inductive Envelope
  | gitHubRepo (e : GitHub.RepoEnvelope)
  | gitHubIssue (e : GitHub.IssueEnvelope)
  | jiraIssue (e : Jira.IssueEnvelope)

namespace Envelope

def kind : Envelope → EnvelopeKind
  | gitHubRepo _ => .gitHubRepo
  | gitHubIssue _ => .gitHubIssue
  | jiraIssue _ => .jiraIssue

def link : Envelope → Text
  | gitHubRepo e => e.externalUrl
  | gitHubIssue e => e.externalUrl
  | jiraIssue e => e.externalUrl

def record : Envelope → Record
  | gitHubRepo e => .of e
  | gitHubIssue e => .of e
  | jiraIssue e => .of e

def ofRow : (kind : EnvelopeKind) → kind.recordType.Row → Envelope
  | .gitHubRepo, r => gitHubRepo (Recorded.ofRow r)
  | .gitHubIssue, r => gitHubIssue (Recorded.ofRow r)
  | .jiraIssue, r => jiraIssue (Recorded.ofRow r)

variable {ε : Type}

def built (e : Envelope) : Logged ε Envelope := ⟨.ok e, [.built e.kind e.link]⟩

def ofRepo (repo : GitHub.Repo) (link : Text) : Logged ε Envelope :=
  built (gitHubRepo ⟨repo.part, link⟩)

def ofIssue (issue : GitHub.Issue) (repo : GitHub.Repo) (link : Text) : Logged ε Envelope :=
  built (gitHubIssue ⟨issue.part, repo.part, link⟩)

def ofItems (issue project : Jira.Item) (link : Text) : Logged ε Envelope :=
  built (jiraIssue ⟨issue, project, link⟩)

/-- The envelope of an issue with its project. Without a link of its own it gets the issue's browse
link. -/
def ofJiraIssue (issue : Jira.Issue) (link : Option Text) (settings : Option Settings) :
    Logged LinkError Envelope := do
  let link ← .ofExcept <| match link with
    | some link => .ok link
    | none => Link.browse issue.self issue.key settings
  ofItems issue.item issue.project.item link

def parse (p : Payload) : Logged DecodeFailure Envelope := do
  let v ← p.load "envelope"
  match EnvelopeKind.ofJson v with
  | .error e => .fail (.refused (.unknownEnvelope e)) []
  | .ok kind =>
    let r ← kind.recordType.ofLoaded .envelopes v
    return ofRow kind r

end Envelope

end IssueRelay
