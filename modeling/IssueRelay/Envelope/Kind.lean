import IssueRelay.Json.Basic
import IssueRelay.Record.Catalog

/-!
Envelope kinds. An envelope says what it announces by which of the four namespace tags are among its
keys, so that it needs no field for its type.
-/

set_option autoImplicit false

namespace IssueRelay

inductive EnvelopeKind
  | gitHubRepo
  | gitHubIssue
  | jiraIssue
  deriving DecidableEq

inductive UnknownEnvelope
  | notObject
  | tags (present : List String)
  deriving DecidableEq

def UnknownEnvelope.message : UnknownEnvelope → Text
  | .notObject => "envelope must be a JSON object"
  | .tags [] => "unrecognized envelope tags: none"
  | .tags (tag :: rest) =>
    "unrecognized envelope tags: ['" ++ Text.ofString (String.intercalate "', '" (tag :: rest))
      ++ "']"

namespace EnvelopeKind

def all : List EnvelopeKind := [gitHubRepo, gitHubIssue, jiraIssue]

theorem mem_all (kind : EnvelopeKind) : kind ∈ all := by cases kind <;> decide

def name : EnvelopeKind → String
  | gitHubRepo => "GITHUB_REPO"
  | gitHubIssue => "GITHUB_ISSUE"
  | jiraIssue => "JIRA_ISSUE"

def label : EnvelopeKind → String
  | gitHubRepo => "github.repo"
  | gitHubIssue => "github.issue"
  | jiraIssue => "jira.issue"

def recordType : EnvelopeKind → RecordType
  | gitHubRepo => .gitHubRepoEnvelope
  | gitHubIssue => .gitHubIssueEnvelope
  | jiraIssue => .jiraIssueEnvelope

/-- The four namespace tags in the order of their code points. -/
def allTags : List String := [gitHubIssueTag, gitHubRepoTag, jiraIssueTag, jiraProjectTag]

def tags : EnvelopeKind → List String
  | gitHubRepo => [gitHubRepoTag]
  | gitHubIssue => [gitHubIssueTag, gitHubRepoTag]
  | jiraIssue => [jiraIssueTag, jiraProjectTag]

def tagsPresent (members : List (Text × Json)) : List String :=
  allTags.filter fun tag => (Json.get? members tag).isSome

def ofJson : Json → Except UnknownEnvelope EnvelopeKind
  | .obj members =>
    match all.find? fun kind => tagsPresent members = kind.tags with
    | some kind => .ok kind
    | none => .error (.tags (tagsPresent members))
  | _ => .error .notObject

end EnvelopeKind

end IssueRelay
