import IssueRelay.Record.Schema

set_option autoImplicit false

namespace IssueRelay

/-- Namespace tags, the keys under which envelopes carry their parts. -/
def gitHubRepoTag : String := "gk.bridgeas.github.repo"

def gitHubIssueTag : String := "gk.bridgeas.github.issue"

def jiraIssueTag : String := "gk.bridgeas.jira.issue"

def jiraProjectTag : String := "gk.bridgeas.jira.project"

inductive RecordType
  | gitHubRepo
  | gitHubIssue
  | gitHubRepoPart
  | gitHubIssuePart
  | gitHubRepoEnvelope
  | gitHubIssueEnvelope
  | jiraProject
  | jiraIssueFields
  | jiraIssue
  | jiraIssueLight
  | jiraItem
  | jiraIssueEnvelope
  | jiraVersion
  deriving DecidableEq

namespace RecordType

def all : List RecordType :=
  [gitHubRepo, gitHubIssue, gitHubRepoPart, gitHubIssuePart, gitHubRepoEnvelope,
    gitHubIssueEnvelope, jiraProject, jiraIssueFields, jiraIssue, jiraIssueLight, jiraItem,
    jiraIssueEnvelope, jiraVersion]

theorem mem_all (type : RecordType) : type ∈ all := by cases type <;> decide

def name : RecordType → String
  | gitHubRepo => "GitHubRepo"
  | gitHubIssue => "GitHubIssue"
  | gitHubRepoPart => "GitHubIssueMessageBodyRepo"
  | gitHubIssuePart => "GitHubIssueMessageBodyIssue"
  | gitHubRepoEnvelope => "GitHubRepoMessageBody"
  | gitHubIssueEnvelope => "GitHubIssueMessageBody"
  | jiraProject => "JiraProject"
  | jiraIssueFields => "JiraIssueFields"
  | jiraIssue => "JiraIssue"
  | jiraIssueLight => "JiraIssueLight"
  | jiraItem => "JiraIssueSimpleItem"
  | jiraIssueEnvelope => "JiraIssueMessageBody"
  | jiraVersion => "JiraVersion"

def ofName? (s : String) : Option RecordType := all.find? (·.name = s)

def gitHubRepoPartFields : List Field :=
  [.plain "id" .uint64, .plain "name" .text, .plain "url" .text]

def gitHubIssuePartFields : List Field :=
  [.plain "id" .uint64, .plain "number" .uint64, .plain "title" .text, .plain "url" .text]

/-- The link of an object to itself has a name of its own in records. -/
def selfLink : Field := .as "_self" "self" .text

def jiraProjectFields : List Field := [selfLink, .plain "id" .text, .plain "key" .text]

def jiraIssueFieldsFields : List Field :=
  [.plain "project" (.record jiraProject.name jiraProjectFields)]

def jiraItemFields : List Field := [.plain "id" .text, .plain "key" .text, .plain "api_url" .text]

def fields : RecordType → List Field
  | gitHubRepo =>
    [.plain "id" .uint64, .plain "full_name" .text, .plain "html_url" .text,
      .plain "description" .optionalText]
  | gitHubIssue =>
    [.plain "id" .uint64, .plain "html_url" .text, .plain "number" .uint64, .plain "title" .text]
  | gitHubRepoPart => gitHubRepoPartFields
  | gitHubIssuePart => gitHubIssuePartFields
  | gitHubRepoEnvelope =>
    [.as "repo" gitHubRepoTag (.record gitHubRepoPart.name gitHubRepoPartFields),
      .plain "external_url" .text]
  | gitHubIssueEnvelope =>
    [.as "issue" gitHubIssueTag (.record gitHubIssuePart.name gitHubIssuePartFields),
      .as "repo" gitHubRepoTag (.record gitHubRepoPart.name gitHubRepoPartFields),
      .plain "external_url" .text]
  | jiraProject => jiraProjectFields
  | jiraIssueFields => jiraIssueFieldsFields
  | jiraIssue =>
    [selfLink, .plain "id" .text, .plain "key" .text,
      .plain "fields" (.record jiraIssueFields.name jiraIssueFieldsFields)]
  | jiraIssueLight => [selfLink, .plain "key" .text]
  | jiraItem => jiraItemFields
  | jiraIssueEnvelope =>
    [.as "jira_issue" jiraIssueTag (.record jiraItem.name jiraItemFields),
      .as "jira_project" jiraProjectTag (.record jiraItem.name jiraItemFields),
      .plain "external_url" .text]
  | jiraVersion =>
    [selfLink, .plain "id" .text, .plain "description" .text, .plain "name" .text,
      .as "project_id" "projectId" .text]

abbrev Row (type : RecordType) : Type := IssueRelay.Row type.fields

/-- The key of the field of that name; a name that is no field's stands for itself. -/
def wireName (type : RecordType) (name : Text) : Text :=
  match type.fields.find? fun f => Text.ofString f.1.internal = name with
  | some f => f.1.wire
  | none => name

end RecordType

structure Record where
  type : RecordType
  row : type.Row

instance : DecidableEq Record := fun a b =>
  if h : a.type = b.type then
    decidable_of_iff (h ▸ a.row = b.row) (by cases a; cases b; cases h; simp)
  else isFalse fun e => h (congrArg Record.type e)

end IssueRelay
