import IssueRelay.Record.Typed

set_option autoImplicit false

namespace IssueRelay.Jira

structure Project where
  self : Text
  id : Text
  key : Text

instance : Recorded Project where
  type := .jiraProject
  toRow p := (p.self, p.id, p.key, ())
  ofRow | (self, id, key, ()) => ⟨self, id, key⟩
  ofRow_toRow _ := rfl
  toRow_ofRow _ := rfl

structure IssueFields where
  project : Project

instance : Recorded IssueFields where
  type := .jiraIssueFields
  toRow f := (Recorded.toRow f.project, ())
  ofRow | (project, ()) => ⟨Recorded.ofRow project⟩
  ofRow_toRow _ := rfl
  toRow_ofRow _ := rfl

structure Issue where
  self : Text
  id : Text
  key : Text
  fields : IssueFields

instance : Recorded Issue where
  type := .jiraIssue
  toRow i := (i.self, i.id, i.key, Recorded.toRow i.fields, ())
  ofRow | (self, id, key, fields, ()) => ⟨self, id, key, Recorded.ofRow fields⟩
  ofRow_toRow _ := rfl
  toRow_ofRow _ := rfl

structure IssueLight where
  self : Text
  key : Text

instance : Recorded IssueLight where
  type := .jiraIssueLight
  toRow i := (i.self, i.key, ())
  ofRow | (self, key, ()) => ⟨self, key⟩
  ofRow_toRow _ := rfl
  toRow_ofRow _ := rfl

/-- An issue or a project inside an envelope. -/
structure Item where
  id : Text
  key : Text
  apiUrl : Text

instance : Recorded Item where
  type := .jiraItem
  toRow i := (i.id, i.key, i.apiUrl, ())
  ofRow | (id, key, apiUrl, ()) => ⟨id, key, apiUrl⟩
  ofRow_toRow _ := rfl
  toRow_ofRow _ := rfl

structure IssueEnvelope where
  issue : Item
  project : Item
  externalUrl : Text

instance : Recorded IssueEnvelope where
  type := .jiraIssueEnvelope
  toRow e := (Recorded.toRow e.issue, Recorded.toRow e.project, e.externalUrl, ())
  ofRow
    | (issue, project, externalUrl, ()) =>
      ⟨Recorded.ofRow issue, Recorded.ofRow project, externalUrl⟩
  ofRow_toRow _ := rfl
  toRow_ofRow _ := rfl

structure Version where
  self : Text
  id : Text
  description : Text
  name : Text
  projectId : Text

instance : Recorded Version where
  type := .jiraVersion
  toRow v := (v.self, v.id, v.description, v.name, v.projectId, ())
  ofRow | (self, id, description, name, projectId, ()) => ⟨self, id, description, name, projectId⟩
  ofRow_toRow _ := rfl
  toRow_ofRow _ := rfl

def Issue.project (i : Issue) : Project := i.fields.project

def Issue.item (i : Issue) : Item := ⟨i.id, i.key, i.self⟩

def Project.item (p : Project) : Item := ⟨p.id, p.key, p.self⟩

end IssueRelay.Jira
