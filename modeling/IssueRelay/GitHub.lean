import IssueRelay.Record.Typed

set_option autoImplicit false

namespace IssueRelay.GitHub

structure Repo where
  id : UInt64
  fullName : Text
  htmlUrl : Text
  description : Option Text

instance : Recorded Repo where
  type := .gitHubRepo
  toRow r := (r.id, r.fullName, r.htmlUrl, r.description, ())
  ofRow | (id, fullName, htmlUrl, description, ()) => ⟨id, fullName, htmlUrl, description⟩
  ofRow_toRow _ := rfl
  toRow_ofRow _ := rfl

structure Issue where
  id : UInt64
  htmlUrl : Text
  number : UInt64
  title : Text

instance : Recorded Issue where
  type := .gitHubIssue
  toRow i := (i.id, i.htmlUrl, i.number, i.title, ())
  ofRow | (id, htmlUrl, number, title, ()) => ⟨id, htmlUrl, number, title⟩
  ofRow_toRow _ := rfl
  toRow_ofRow _ := rfl

structure RepoPart where
  id : UInt64
  name : Text
  url : Text

instance : Recorded RepoPart where
  type := .gitHubRepoPart
  toRow p := (p.id, p.name, p.url, ())
  ofRow | (id, name, url, ()) => ⟨id, name, url⟩
  ofRow_toRow _ := rfl
  toRow_ofRow _ := rfl

structure IssuePart where
  id : UInt64
  number : UInt64
  title : Text
  url : Text

instance : Recorded IssuePart where
  type := .gitHubIssuePart
  toRow p := (p.id, p.number, p.title, p.url, ())
  ofRow | (id, number, title, url, ()) => ⟨id, number, title, url⟩
  ofRow_toRow _ := rfl
  toRow_ofRow _ := rfl

structure RepoEnvelope where
  repo : RepoPart
  externalUrl : Text

instance : Recorded RepoEnvelope where
  type := .gitHubRepoEnvelope
  toRow e := (Recorded.toRow e.repo, e.externalUrl, ())
  ofRow | (repo, externalUrl, ()) => ⟨Recorded.ofRow repo, externalUrl⟩
  ofRow_toRow _ := rfl
  toRow_ofRow _ := rfl

structure IssueEnvelope where
  issue : IssuePart
  repo : RepoPart
  externalUrl : Text

instance : Recorded IssueEnvelope where
  type := .gitHubIssueEnvelope
  toRow e := (Recorded.toRow e.issue, Recorded.toRow e.repo, e.externalUrl, ())
  ofRow
    | (issue, repo, externalUrl, ()) => ⟨Recorded.ofRow issue, Recorded.ofRow repo, externalUrl⟩
  ofRow_toRow _ := rfl
  toRow_ofRow _ := rfl

/-- A repository is named in full, and its link is the page that people read. -/
def Repo.part (r : Repo) : RepoPart := ⟨r.id, r.fullName, r.htmlUrl⟩

def Issue.part (i : Issue) : IssuePart := ⟨i.id, i.number, i.title, i.htmlUrl⟩

end IssueRelay.GitHub
