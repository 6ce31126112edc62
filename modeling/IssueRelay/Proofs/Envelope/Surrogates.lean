import IssueRelay.Proofs.Envelope.Reading
import IssueRelay.Proofs.Link.Browse
import IssueRelay.Proofs.Record.Reading

set_option autoImplicit false

namespace IssueRelay

def Kind.record? (kind : Kind) (v : kind.Value) : Option Record :=
  RecordType.all.findSome? fun type =>
    if h : type.kind = kind then some ⟨type, (h ▸ v : type.kind.Value)⟩ else none

def Row.parts : (fields : List (FieldName × Kind)) → Row fields → List Record
  | [], _ => []
  | (_, kind) :: rest, (v, r) => (kind.record? v).toList ++ Row.parts rest r

/-- The records that are fields of a record. -/
def Record.parts (r : Record) : List Record := Row.parts r.type.fields r.row

theorem Kind.of_record? {kind : Kind} {v : kind.Value} {r : Record} (h : kind.record? v = some r) :
    r.type.kind = kind ∧ r.hasSurrogate = kind.hasSurrogate v := by
  obtain ⟨type, -, hr⟩ := List.exists_of_findSome?_eq_some h
  split at hr
  · rename_i hkind
    cases hkind
    cases hr
    exact ⟨rfl, rfl⟩
  · contradiction

def Kind.isRecord : Kind → Bool
  | .record .. => true
  | .uint64 | .text | .optionalText => false

theorem RecordType.kind_mem_of_isRecord (type : RecordType) :
    ∀ f ∈ type.fields, f.2.isRecord = true → f.2 ∈ all.map kind := by
  cases type <;> decide

theorem Kind.map_kind_record? {kind : Kind} (v : kind.Value)
    (hk : kind.isRecord = true → kind ∈ RecordType.all.map RecordType.kind) :
    (kind.record? v).toList.map (·.type.kind) = [kind].filter isRecord := by
  cases hrec : kind.record? v with
  | some r =>
    obtain rfl := (of_record? hrec).1
    rfl
  | none =>
    have hnot : ¬kind.isRecord = true := by
      intro hkind
      obtain ⟨type, htype, rfl⟩ := List.mem_map.mp (hk hkind)
      have hnone := List.findSome?_eq_none_iff.mp hrec type htype
      rw [dif_pos rfl] at hnone
      contradiction
    rw [List.filter_cons_of_neg hnot]
    rfl

theorem Row.map_kind_parts : (fields : List (FieldName × Kind)) → (r : Row fields) →
    (∀ f ∈ fields, f.2.isRecord = true → f.2 ∈ RecordType.all.map RecordType.kind) →
    (parts fields r).map (·.type.kind) = (fields.map (·.2)).filter Kind.isRecord
  | [], _, _ => rfl
  | (_, kind) :: rest, (v, r), h => by
    obtain ⟨hkind, hrest⟩ := List.forall_mem_cons.mp h
    rw [parts, List.map_append, Kind.map_kind_record? v hkind, map_kind_parts rest r hrest,
      ← List.filter_append]
    rfl

/-- A record has a part for every field that holds a record. -/
theorem Record.map_kind_parts (r : Record) :
    r.parts.map (·.type.kind) = (r.type.fields.map (·.2)).filter Kind.isRecord :=
  Row.map_kind_parts r.type.fields r.row r.type.kind_mem_of_isRecord

theorem Record.hasSurrogate_decode {type : RecordType} {p : Payload} {r : Record}
    (h : (decode type p).outcome = .ok r) : r.hasSurrogate = false := by
  obtain ⟨v, row, hrow, rfl⟩ := ofJson_of_decode h
  exact RecordType.hasSurrogate_of_ofJson hrow

theorem Envelope.hasSurrogate_parse {p : Payload} {e : Envelope}
    (h : (parse p).outcome = .ok e) : e.record.hasSurrogate = false := by
  obtain ⟨v, kind, r, -, hr, rfl⟩ := ofJson_of_parse h
  rw [record_ofRow]
  exact RecordType.hasSurrogate_of_ofJson hr

theorem Row.hasSurrogate_parts : (fields : List (FieldName × Kind)) → (r : Row fields) →
    Row.hasSurrogate fields r = false → ∀ part ∈ parts fields r, part.hasSurrogate = false
  | [], _, _, part, hp => by cases hp
  | (_, kind) :: rest, (v, r), h, part, hp => by
    obtain ⟨hv, hr⟩ := Bool.or_eq_false_iff.mp h
    obtain hp | hp := List.mem_append.mp hp
    · obtain ⟨-, hpart⟩ := Kind.of_record? (Option.mem_toList.mp hp)
      exact hpart.trans hv
    · exact hasSurrogate_parts rest r hr part hp

theorem Record.of_as? {α : Type} [Recorded α] {r : Record} {a : α} (h : r.as? α = some a) :
    Record.of a = r := by
  obtain ⟨type, row⟩ := r
  unfold as? at h
  split at h
  · rename_i htype
    cases htype
    cases h
    rw [Record.of, Recorded.toRow_ofRow]
    rfl
  · contradiction

theorem GitHub.hasSurrogate_repo (r : Repo) : (Record.of r).hasSurrogate =
    (r.fullName.hasSurrogate || (r.htmlUrl.hasSurrogate ||
      (r.description.any Text.hasSurrogate || false))) := rfl

theorem GitHub.hasSurrogate_issue (i : Issue) : (Record.of i).hasSurrogate =
    [i.htmlUrl, i.title].any Text.hasSurrogate := rfl

theorem Jira.hasSurrogate_project (p : Project) : (Record.of p).hasSurrogate =
    [p.self, p.id, p.key].any Text.hasSurrogate := rfl

theorem Jira.hasSurrogate_item (i : Item) : (Record.of i).hasSurrogate =
    [i.id, i.key, i.apiUrl].any Text.hasSurrogate := rfl

theorem Jira.hasSurrogate_issue (i : Issue) : (Record.of i).hasSurrogate =
    (i.self.hasSurrogate || (i.id.hasSurrogate || (i.key.hasSurrogate ||
      (((Record.of i.project).hasSurrogate || false) || false)))) := rfl

theorem Envelope.hasSurrogate_gitHubRepo (repo : GitHub.RepoPart) (link : Text) :
    (gitHubRepo ⟨repo, link⟩).record.hasSurrogate =
      ((Record.of repo).hasSurrogate || (link.hasSurrogate || false)) := rfl

theorem Envelope.hasSurrogate_gitHubIssue (issue : GitHub.IssuePart) (repo : GitHub.RepoPart)
    (link : Text) : (gitHubIssue ⟨issue, repo, link⟩).record.hasSurrogate =
      ((Record.of issue).hasSurrogate || ((Record.of repo).hasSurrogate ||
        (link.hasSurrogate || false))) := rfl

theorem Envelope.hasSurrogate_jiraIssue (issue project : Jira.Item) (link : Text) :
    (jiraIssue ⟨issue, project, link⟩).record.hasSurrogate =
      ((Record.of issue).hasSurrogate || ((Record.of project).hasSurrogate ||
        (link.hasSurrogate || false))) := rfl

theorem GitHub.hasSurrogate_repoPart {r : Repo} (h : (Record.of r).hasSurrogate = false) :
    (Record.of r.part).hasSurrogate = false := by
  have hpart : (Record.of r.part).hasSurrogate =
    [r.fullName, r.htmlUrl].any Text.hasSurrogate := rfl
  simp_all [hasSurrogate_repo]

theorem GitHub.hasSurrogate_issuePart {i : Issue} (h : (Record.of i).hasSurrogate = false) :
    (Record.of i.part).hasSurrogate = false := by
  have hpart : (Record.of i.part).hasSurrogate =
    [i.title, i.htmlUrl].any Text.hasSurrogate := rfl
  simp_all [hasSurrogate_issue]

theorem Jira.hasSurrogate_projectItem {p : Project} (h : (Record.of p).hasSurrogate = false) :
    (Record.of p.item).hasSurrogate = false := by
  simp_all [hasSurrogate_project, hasSurrogate_item, Project.item]

theorem Jira.hasSurrogate_issueProject {i : Issue} (h : (Record.of i).hasSurrogate = false) :
    (Record.of i.project).hasSurrogate = false := by
  simp_all [hasSurrogate_issue]

theorem Jira.hasSurrogate_issueItem {i : Issue} (h : (Record.of i).hasSurrogate = false) :
    (Record.of i.item).hasSurrogate = false := by
  simp_all [hasSurrogate_issue, hasSurrogate_item, Issue.item]

namespace Envelope

variable {link : Text}

theorem hasSurrogate_ofRepo {repo : GitHub.Repo} (hr : (Record.of repo).hasSurrogate = false)
    (hl : link.hasSurrogate = false) :
    (gitHubRepo ⟨repo.part, link⟩).record.hasSurrogate = false := by
  rw [hasSurrogate_gitHubRepo, GitHub.hasSurrogate_repoPart hr, hl]
  rfl

theorem hasSurrogate_ofIssue {issue : GitHub.Issue} {repo : GitHub.Repo}
    (hi : (Record.of issue).hasSurrogate = false) (hr : (Record.of repo).hasSurrogate = false)
    (hl : link.hasSurrogate = false) :
    (gitHubIssue ⟨issue.part, repo.part, link⟩).record.hasSurrogate = false := by
  rw [hasSurrogate_gitHubIssue, GitHub.hasSurrogate_issuePart hi,
    GitHub.hasSurrogate_repoPart hr, hl]
  rfl

theorem hasSurrogate_ofItems {issue project : Jira.Item}
    (hi : (Record.of issue).hasSurrogate = false) (hp : (Record.of project).hasSurrogate = false)
    (hl : link.hasSurrogate = false) :
    (jiraIssue ⟨issue, project, link⟩).record.hasSurrogate = false := by
  rw [hasSurrogate_jiraIssue, hi, hp, hl]
  rfl

theorem hasSurrogate_ofJiraIssue {issue : Jira.Issue} {link : Option Text}
    {settings : Option Settings} {e : Envelope} (hi : (Record.of issue).hasSurrogate = false)
    (hl : link.any Text.hasSurrogate = false)
    (hs : settings.any (·.link.hasSurrogate) = false)
    (h : (ofJiraIssue issue link settings).outcome = .ok e) : e.record.hasSurrogate = false := by
  obtain ⟨found, hfound, he⟩ := Logged.bind_eq_ok h
  obtain rfl : jiraIssue ⟨issue.item, issue.project.item, found⟩ = e := Except.ok.inj he
  have hparts := hi
  simp only [Jira.hasSurrogate_issue, Bool.or_eq_false_iff] at hparts
  obtain ⟨hself, -, hkey, -⟩ := hparts
  have hclean : found.hasSurrogate = false := by
    cases link with
    | some link =>
      cases hfound
      exact hl
    | none => exact Link.hasSurrogate_browse hself hkey hs hfound
  have hproject := Jira.hasSurrogate_projectItem (Jira.hasSurrogate_issueProject hi)
  exact hasSurrogate_ofItems (Jira.hasSurrogate_issueItem hi) hproject hclean

end Envelope

end IssueRelay
