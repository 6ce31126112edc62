import IssueRelay.Proofs.Envelope.RoundTrip
import IssueRelay.Proofs.Envelope.Surrogates
import IssueRelay.Session

/-!
From a provider's payloads to whoever reads the envelope. An announcement decodes payloads and
builds an envelope from the records; the envelope that is read at the other end has what the
payloads have under a few keys, each in its place, and nothing else of them.
-/

set_option autoImplicit false

namespace IssueRelay

namespace Payload

def at? (p : Payload) (keys : List String) : Option Json :=
  (p.load []).outcome.toOption.bind (Json.at? keys)

def decodes (p : Payload) (type : RecordType) : Bool := (Record.decode type p).outcome.isOk

def decodeAs (α : Type) [Recorded α] (p : Payload) : Logged RelayError α :=
  (Recorded.ofRow <$> (Recorded.type α).decode p).mapError .decode

end Payload

/-- Payloads from a provider: a repository's, an issue's with its repository's, or a Jira issue's,
which has its project inside. -/
inductive Announcement
  | gitHubRepo (repo : Payload)
  | gitHubIssue (issue repo : Payload)
  | jiraIssue (issue : Payload)

namespace Announcement

def kind : Announcement → EnvelopeKind
  | gitHubRepo _ => .gitHubRepo
  | gitHubIssue _ _ => .gitHubIssue
  | jiraIssue _ => .jiraIssue

def decodes : Announcement → Bool
  | gitHubRepo repo => repo.decodes .gitHubRepo
  | gitHubIssue issue repo => issue.decodes .gitHubIssue && repo.decodes .gitHubRepo
  | jiraIssue issue => issue.decodes .jiraIssue

def envelope (link : Text) (settings : Option Settings) :
    Announcement → Logged RelayError Envelope
  | gitHubRepo repo => do
    let repo ← repo.decodeAs GitHub.Repo
    Envelope.ofRepo repo link
  | gitHubIssue issue repo => do
    let issue ← issue.decodeAs GitHub.Issue
    let repo ← repo.decodeAs GitHub.Repo
    Envelope.ofIssue issue repo link
  | jiraIssue issue => do
    let issue ← issue.decodeAs Jira.Issue
    (Envelope.ofJiraIssue issue (some link) settings).mapError .link

def carried : Announcement → List (Option Json)
  | gitHubRepo repo => [repo.at? ["id"], repo.at? ["full_name"], repo.at? ["html_url"]]
  | gitHubIssue issue repo =>
    [issue.at? ["id"], issue.at? ["number"], issue.at? ["title"], issue.at? ["html_url"],
      repo.at? ["id"], repo.at? ["full_name"], repo.at? ["html_url"]]
  | jiraIssue issue =>
    [issue.at? ["id"], issue.at? ["key"], issue.at? ["self"],
      issue.at? ["fields", "project", "id"], issue.at? ["fields", "project", "key"],
      issue.at? ["fields", "project", "self"]]

end Announcement

/-- What an envelope says of the things it announces, in the order of `Announcement.carried`. -/
def Envelope.contents : Envelope → List Json
  | gitHubRepo ⟨repo, _⟩ => [.int repo.id.toNat, .str repo.name, .str repo.url]
  | gitHubIssue ⟨issue, repo, _⟩ =>
    [.int issue.id.toNat, .int issue.number.toNat, .str issue.title, .str issue.url,
      .int repo.id.toNat, .str repo.name, .str repo.url]
  | jiraIssue ⟨issue, project, _⟩ =>
    [.str issue.id, .str issue.key, .str issue.apiUrl,
      .str project.id, .str project.key, .str project.apiUrl]

theorem Envelope.eq_of_contents {e e' : Envelope} (hkind : e.kind = e'.kind)
    (hlink : e.link = e'.link) (hcontents : e.contents = e'.contents) : e = e' := by
  cases e with
  | gitHubRepo e =>
    cases e' with
    | gitHubRepo e' =>
      obtain ⟨⟨_, _, _⟩, _⟩ := e
      obtain ⟨⟨_, _, _⟩, _⟩ := e'
      simp only [contents, List.cons.injEq, Json.int_toNat_inj, Json.str.injEq] at hcontents
      obtain ⟨rfl, rfl, rfl, -⟩ := hcontents
      cases hlink
      rfl
    | gitHubIssue _ | jiraIssue _ => contradiction
  | gitHubIssue e =>
    cases e' with
    | gitHubIssue e' =>
      obtain ⟨⟨_, _, _, _⟩, ⟨_, _, _⟩, _⟩ := e
      obtain ⟨⟨_, _, _, _⟩, ⟨_, _, _⟩, _⟩ := e'
      simp only [contents, List.cons.injEq, Json.int_toNat_inj, Json.str.injEq] at hcontents
      obtain ⟨rfl, rfl, rfl, rfl, rfl, rfl, rfl, -⟩ := hcontents
      cases hlink
      rfl
    | gitHubRepo _ | jiraIssue _ => contradiction
  | jiraIssue e =>
    cases e' with
    | jiraIssue e' =>
      obtain ⟨⟨_, _, _⟩, ⟨_, _, _⟩, _⟩ := e
      obtain ⟨⟨_, _, _⟩, ⟨_, _, _⟩, _⟩ := e'
      simp only [contents, List.cons.injEq, Json.str.injEq] at hcontents
      obtain ⟨rfl, rfl, rfl, rfl, rfl, rfl, -⟩ := hcontents
      cases hlink
      rfl
    | gitHubRepo _ | gitHubIssue _ => contradiction

namespace Payload

theorem exists_decodeAs {α : Type} [Recorded α] {p : Payload}
    (h : p.decodes (Recorded.type α) = true) :
    ∃ a : α, (p.decodeAs α).outcome = .ok a ∧ (Record.of a).hasSurrogate = false ∧
      ∃ members, (∀ keys, p.at? keys = Json.at? keys (.obj members)) ∧
        Row.Denotes (Recorded.type α).fields members (Recorded.toRow a) := by
  obtain ⟨r, hr⟩ := Except.exists_of_isOk h
  obtain ⟨row, hrow, -⟩ := Logged.map_eq_ok hr
  obtain ⟨v, hload, hv⟩ := Logged.bind_eq_ok hrow
  obtain ⟨⟨members, hmembers, hdenotes⟩, hclean⟩ :=
    RecordType.ofJson_eq_ok.mp (RecordType.ofJson_of_ofLoaded hv)
  cases hmembers
  refine ⟨Recorded.ofRow row, ?_, ?_, members, fun keys => ?_, ?_⟩
  · rw [decodeAs, Logged.mapError, Logged.outcome_map, hrow]
    rfl
  · rw [Record.of, Recorded.toRow_ofRow]
    exact hclean
  · rw [at?, p.outcome_load [] _, hload]
    rfl
  · rw [Recorded.toRow_ofRow]
    exact hdenotes

end Payload

theorem GitHub.exists_repo {p : Payload} (h : p.decodes .gitHubRepo = true) :
    ∃ r : Repo, (p.decodeAs Repo).outcome = .ok r ∧ (Record.of r).hasSurrogate = false ∧
      p.at? ["id"] = some (.int r.id.toNat) ∧ p.at? ["full_name"] = some (.str r.fullName) ∧
      p.at? ["html_url"] = some (.str r.htmlUrl) := by
  obtain ⟨r, hr, hclean, members, hat, hid, hname, hurl, -⟩ :=
    @Payload.exists_decodeAs Repo _ p h
  exact ⟨r, hr, hclean, (hat _).trans (Json.at?_cons hid []),
    (hat _).trans (Json.at?_cons hname []), (hat _).trans (Json.at?_cons hurl [])⟩

theorem GitHub.exists_issue {p : Payload} (h : p.decodes .gitHubIssue = true) :
    ∃ i : Issue, (p.decodeAs Issue).outcome = .ok i ∧ (Record.of i).hasSurrogate = false ∧
      p.at? ["id"] = some (.int i.id.toNat) ∧ p.at? ["number"] = some (.int i.number.toNat) ∧
      p.at? ["title"] = some (.str i.title) ∧ p.at? ["html_url"] = some (.str i.htmlUrl) := by
  obtain ⟨i, hi, hclean, members, hat, hid, hurl, hnumber, htitle, -⟩ :=
    @Payload.exists_decodeAs Issue _ p h
  exact ⟨i, hi, hclean, (hat _).trans (Json.at?_cons hid []),
    (hat _).trans (Json.at?_cons hnumber []), (hat _).trans (Json.at?_cons htitle []),
    (hat _).trans (Json.at?_cons hurl [])⟩

theorem Jira.exists_issue {p : Payload} (h : p.decodes .jiraIssue = true) :
    ∃ i : Issue, (p.decodeAs Issue).outcome = .ok i ∧ (Record.of i).hasSurrogate = false ∧
      p.at? ["id"] = some (.str i.id) ∧ p.at? ["key"] = some (.str i.key) ∧
      p.at? ["self"] = some (.str i.self) ∧
      p.at? ["fields", "project", "id"] = some (.str i.project.id) ∧
      p.at? ["fields", "project", "key"] = some (.str i.project.key) ∧
      p.at? ["fields", "project", "self"] = some (.str i.project.self) := by
  obtain ⟨i, hi, hclean, members, hat, hself, hid, hkey, ⟨fields, hfields, hproject, -⟩, -⟩ :=
    @Payload.exists_decodeAs Issue _ p h
  obtain ⟨project, hproject, hpself, hpid, hpkey, -⟩ := hproject
  have hinside (key : String) : p.at? ["fields", "project", key] =
      Json.at? [key] (.obj project) := by
    rw [hat, Json.at?_cons hfields, Json.at?_cons hproject]
  exact ⟨i, hi, hclean, (hat _).trans (Json.at?_cons hid []),
    (hat _).trans (Json.at?_cons hkey []), (hat _).trans (Json.at?_cons hself []),
    (hinside _).trans (Json.at?_cons hpid []), (hinside _).trans (Json.at?_cons hpkey []),
    (hinside _).trans (Json.at?_cons hpself [])⟩

namespace Announcement

variable {a : Announcement} {link : Text}

theorem exists_envelope (ha : a.decodes = true) (hlink : link.hasSurrogate = false)
    (settings : Option Settings) :
    ∃ e, (a.envelope link settings).outcome = .ok e ∧ e.kind = a.kind ∧ e.link = link ∧
      a.carried = e.contents.map some ∧ e.record.hasSurrogate = false := by
  cases a with
  | gitHubRepo repo =>
    obtain ⟨r, hr, hclean, hid, hname, hurl⟩ := GitHub.exists_repo ha
    refine ⟨.gitHubRepo ⟨r.part, link⟩, ?_, rfl, rfl, ?_, ?_⟩
    · rw [envelope, Logged.outcome_bind, hr]
      rfl
    · rw [carried, hid, hname, hurl]
      rfl
    · exact Envelope.hasSurrogate_ofRepo hclean hlink
  | gitHubIssue issue repo =>
    obtain ⟨hissue, hrepo⟩ := Bool.and_eq_true_iff.mp ha
    obtain ⟨i, hi, hiclean, hiid, hnumber, htitle, hiurl⟩ := GitHub.exists_issue hissue
    obtain ⟨r, hr, hclean, hid, hname, hurl⟩ := GitHub.exists_repo hrepo
    refine ⟨.gitHubIssue ⟨i.part, r.part, link⟩, ?_, rfl, rfl, ?_, ?_⟩
    · rw [envelope, Logged.outcome_bind, hi]
      change Logged.outcome (repo.decodeAs GitHub.Repo >>= _) = _
      rw [Logged.outcome_bind, hr]
      rfl
    · rw [carried, hiid, hnumber, htitle, hiurl, hid, hname, hurl]
      rfl
    · exact Envelope.hasSurrogate_ofIssue hiclean hclean hlink
  | jiraIssue issue =>
    obtain ⟨i, hi, hclean, hid, hkey, hself, hpid, hpkey, hpself⟩ := Jira.exists_issue ha
    refine ⟨.jiraIssue ⟨i.item, i.project.item, link⟩, ?_, rfl, rfl, ?_, ?_⟩
    · rw [envelope, Logged.outcome_bind, hi]
      rfl
    · rw [carried, hid, hkey, hself, hpid, hpkey, hpself]
      rfl
    · have hproject := Jira.hasSurrogate_projectItem (Jira.hasSurrogate_issueProject hclean)
      exact Envelope.hasSurrogate_ofItems (Jira.hasSurrogate_issueItem hclean) hproject hlink

/-- What is announced arrives: the envelope is written and read back, and has what the payloads
carry. Whatever else is in the payloads does not reach the wire, which is the same for all payloads
that carry the same. -/
theorem arrives (ha : a.decodes = true) (hlink : link.hasSurrogate = false)
    (settings : Option Settings) {s : OutputSettings} (hs : s.indentsBlank = true) :
    ∃ e octets, (a.envelope link settings).outcome = .ok e ∧
      e.record.encode [] s = .ok octets ∧ Envelope.parse (.octets octets) = pure e ∧
      e.kind = a.kind ∧ e.link = link ∧ a.carried = e.contents.map some ∧
      ∀ (a' : Announcement) (settings' : Option Settings), a'.decodes = true →
        a'.kind = a.kind → a'.carried = a.carried →
        ∃ e', (a'.envelope link settings').outcome = .ok e' ∧
          e'.record.encode [] s = .ok octets := by
  obtain ⟨e, he, hkind, helink, hcarried, hclean⟩ := exists_envelope ha hlink settings
  obtain ⟨text, octets, hencode, -, -⟩ := Record.exists_encode hclean hs []
  have hparse := Envelope.parse_of_encode hclean hs hencode
  refine ⟨e, octets, he, hencode, hparse, hkind, helink, hcarried, ?_⟩
  intro a' settings' ha' hkind' hcarried'
  -- the other envelope has the same contents, and so is the same
  obtain ⟨e', he', hekind', helink', hecarried', -⟩ := exists_envelope ha' hlink settings'
  have hcontents : e'.contents = e.contents := by
    have hsome : e'.contents.map some = e.contents.map some := by
      rw [← hecarried', hcarried', hcarried]
    exact (List.map_inj_right fun _ _ => Option.some.inj).mp hsome
  have hsame : e' = e :=
    Envelope.eq_of_contents (hekind'.trans (hkind'.trans hkind.symm)) (helink'.trans helink.symm)
      hcontents
  exact ⟨e', he', hsame ▸ hencode⟩

theorem arrives_issue :
    let a := gitHubIssue
      (.text <| "\x7b\"html_url\":\"https://h/a/b/issues/2\",\"id\":18446744073709551615," ++
        "\"number\":2,\"title\":\"\\ud83d\\ude00\",\"user\":\x7b\"id\":3\x7d\x7d")
      (.text <| "\x7b\"id\":1,\"description\":null,\"full_name\":\"a\\/b\"," ++
        "\"html_url\":\"https://h/a/b\"\x7d")
    a.decodes = true ∧
    ∃ e octets, (a.envelope "https://h/2" none).outcome = .ok e ∧
      e.record.encode [] ⟨.int 1, .null, .str "\t"⟩ = .ok octets ∧
      Envelope.parse (.octets octets) = pure e ∧
      e.kind = a.kind ∧ e.link = "https://h/2" ∧ a.carried = e.contents.map some ∧
      ∀ (a' : Announcement) (settings' : Option Settings), a'.decodes = true →
        a'.kind = a.kind → a'.carried = a.carried →
        ∃ e', (a'.envelope "https://h/2" settings').outcome = .ok e' ∧
          e'.record.encode [] ⟨.int 1, .null, .str "\t"⟩ = .ok octets := by
  intro a
  have ha : a.decodes = true := by decide +kernel
  exact ⟨ha, arrives ha (by decide) none (by decide)⟩

/-- Nothing is announced with a count of spaces past the machine word; and what is indented with a
line tabulation does not arrive. -/
theorem not_arrives_of_any_indent :
    (¬∀ (a : Announcement) (link : Text) (n : Int), a.decodes = true → link.hasSurrogate = false →
      ∃ e octets, (a.envelope link none).outcome = .ok e ∧
        e.record.encode [] ⟨.bool false, .bool false, .int n⟩ = .ok octets) ∧
    ¬∀ (a : Announcement) (link : Text), a.decodes = true → link.hasSurrogate = false →
      ∃ e octets, (a.envelope link none).outcome = .ok e ∧
        e.record.encode [] ⟨.bool false, .bool false, .str "\x0b"⟩ = .ok octets ∧
        Envelope.parse (.octets octets) = pure e := by
  generalize ha : gitHubRepo (.text "\x7b\"id\":0,\"full_name\":\"\",\"html_url\":\"\"\x7d") = a
  have hdecodes : a.decodes = true := by
    subst ha
    decide +kernel
  constructor
  · intro h
    obtain ⟨e, octets, -, hencode⟩ := h a [] (-0x8000000000000001) hdecodes rfl
    contradiction
  · intro h
    obtain ⟨e, octets, he, hencode, hparse⟩ := h a [] hdecodes rfl
    generalize hs : (⟨.bool false, .bool false, .str "\x0b"⟩ : OutputSettings) = s at hencode
    have hrefused : (match (a.envelope [] none).outcome with
        | .ok e =>
          match e.record.encode [] s with
          | .ok octets => (Envelope.parse (.octets octets)).outcome.isOk
          | .error _ => true
        | .error _ => true) = false := by
      subst ha hs
      decide +kernel
    simp only [he, hencode, hparse] at hrefused
    contradiction

end Announcement

end IssueRelay
