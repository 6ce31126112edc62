import IssueRelay.Proofs.Envelope.RoundTrip
import IssueRelay.Proofs.Envelope.Surrogates

/-!
What can be obtained can be sent. Records come from payloads and JSON values, from other records'
parts, and from the builders of items and envelopes. None of these lets a surrogate through unless
it is given one in a link, so that whatever a run of them obtains is written and read back.
-/

set_option autoImplicit false

namespace IssueRelay

/-- An operation. The records that it works on are named by their places among those obtained so
far. -/
inductive Operation
  | decode (type : RecordType) (payload : Payload)
  | ofJson (type : RecordType) (path : Text) (v : Json)
  | parse (payload : Payload)
  | part (whole i : Nat)
  | issueItem (issue : Nat)
  | projectItem (project : Nat)
  | repoEnvelope (repo : Nat) (link : Text)
  | gitHubIssueEnvelope (issue repo : Nat) (link : Text)
  | itemsEnvelope (issue project : Nat) (link : Text)
  | jiraIssueEnvelope (issue : Nat) (link : Option Text) (settings : Option Settings)

namespace Operation

/-- Whether there are surrogates in a link that an operation is given, or in the site of its
settings. -/
def hasSurrogate : Operation → Bool
  | .repoEnvelope _ link | .gitHubIssueEnvelope _ _ link | .itemsEnvelope _ _ link =>
    link.hasSurrogate
  | .jiraIssueEnvelope _ link settings =>
    link.any Text.hasSurrogate || settings.any (·.link.hasSurrogate)
  | .decode .. | .ofJson .. | .parse _ | .part .. | .issueItem _ | .projectItem _ => false

/-- The record at a place, if it has the structure's type. An operation applies to records of its
own type only: nothing checks that when it is called, and what it does on others is left out. -/
def recordAt? (α : Type) [Recorded α] (obtained : List Record) (place : Nat) : Option α :=
  obtained[place]?.bind (Record.as? α)

def record? (obtained : List Record) : Operation → Option Record
  | .decode type payload => (Record.decode type payload).outcome.toOption
  | .ofJson type path v => (type.ofJson path v).toOption.map (Record.mk type)
  | .parse payload => (Envelope.parse payload).outcome.toOption.map Envelope.record
  | .part whole i => obtained[whole]?.bind (·.parts[i]?)
  | .issueItem issue => (recordAt? Jira.Issue obtained issue).map fun issue => .of issue.item
  | .projectItem project =>
    (recordAt? Jira.Project obtained project).map fun project => .of project.item
  | .repoEnvelope repo link => do
    let repo ← recordAt? GitHub.Repo obtained repo
    (Envelope.ofRepo repo link : Logged LinkError _).outcome.toOption.map Envelope.record
  | .gitHubIssueEnvelope issue repo link => do
    let issue ← recordAt? GitHub.Issue obtained issue
    let repo ← recordAt? GitHub.Repo obtained repo
    (Envelope.ofIssue issue repo link : Logged LinkError _).outcome.toOption.map Envelope.record
  | .itemsEnvelope issue project link => do
    let issue ← recordAt? Jira.Item obtained issue
    let project ← recordAt? Jira.Item obtained project
    (Envelope.ofItems issue project link : Logged LinkError _).outcome.toOption.map Envelope.record
  | .jiraIssueEnvelope issue link settings => do
    let issue ← recordAt? Jira.Issue obtained issue
    (Envelope.ofJiraIssue issue link settings).outcome.toOption.map Envelope.record

def next (obtained : List Record) (op : Operation) : List Record :=
  obtained ++ (op.record? obtained).toList

def run (ops : List Operation) : List Record := ops.foldl next []

theorem subset_foldl (ops : List Operation) (obtained : List Record) :
    obtained ⊆ ops.foldl next obtained := by
  induction ops generalizing obtained with
  | nil => exact List.Subset.refl _
  | cons op ops ih => exact List.Subset.trans (List.subset_append_left obtained _) (ih _)

theorem hasSurrogate_recordAt? {α : Type} [Recorded α] {obtained : List Record}
    (h : ∀ r ∈ obtained, r.hasSurrogate = false) {place : Nat} {a : α}
    (ha : recordAt? α obtained place = some a) : (Record.of a).hasSurrogate = false := by
  obtain ⟨r, hr, ha⟩ := Option.bind_eq_some_iff.mp ha
  rw [Record.of_as? ha]
  exact h r (List.mem_of_getElem? hr)

/-- An operation on records without surrogates makes one without surrogates. -/
theorem hasSurrogate_record? {obtained : List Record} {op : Operation} {r : Record}
    (h : ∀ r ∈ obtained, r.hasSurrogate = false) (hop : op.hasSurrogate = false)
    (hr : op.record? obtained = some r) : r.hasSurrogate = false := by
  cases op with
  | decode type payload => exact Record.hasSurrogate_decode (toOption_eq_some hr)
  | ofJson type path v =>
    obtain ⟨row, hrow, rfl⟩ := Option.map_eq_some_iff.mp hr
    exact RecordType.hasSurrogate_of_ofJson (toOption_eq_some hrow)
  | parse payload =>
    obtain ⟨e, he, rfl⟩ := Option.map_eq_some_iff.mp hr
    exact Envelope.hasSurrogate_parse (toOption_eq_some he)
  | part whole i =>
    obtain ⟨whole, hwhole, hpart⟩ := Option.bind_eq_some_iff.mp hr
    have hclean := h whole (List.mem_of_getElem? hwhole)
    exact Row.hasSurrogate_parts whole.type.fields whole.row hclean r (List.mem_of_getElem? hpart)
  | issueItem issue =>
    obtain ⟨issue, hissue, rfl⟩ := Option.map_eq_some_iff.mp hr
    exact Jira.hasSurrogate_issueItem (hasSurrogate_recordAt? h hissue)
  | projectItem project =>
    obtain ⟨project, hproject, rfl⟩ := Option.map_eq_some_iff.mp hr
    exact Jira.hasSurrogate_projectItem (hasSurrogate_recordAt? h hproject)
  | repoEnvelope repo link =>
    obtain ⟨repo, hrepo, hr⟩ := Option.bind_eq_some_iff.mp hr
    cases hr
    exact Envelope.hasSurrogate_ofRepo (hasSurrogate_recordAt? h hrepo) hop
  | gitHubIssueEnvelope issue repo link =>
    obtain ⟨issue, hissue, hr⟩ := Option.bind_eq_some_iff.mp hr
    obtain ⟨repo, hrepo, hr⟩ := Option.bind_eq_some_iff.mp hr
    cases hr
    have hissue := hasSurrogate_recordAt? h hissue
    have hrepo := hasSurrogate_recordAt? h hrepo
    exact Envelope.hasSurrogate_ofIssue hissue hrepo hop
  | itemsEnvelope issue project link =>
    obtain ⟨issue, hissue, hr⟩ := Option.bind_eq_some_iff.mp hr
    obtain ⟨project, hproject, hr⟩ := Option.bind_eq_some_iff.mp hr
    cases hr
    have hissue := hasSurrogate_recordAt? h hissue
    have hproject := hasSurrogate_recordAt? h hproject
    exact Envelope.hasSurrogate_ofItems hissue hproject hop
  | jiraIssueEnvelope issue link settings =>
    obtain ⟨issue, hissue, hr⟩ := Option.bind_eq_some_iff.mp hr
    obtain ⟨e, he, rfl⟩ := Option.map_eq_some_iff.mp hr
    obtain ⟨hlink, hsettings⟩ := Bool.or_eq_false_iff.mp hop
    have hissue := hasSurrogate_recordAt? h hissue
    exact Envelope.hasSurrogate_ofJiraIssue hissue hlink hsettings (toOption_eq_some he)

theorem hasSurrogate_next {obtained : List Record} {op : Operation}
    (h : ∀ r ∈ obtained, r.hasSurrogate = false) (hop : op.hasSurrogate = false) :
    ∀ r ∈ next obtained op, r.hasSurrogate = false := by
  intro r hr
  obtain hr | hr := List.mem_append.mp hr
  · exact h r hr
  · exact hasSurrogate_record? h hop (Option.mem_toList.mp hr)

theorem hasSurrogate_foldl {ops : List Operation} {obtained : List Record}
    (h : ∀ r ∈ obtained, r.hasSurrogate = false) (hops : ∀ op ∈ ops, op.hasSurrogate = false) :
    ∀ r ∈ ops.foldl next obtained, r.hasSurrogate = false := by
  induction ops generalizing obtained with
  | nil => exact h
  | cons op ops ih =>
    obtain ⟨hop, hops⟩ := List.forall_mem_cons.mp hops
    exact ih (hasSurrogate_next h hop) hops

/-- Every record that a run obtains is free of surrogates, is written whatever is left out of it,
and comes back when it is decoded as what it is. -/
theorem run_sendable {ops : List Operation} (hops : ∀ op ∈ ops, op.hasSurrogate = false)
    {s : OutputSettings} (hs : s.indentsBlank = true) :
    ∀ r ∈ run ops, r.hasSurrogate = false ∧
      (∀ excluded, ∃ octets, r.encode excluded s = .ok octets) ∧
      ∃ octets, r.encode [] s = .ok octets ∧ Record.decode r.type (.octets octets) = pure r := by
  intro r hr
  have hclean : r.hasSurrogate = false := hasSurrogate_foldl (by simp) hops r hr
  have hwritten (excluded : List String) : ∃ octets, r.encode excluded s = .ok octets := by
    obtain ⟨text, octets, hencode, -, -⟩ := Record.exists_encode hclean hs excluded
    exact ⟨octets, hencode⟩
  obtain ⟨octets, hencode⟩ := hwritten []
  exact ⟨hclean, hwritten, octets, hencode, Record.decode_of_encode hclean hs hencode⟩

theorem run_sendable_project :
    let ops := [ofJson .jiraProject [] (.obj [("self", .str "https://a/rest/1"), ("id", .str "7"),
      ("key", .str "K")]), projectItem 0, itemsEnvelope 1 1 "https://a/browse/K", part 2 0]
    (run ops).length = 4 ∧
    ∀ r ∈ run ops, r.hasSurrogate = false ∧
      (∀ excluded, ∃ octets, r.encode excluded ⟨.null, .null, .bool true⟩ = .ok octets) ∧
      ∃ octets, r.encode [] ⟨.null, .null, .bool true⟩ = .ok octets ∧
        Record.decode r.type (.octets octets) = pure r :=
  ⟨rfl, run_sendable (by decide) (by decide)⟩

/-- A record that was obtained is not written with a count of spaces past the machine word; and with
a line tabulation for an indent it does not come back. -/
theorem not_run_sendable_of_any_indent :
    let ops := [ofJson .jiraIssueLight [] (.obj [("self", .str []), ("key", .str [])])]
    (¬ ∀ r ∈ run ops, ∀ n : Int,
      ∃ octets, r.encode [] ⟨.bool false, .bool false, .int n⟩ = .ok octets) ∧
    ¬ ∀ r ∈ run ops, ∀ octets,
      r.encode [] ⟨.bool false, .bool false, .str "\x0b"⟩ = .ok octets →
        Record.decode r.type (.octets octets) = pure r := by
  intro ops
  have hrun : run ops = [⟨.jiraIssueLight, ([], [], ())⟩] := rfl
  constructor
  · intro h
    obtain ⟨octets, hencode⟩ := h _ (hrun ▸ List.mem_singleton_self _) (-0x8000000000000001)
    contradiction
  · intro h
    have hback := h _ (hrun ▸ List.mem_singleton_self _) _ rfl
    have houtcome := congrArg Logged.outcome hback
    contradiction

end Operation

end IssueRelay
