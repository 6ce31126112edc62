import IssueRelay.Envelope.Basic
import IssueRelay.Proofs.Payload.Basic

set_option autoImplicit false

namespace IssueRelay

theorem EnvelopeKind.ofJson_of_tags {members : List (Text × Json)} {kind : EnvelopeKind}
    (h : tagsPresent members = kind.tags) : ofJson (.obj members) = .ok kind := by
  rw [ofJson, h]
  cases kind with
  | gitHubRepo => rfl
  | gitHubIssue => rfl
  | jiraIssue => rfl

namespace Envelope

def row : (e : Envelope) → e.kind.recordType.Row
  | gitHubRepo e => Recorded.toRow e
  | gitHubIssue e => Recorded.toRow e
  | jiraIssue e => Recorded.toRow e

theorem record_eq (e : Envelope) : e.record = ⟨e.kind.recordType, e.row⟩ := by cases e <;> rfl

theorem ofRow_row (e : Envelope) : ofRow e.kind e.row = e := by cases e <;> rfl

theorem kind_ofRow (kind : EnvelopeKind) (r : kind.recordType.Row) : (ofRow kind r).kind = kind := by
  cases kind <;> rfl

theorem record_ofRow (kind : EnvelopeKind) (r : kind.recordType.Row) :
    (ofRow kind r).record = ⟨kind.recordType, r⟩ := by cases kind <;> rfl

theorem parse_of_ofJson {p : Payload} {v : Json} {kind : EnvelopeKind}
    {r : kind.recordType.Row} (h : p.load "envelope" = pure v)
    (hkind : EnvelopeKind.ofJson v = .ok kind) (hr : kind.recordType.ofJson [] v = .ok r) :
    parse p = pure (ofRow kind r) := by
  have hrow := RecordType.ofLoaded_of_ofJson hr .envelopes
  simp only [parse, h, Logged.pure_bind, hkind, hrow]

theorem ofJson_of_parse {p : Payload} {e : Envelope} (h : (parse p).outcome = .ok e) :
    ∃ v kind r, EnvelopeKind.ofJson v = .ok kind ∧ kind.recordType.ofJson [] v = .ok r ∧
      e = ofRow kind r := by
  obtain ⟨v, -, hv⟩ := Logged.bind_eq_ok h
  cases hkind : EnvelopeKind.ofJson v with
  | error e =>
    simp only [hkind] at hv
    contradiction
  | ok kind =>
    simp only [hkind] at hv
    obtain ⟨r, hr, he⟩ := Logged.bind_eq_ok hv
    exact ⟨v, kind, r, hkind, RecordType.ofJson_of_ofLoaded hr, (Except.ok.inj he).symm⟩

end Envelope

end IssueRelay
