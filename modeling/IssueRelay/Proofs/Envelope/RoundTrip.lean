import IssueRelay.Proofs.Envelope.Reading
import IssueRelay.Proofs.Record.RoundTrip

/-!
Envelopes survive the wire without a word of their kind. The tags among the keys of what is written
are those of the envelope's kind, in whatever order the keys stand, so that the reader finds the
kind again and with it the record.
-/

set_option autoImplicit false

namespace IssueRelay

namespace EnvelopeKind

theorem tagsPresent_membersOf (entries : List (String × Wire)) :
    tagsPresent (Wire.membersOf entries) =
      allTags.filter fun tag => decide (tag ∈ entries.map (·.1)) := by
  unfold tagsPresent
  congr 1
  funext tag
  by_cases h : tag ∈ entries.map (·.1)
  · cases hget : Json.get? (Wire.membersOf entries) tag with
    | none => exact absurd h (Wire.get?_membersOf_eq_none.mp hget)
    | some v => simp [h]
  · rw [Wire.get?_membersOf_eq_none.mpr h]
    simp [h]

theorem tagsPresent_sortedEntries (entries : List (String × Wire)) :
    tagsPresent (Wire.membersOf (Wire.sortedEntries entries)) =
      tagsPresent (Wire.membersOf entries) := by
  rw [tagsPresent_membersOf, tagsPresent_membersOf]
  congr 1
  funext tag
  exact decide_eq_decide.mpr (Wire.keys_sortedEntries entries).mem_iff

end EnvelopeKind

namespace Envelope

def entries (e : Envelope) : List (String × Wire) :=
  Row.entries [] e.record.type.fields e.record.row

theorem tagsPresent_entries (e : Envelope) :
    EnvelopeKind.tagsPresent (Wire.membersOf e.entries) = e.kind.tags := by
  rw [EnvelopeKind.tagsPresent_membersOf]
  cases e with
  | gitHubRepo e => rfl
  | gitHubIssue e => rfl
  | jiraIssue e => rfl

theorem ofJson_toWire (e : Envelope) (sortKeys : Bool) :
    EnvelopeKind.ofJson ((e.record.toWire []).arranged sortKeys).toJson = .ok e.kind := by
  have htags := e.tagsPresent_entries
  cases sortKeys with
  | false => exact EnvelopeKind.ofJson_of_tags htags
  | true =>
    rw [← EnvelopeKind.tagsPresent_sortedEntries] at htags
    exact EnvelopeKind.ofJson_of_tags htags

theorem parse_of_encode {e : Envelope} (he : e.record.hasSurrogate = false) {s : OutputSettings}
    (hs : s.indentsBlank = true) {octets : List UInt8} (h : e.record.encode [] s = .ok octets) :
    parse (.octets octets) = pure e := by
  obtain ⟨text, octets', hencode, htext, hread⟩ := Record.exists_encode he hs []
  have hsame : octets' = octets := Except.ok.inj (hencode.symm.trans h)
  have hload := (Payload.load_octets htext "envelope").trans (Payload.load_text hread _)
  have hkind := e.ofJson_toWire s.sortKeys.isSet
  have hrow := Record.ofJson_toWire he s.sortKeys.isSet
  rw [record_eq] at hload hkind hrow
  rw [← hsame, parse_of_ofJson hload hkind hrow, ofRow_row]

/-- An envelope comes back as it was written, though its kind is not said; so what is written under
the same settings tells envelopes apart, of one kind or of two. -/
theorem parse_encode {e : Envelope} (he : e.record.hasSurrogate = false) {s : OutputSettings}
    (hs : s.indentsBlank = true) :
    ∃ octets, e.record.encode [] s = .ok octets ∧ parse (.octets octets) = pure e ∧
      ∀ e' : Envelope, e'.record.hasSurrogate = false → e'.record.encode [] s = .ok octets →
        e' = e := by
  obtain ⟨text, octets, hencode, -, -⟩ := Record.exists_encode he hs []
  have hback := parse_of_encode he hs hencode
  refine ⟨octets, hencode, hback, ?_⟩
  intro e' he' hencode'
  have hback' := parse_of_encode he' hs hencode'
  have houtcome := congrArg Logged.outcome (hback'.symm.trans hback)
  exact Except.ok.inj houtcome

theorem parse_encode_repo :
    let e := gitHubRepo ⟨⟨1, "gk.bridgeas.github.issue", "\"\\"⟩, "😀"⟩
    ∃ octets, e.record.encode [] ⟨.bool true, .bool true, .int 2⟩ = .ok octets ∧
      parse (.octets octets) = pure e ∧
      ∀ e' : Envelope, e'.record.hasSurrogate = false →
        e'.record.encode [] ⟨.bool true, .bool true, .int 2⟩ = .ok octets → e' = e :=
  parse_encode (by decide) (by decide)

/-- An envelope is not written with a count of spaces past the machine word; and it is not found
again in what is indented with a line tabulation. -/
theorem not_parse_encode_of_any_indent :
    (¬ ∀ (e : Envelope) (n : Int), e.record.hasSurrogate = false →
      ∃ octets, e.record.encode [] ⟨.bool false, .bool false, .int n⟩ = .ok octets) ∧
    ∃ octets,
      (gitHubRepo ⟨⟨0, [], []⟩, []⟩).record.encode [] ⟨.bool false, .bool false, .str "\x0b"⟩ =
        .ok octets ∧
      ∀ e, parse (.octets octets) ≠ pure e := by
  constructor
  · intro h
    obtain ⟨octets, hencode⟩ := h (gitHubRepo ⟨⟨0, [], []⟩, []⟩) (-0x8000000000000001) rfl
    contradiction
  · generalize hr : (gitHubRepo ⟨⟨0, [], []⟩, []⟩).record = r
    generalize hs : (⟨.bool false, .bool false, .str "\x0b"⟩ : OutputSettings) = s
    have hrefused : (match r.encode [] s with
        | .ok octets => (parse (.octets octets)).outcome.isOk
        | .error _ => true) = false := by
      subst hr hs
      decide +kernel
    cases hencode : r.encode [] s with
    | error e =>
      rw [hencode] at hrefused
      contradiction
    | ok octets =>
      rw [hencode] at hrefused
      refine ⟨octets, rfl, fun e h => ?_⟩
      simp only [h] at hrefused
      contradiction

end Envelope

end IssueRelay
