import IssueRelay.Proofs.Envelope.Reading
import IssueRelay.Proofs.Json.Members

set_option autoImplicit false

namespace IssueRelay

namespace EnvelopeKind

/-- Whether a value has the tags of a kind: it is an object, and of the four tags just those of the
kind are among its keys. -/
def ShownBy (kind : EnvelopeKind) (v : Json) : Prop :=
  ∃ members, v = .obj members ∧
    ∀ tag ∈ allTags, Text.ofString tag ∈ members.map (·.1) ↔ tag ∈ kind.tags

theorem mem_tagsPresent {members : List (Text × Json)} {tag : String} :
    tag ∈ tagsPresent members ↔ tag ∈ allTags ∧ Text.ofString tag ∈ members.map (·.1) := by
  rw [tagsPresent, List.mem_filter, Json.isSome_get?]

theorem tags_eq_filter (kind : EnvelopeKind) :
    kind.tags = allTags.filter fun tag => decide (tag ∈ kind.tags) := by cases kind <;> rfl

theorem tagsPresent_eq_tags {members : List (Text × Json)} {kind : EnvelopeKind} :
    tagsPresent members = kind.tags ↔
      ∀ tag ∈ allTags, Text.ofString tag ∈ members.map (·.1) ↔ tag ∈ kind.tags := by
  constructor
  · intro h tag htag
    rw [← h, mem_tagsPresent]
    exact ⟨fun hkey => ⟨htag, hkey⟩, And.right⟩
  · intro h
    rw [tags_eq_filter, tagsPresent]
    refine List.filter_congr fun tag htag => ?_
    rw [Bool.eq_iff_iff, Json.isSome_get?, decide_eq_true_iff]
    exact h tag htag

theorem ofJson_eq_ok {v : Json} {kind : EnvelopeKind} : ofJson v = .ok kind ↔ kind.ShownBy v := by
  constructor
  · intro h
    unfold ofJson at h
    split at h
    · rename_i members
      split at h
      · rename_i found hfound
        cases h
        have htags : tagsPresent members = kind.tags := by simpa using List.find?_some hfound
        exact ⟨members, rfl, tagsPresent_eq_tags.mp htags⟩
      · contradiction
    · contradiction
  · rintro ⟨members, rfl, h⟩
    exact ofJson_of_tags (tagsPresent_eq_tags.mpr h)

theorem ShownBy.unique {v : Json} {kind kind' : EnvelopeKind} (h : kind.ShownBy v)
    (h' : kind'.ShownBy v) : kind' = kind :=
  Except.ok.inj ((ofJson_eq_ok.mpr h').symm.trans (ofJson_eq_ok.mpr h))

theorem ShownBy.ne_gitHubRepo {members : List (Text × Json)} {kind : EnvelopeKind}
    (h : kind.ShownBy (.obj members)) {tag : String} (htag : tag ∈ allTags)
    (hne : tag ≠ gitHubRepoTag) (hkey : Text.ofString tag ∈ members.map (·.1)) :
    kind ≠ gitHubRepo := by
  rintro rfl
  obtain ⟨members', hmembers, htags⟩ := h
  cases hmembers
  have hmem := (htags tag htag).mp hkey
  exact hne (List.mem_singleton.mp hmem)

end EnvelopeKind

namespace Envelope

variable {p : Payload} {what : Text} {v : Json}

theorem outcome_parse_of_tags (h : (p.load what).outcome = .ok v) {kind : EnvelopeKind}
    (hkind : EnvelopeKind.ofJson v = .ok kind) :
    (parse p).outcome =
      ((kind.recordType.ofJson [] v).mapError fun e => .refused (.record e)).map
        (ofRow kind) := by
  have hload := Payload.load_eq_pure h "envelope"
  rw [← kind.recordType.outcome_ofLoaded .envelopes]
  simp only [parse, hload, Logged.pure_bind, hkind]
  exact Logged.outcome_map (ofRow kind) _

theorem outcome_parse_of_unknown (h : (p.load what).outcome = .ok v) {u : UnknownEnvelope}
    (hkind : EnvelopeKind.ofJson v = .error u) :
    (parse p).outcome = .error (.refused (.unknownEnvelope u)) := by
  have hload := Payload.load_eq_pure h "envelope"
  simp only [parse, hload, Logged.pure_bind, hkind, Logged.fail]

theorem outcome_parse_of_load {e : DecodeFailure} (h : (p.load what).outcome = .error e) :
    (parse p).outcome = .error e := by
  rw [p.outcome_load what "envelope"] at h
  rw [parse, Logged.outcome_bind, h]
  rfl

theorem outcome_parse_of_not_shown (h : (p.load what).outcome = .ok v)
    (hkind : ∀ kind : EnvelopeKind, ¬kind.ShownBy v) :
    ∃ u, (parse p).outcome = .error (.refused (.unknownEnvelope u)) := by
  cases hv : EnvelopeKind.ofJson v with
  | error u => exact ⟨u, outcome_parse_of_unknown h hv⟩
  | ok kind => exact absurd (EnvelopeKind.ofJson_eq_ok.mp hv) (hkind kind)

theorem record_parse_of_shown (h : (p.load what).outcome = .ok v) {kind : EnvelopeKind}
    (hkind : kind.ShownBy v) :
    (parse p).outcome.map record = (Record.decode kind.recordType p).outcome := by
  rw [outcome_parse_of_tags h (EnvelopeKind.ofJson_eq_ok.mpr hkind),
    Record.outcome_decode (Payload.load_eq_pure h _)]
  cases kind.recordType.ofJson [] v with
  | error e => rfl
  | ok r => exact congrArg Except.ok (record_ofRow kind r)

theorem shownBy_of_parse (h : (p.load what).outcome = .ok v) {e : Envelope}
    (he : (parse p).outcome = .ok e) : e.kind.ShownBy v := by
  cases hv : EnvelopeKind.ofJson v with
  | error u =>
    rw [outcome_parse_of_unknown h hv] at he
    contradiction
  | ok kind =>
    rw [outcome_parse_of_tags h hv] at he
    obtain ⟨r, -, rfl⟩ := Except.map_eq_ok.mp he
    rw [kind_ofRow]
    exact EnvelopeKind.ofJson_eq_ok.mp hv

/-- Parsing an envelope agrees with telling its kind by its tags and decoding a record of that
kind's type, errors included. -/
theorem parse_eq_decode (p : Payload) (what : Text) :
    (∀ e, (p.load what).outcome = .error e →
      (parse p).outcome = .error e ∧ ∀ type, (Record.decode type p).outcome = .error e) ∧
    ∀ v, (p.load what).outcome = .ok v →
      ((∀ kind : EnvelopeKind, ¬kind.ShownBy v) →
        ∃ u, (parse p).outcome = .error (.refused (.unknownEnvelope u)) ∧
          (DecodeError.unknownEnvelope u).path = []) ∧
      (∀ kind : EnvelopeKind, kind.ShownBy v →
        (∀ kind' : EnvelopeKind, kind'.ShownBy v → kind' = kind) ∧
        (parse p).outcome.map record = (Record.decode kind.recordType p).outcome) ∧
      ∀ members, v = .obj members → ∀ tag ∈ EnvelopeKind.allTags, tag ≠ gitHubRepoTag →
        Text.ofString tag ∈ members.map (·.1) → ∀ e, (parse p).outcome ≠ .ok (gitHubRepo e) := by
  refine ⟨fun e h => ?_, fun v h => ⟨fun hkind => ?_, fun kind hkind => ?_, ?_⟩⟩
  · exact ⟨outcome_parse_of_load h, Record.outcome_decode_of_load h⟩
  · obtain ⟨u, hu⟩ := outcome_parse_of_not_shown h hkind
    exact ⟨u, hu, rfl⟩
  · exact ⟨fun kind' hkind' => hkind.unique hkind', record_parse_of_shown h hkind⟩
  · rintro members rfl tag htag hne hkey e he
    exact (shownBy_of_parse h he).ne_gitHubRepo htag hne hkey rfl

/-- It decodes as an envelope of a repository, and has the tag of a Jira issue besides. -/
def mixedTags : Payload := .text <| "\x7b\"gk.bridgeas.jira.issue\":0,\"external_url\":\"\"," ++
  "\"gk.bridgeas.github.repo\":\x7b\"url\":\"\",\"name\":\"\",\"id\":0\x7d\x7d"

theorem parse_eq_decode_mixedTags :
    ∃ v r, (mixedTags.load []).outcome = .ok v ∧ (∀ kind : EnvelopeKind, ¬kind.ShownBy v) ∧
      (Record.decode .gitHubRepoEnvelope mixedTags).outcome = .ok r ∧
      ∃ u, (parse mixedTags).outcome = .error (.refused (.unknownEnvelope u)) ∧
        (DecodeError.unknownEnvelope u).path = [] := by
  have hloaded : (mixedTags.load []).outcome.isOk = true := by decide +kernel
  have hunknown : ((mixedTags.load []).outcome.toOption.any fun v =>
      (EnvelopeKind.ofJson v).isOk) = false := by decide +kernel
  have hdecoded : (Record.decode .gitHubRepoEnvelope mixedTags).outcome.isOk = true := by
    decide +kernel
  generalize mixedTags = p at *
  obtain ⟨v, hload⟩ := Except.exists_of_isOk hloaded
  obtain ⟨r, hr⟩ := Except.exists_of_isOk hdecoded
  have hnone : ∀ kind : EnvelopeKind, ¬kind.ShownBy v := by
    intro kind hkind
    simp only [hload, Except.toOption, Option.any_some, EnvelopeKind.ofJson_eq_ok.mpr hkind]
      at hunknown
    contradiction
  exact ⟨v, r, hload, hnone, hr, ((parse_eq_decode p []).2 v hload).1 hnone⟩

end Envelope

end IssueRelay
