import IssueRelay.Proofs.Envelope.Classification
import IssueRelay.Proofs.Record.Reading

set_option autoImplicit false

namespace IssueRelay

theorem RecordType.ofLoaded_eq_of_agrees {type : RecordType} {v v' : Json}
    (h : type.kind.Agrees (some v) (some v')) (component : Component) :
    type.ofLoaded component v = type.ofLoaded component v' := by
  rw [ofLoaded, ofLoaded, ofJson_eq_of_agrees h]

theorem Kind.agrees_ofPairs {type : String} {fields : List Field} {pairs pairs' : List (Text × Json)}
    (h : ∀ f ∈ fields, f.2.Agrees (Json.get? pairs.reverse f.1.wire)
      (Json.get? pairs'.reverse f.1.wire)) :
    (Kind.record type fields).Agrees (some (.obj (Json.ofPairs pairs)))
      (some (.obj (Json.ofPairs pairs'))) := by
  refine .record fun f hf => ?_
  rw [Json.get?_ofPairs, Json.get?_ofPairs]
  exact h f hf

namespace EnvelopeKind

/-- Whether two values have the same tags: two objects of whose keys the same are tags, or two values
that are no objects. -/
inductive SameTags : Json → Json → Prop
  | objects {members members' : List (Text × Json)}
      (h : ∀ tag ∈ allTags,
        Text.ofString tag ∈ members.map (·.1) ↔ Text.ofString tag ∈ members'.map (·.1)) :
      SameTags (.obj members) (.obj members')
  | others {v v' : Json} (h : v.shape ≠ .object) (h' : v'.shape ≠ .object) : SameTags v v'

theorem ofJson_of_shape {v : Json} (h : v.shape ≠ .object) : ofJson v = .error .notObject := by
  cases v with
  | obj => contradiction
  | null | bool | int | real | str | arr => rfl

theorem SameTags.ofJson_eq {v v' : Json} (h : SameTags v v') : ofJson v = ofJson v' := by
  cases h with
  | @objects members members' h =>
    have htags : tagsPresent members = tagsPresent members' := by
      refine List.filter_congr fun tag htag => ?_
      rw [Bool.eq_iff_iff, Json.isSome_get?, Json.isSome_get?]
      exact h tag htag
    rw [ofJson, ofJson, htags]
  | others h h' => rw [ofJson_of_shape h, ofJson_of_shape h']

end EnvelopeKind

namespace Payload

variable {p p' : Payload} {what : Text} {v v' : Json}

theorem decode_eq_of_agrees (h : (p.load what).outcome = .ok v)
    (h' : (p'.load what).outcome = .ok v') {type : RecordType}
    (hv : type.kind.Agrees (some v) (some v')) : Record.decode type p = Record.decode type p' := by
  rw [Record.decode, Record.decode, RecordType.decode, RecordType.decode, load_eq_pure h,
    load_eq_pure h', Logged.pure_bind, Logged.pure_bind, RecordType.ofLoaded_eq_of_agrees hv]

theorem parse_eq_of_agrees (h : (p.load what).outcome = .ok v)
    (h' : (p'.load what).outcome = .ok v') (htags : EnvelopeKind.SameTags v v')
    (hv : ∀ kind : EnvelopeKind, kind.ShownBy v →
      kind.recordType.kind.Agrees (some v) (some v')) :
    Envelope.parse p = Envelope.parse p' := by
  rw [Envelope.parse, Envelope.parse, load_eq_pure h, load_eq_pure h', Logged.pure_bind,
    Logged.pure_bind, ← htags.ofJson_eq]
  cases hkind : EnvelopeKind.ofJson v with
  | error u => rfl
  | ok kind =>
    have hloaded := RecordType.ofLoaded_eq_of_agrees (hv kind (EnvelopeKind.ofJson_eq_ok.mp hkind))
      .envelopes
    simp only [hloaded]

/-- Only what stands under the keys that a record type declares matters to decoding, log entries and
errors included; parsing is decided by that and by the tags. What stands under a key is what stands
there last, wherever that is. -/
theorem declared_keys (h : (p.load what).outcome = .ok v) (h' : (p'.load what).outcome = .ok v') :
    (∀ type : RecordType, type.kind.Agrees (some v) (some v') →
      Record.decode type p = Record.decode type p') ∧
    (EnvelopeKind.SameTags v v' →
      (∀ kind : EnvelopeKind, kind.ShownBy v →
        kind.recordType.kind.Agrees (some v) (some v')) →
      Envelope.parse p = Envelope.parse p') ∧
    ∀ (type : String) (fields : List Field) (pairs pairs' : List (Text × Json)),
      (∀ f ∈ fields, f.2.Agrees (Json.get? pairs.reverse f.1.wire)
        (Json.get? pairs'.reverse f.1.wire)) →
      (Kind.record type fields).Agrees (some (.obj (Json.ofPairs pairs)))
        (some (.obj (Json.ofPairs pairs'))) :=
  ⟨fun _ => decode_eq_of_agrees h h', parse_eq_of_agrees h h', fun _ _ _ _ => Kind.agrees_ofPairs⟩

def plainEnvelope : Payload := .text <|
  "\x7b\"gk.bridgeas.github.repo\":\x7b\"id\":1,\"name\":\"a\",\"url\":\"u\"\x7d," ++
  "\"external_url\":\"x\"\x7d"

/-- The same in another order, with keys that no field asks for and a key that stands twice. -/
def mixedEnvelope : Payload := .text <|
  "\x7b\"n\":null,\"external_url\":0,\"external_url\":\"x\"," ++
  "\"gk.bridgeas.github.repo\":\x7b\"url\":\"u\",\"name\":\"a\",\"n\":[],\"id\":1\x7d\x7d"

theorem declared_keys_envelope :
    Record.decode .gitHubRepoEnvelope plainEnvelope =
      Record.decode .gitHubRepoEnvelope mixedEnvelope ∧
    Envelope.parse plainEnvelope = Envelope.parse mixedEnvelope := by
  have hplain : (plainEnvelope.load []).outcome = .ok (.obj [
      ("gk.bridgeas.github.repo", .obj [("id", .int 1), ("name", .str "a"), ("url", .str "u")]),
      ("external_url", .str "x")]) := by
    simp only [plainEnvelope, Text.ofString, String.reduceToList]
    rfl
  have hmixed : (mixedEnvelope.load []).outcome = .ok (.obj [("n", .null),
      ("external_url", .str "x"), ("gk.bridgeas.github.repo",
        .obj [("url", .str "u"), ("name", .str "a"), ("n", .arr []), ("id", .int 1)])]) := by
    simp only [mixedEnvelope, Text.ofString, String.reduceToList]
    rfl
  have hpart : RecordType.gitHubRepoPart.kind.Agrees
      (some (.obj [("id", .int 1), ("name", .str "a"), ("url", .str "u")]))
      (some (.obj [("url", .str "u"), ("name", .str "a"), ("n", .arr []), ("id", .int 1)])) := by
    refine .record ?_
    simp only [RecordType.fields, RecordType.gitHubRepoPartFields, List.forall_mem_cons]
    exact ⟨.same _ _, .same _ _, .same _ _, List.forall_mem_nil _⟩
  have hwhole : RecordType.gitHubRepoEnvelope.kind.Agrees (some (.obj [("gk.bridgeas.github.repo",
      .obj [("id", .int 1), ("name", .str "a"), ("url", .str "u")]), ("external_url", .str "x")]))
      (some (.obj [("n", .null), ("external_url", .str "x"), ("gk.bridgeas.github.repo",
        .obj [("url", .str "u"), ("name", .str "a"), ("n", .arr []), ("id", .int 1)])])) := by
    refine .record ?_
    simp only [RecordType.fields, List.forall_mem_cons]
    exact ⟨hpart, .same _ _, List.forall_mem_nil _⟩
  obtain ⟨hdecode, hparse, -⟩ := declared_keys hplain hmixed
  refine ⟨hdecode _ hwhole, hparse (.objects (by decide +kernel)) fun kind hkind => ?_⟩
  have hrepo : EnvelopeKind.gitHubRepo.ShownBy (.obj [("gk.bridgeas.github.repo",
      .obj [("id", .int 1), ("name", .str "a"), ("url", .str "u")]), ("external_url", .str "x")]) :=
    ⟨_, rfl, by decide +kernel⟩
  obtain rfl := hrepo.unique hkind
  exact hwhole

/-- A version without a description lacks a field, and with null for one it has a value of the wrong
sort. -/
theorem not_declared_keys_of_null :
    ¬∀ (type : RecordType) (p p' : Payload) (members : List (Text × Json)),
      Json.get? members "description" = none →
      (p.load []).outcome = .ok (.obj members) →
      (p'.load []).outcome = .ok (.obj (Json.put members "description" .null)) →
      (Record.decode type p).outcome = (Record.decode type p').outcome := by
  intro h
  have hsame := h .jiraVersion (.text "\x7b\"self\":\"\",\"id\":\"\"\x7d")
    (.text "\x7b\"self\":\"\",\"id\":\"\",\"description\":null\x7d")
    [("self", .str ""), ("id", .str "")] rfl
  simp only [Text.ofString, String.reduceToList] at hsame
  exact absurd (hsame rfl rfl) (by decide +kernel)

end Payload

end IssueRelay
