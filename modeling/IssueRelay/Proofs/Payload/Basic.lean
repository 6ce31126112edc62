import IssueRelay.Payload.Basic
import IssueRelay.Proofs.Log
import IssueRelay.Proofs.Text.Utf8

set_option autoImplicit false

namespace IssueRelay

namespace Payload

theorem load_text {text : Text} {v : Json} (h : Json.read text = .ok v) (what : Text) :
    (Payload.text text).load what = pure v := by
  simp only [load, toText, h]

theorem load_octets {text : Text} {octets : List UInt8} (h : Utf8.encode text = .ok octets)
    (what : Text) : (Payload.octets octets).load what = (Payload.text text).load what := by
  simp only [load, toText, Utf8.decode_of_encode h]

theorem load_of_fault {octets : List UInt8} {f : Utf8.Fault} (h : Utf8.decode octets = .error f)
    (what : Text) : (Payload.octets octets).load what =
      .fail (.refused (.invalidUtf8 f)) [.invalidUtf8 what f] := by
  simp only [load, toText, h, Functor.map, Except.map]

theorem outcome_load (p : Payload) (what what' : Text) :
    (p.load what).outcome = (p.load what').outcome := by
  unfold load
  split
  · rfl
  · split <;> rfl

theorem load_eq_pure {p : Payload} {what : Text} {v : Json} (h : (p.load what).outcome = .ok v)
    (what' : Text) : p.load what' = pure v := by
  rw [p.outcome_load what what'] at h
  unfold load at h ⊢
  cases htext : p.toText with
  | error f =>
    rw [htext] at h
    contradiction
  | ok s =>
    cases hread : Json.read s with
    | error f => cases f <;> simp [htext, hread, Logged.fail] at h
    | ok v' =>
      simp only [htext, hread] at h ⊢
      exact congrArg pure (Except.ok.inj h)

end Payload

theorem RecordType.outcome_ofLoaded (type : RecordType) (component : Component) (v : Json) :
    (type.ofLoaded component v).outcome =
      (type.ofJson [] v).mapError fun e => .refused (.record e) := by
  rw [ofLoaded]
  cases type.ofJson [] v <;> rfl

theorem RecordType.ofLoaded_of_ofJson {type : RecordType} {v : Json} {r : type.Row}
    (h : type.ofJson [] v = .ok r) (component : Component) :
    type.ofLoaded component v = pure r := by rw [ofLoaded, h]

theorem RecordType.ofJson_of_ofLoaded {type : RecordType} {component : Component} {v : Json}
    {r : type.Row} (h : (type.ofLoaded component v).outcome = .ok r) :
    type.ofJson [] v = .ok r :=
  Except.mapError_eq_ok.mp (outcome_ofLoaded type component v ▸ h)

theorem Record.outcome_decode {p : Payload} {v : Json} {type : RecordType}
    (h : p.load type.name = pure v) :
    (decode type p).outcome =
      ((type.ofJson [] v).mapError fun e => .refused (.record e)).map (Record.mk type) := by
  rw [decode, RecordType.decode, h, Logged.pure_bind, Logged.outcome_map,
    RecordType.outcome_ofLoaded]
  rfl

theorem Record.outcome_decode_of_load {p : Payload} {what : Text} {e : DecodeFailure}
    (h : (p.load what).outcome = .error e) (type : RecordType) :
    (decode type p).outcome = .error e := by
  rw [p.outcome_load what type.name] at h
  rw [decode, RecordType.decode, Logged.outcome_map, Logged.outcome_bind, h]
  rfl

theorem Record.decode_of_ofJson {p : Payload} {v : Json} {r : Record}
    (h : p.load r.type.name = pure v) (hv : r.type.ofJson [] v = .ok r.row) :
    decode r.type p = pure r := by
  rw [decode, RecordType.decode, h, Logged.pure_bind, RecordType.ofLoaded_of_ofJson hv]
  rfl

theorem Record.ofJson_of_decode {type : RecordType} {p : Payload} {r : Record}
    (h : (decode type p).outcome = .ok r) :
    ∃ v row, type.ofJson [] v = .ok row ∧ r = ⟨type, row⟩ := by
  obtain ⟨row, hrow, rfl⟩ := Logged.map_eq_ok h
  obtain ⟨v, -, hv⟩ := Logged.bind_eq_ok hrow
  exact ⟨v, row, RecordType.ofJson_of_ofLoaded hv, rfl⟩

end IssueRelay
