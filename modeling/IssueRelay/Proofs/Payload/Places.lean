import IssueRelay.Proofs.Payload.Basic
import IssueRelay.Proofs.Record.Place

set_option autoImplicit false

namespace IssueRelay

open Json

namespace Payload

theorem load_eq_ok {p : Payload} {what : Text} {v : Json} :
    (p.load what).outcome = .ok v ↔ ∃ s, p.toText = .ok s ∧ Json.read s = .ok v := by
  rw [load]
  cases p.toText with
  | error f => simp [Logged.fail]
  | ok s =>
    cases hread : Json.read s with
    | error f => cases f <;> simp [hread, Logged.fail]
    | ok v => simp [hread, pure]

end Payload

theorem Record.decode_eq_ok {type : RecordType} {p : Payload} {r : type.Row} :
    (decode type p).outcome = .ok ⟨type, r⟩ ↔
      ∃ s v, p.toText = .ok s ∧ Json.read s = .ok v ∧ type.ofJson [] v = .ok r := by
  constructor
  · intro h
    obtain ⟨r', hr', hr⟩ := Logged.map_eq_ok h
    obtain ⟨v, hload, hv⟩ := Logged.bind_eq_ok hr'
    obtain ⟨s, hs, hread⟩ := Payload.load_eq_ok.mp hload
    cases hr
    exact ⟨s, v, hs, hread, RecordType.ofJson_of_ofLoaded hv⟩
  · rintro ⟨s, v, hs, hread, hv⟩
    have hload : (p.load []).outcome = .ok v := Payload.load_eq_ok.mpr ⟨s, hs, hread⟩
    rw [outcome_decode (Payload.load_eq_pure hload type.name), hv]
    rfl

/-- A payload that is decoded, with a place of its record marked in it: what stands around the value
there, and that value as it is written. -/
structure Marked (type : RecordType) (leaf : Kind) where
  place : type.kind.Place leaf
  around : Surroundings
  under : around.Under place.keys
  source : Source
  payload : Payload
  spelled : payload.toText = .ok (around.text source)
  row : type.Row
  decoded : (Record.decode type payload).outcome = .ok ⟨type, row⟩

namespace Marked

variable {type : RecordType} {leaf : Kind}

def path (x : Marked type leaf) : Text := dotted [] x.place.keys

def recordWith (x : Marked type leaf) (v : leaf.Value) : Record := ⟨type, x.place.set x.row v⟩

/-- What is read at the place is what the record has there; and with another value in the payload
that value alone is read anew. -/
theorem exists_value (x : Marked type leaf) :
    (∃ w₀, x.source.value? x.around.depth = .ok w₀ ∧
      leaf.readAt x.path w₀ = .ok (x.place.get x.row)) ∧
    ∀ (s : Source) (p : Payload) (w : Json), p.toText = .ok (x.around.text s) →
      s.value? x.around.depth = .ok w →
      (Record.decode type p).outcome =
        ((leaf.readAt x.path w).mapError fun e => .refused (.record e)).map x.recordWith := by
  obtain ⟨text, v₀, htext, hread, hv₀⟩ := Record.decode_eq_ok.mp x.decoded
  obtain rfl := Except.ok.inj (x.spelled.symm.trans htext)
  obtain ⟨w₀, around, hw₀, haround, halters⟩ := x.around.exists_read x.under hread
  rw [RecordType.ofJson_eq_readAt] at hv₀
  refine ⟨⟨w₀, hw₀, (x.place.readAt_of_alters type.keyed (halters w₀) hv₀).1⟩, ?_⟩
  intro s p w hp hw
  have hread' : Json.read (x.around.text s) = .ok (around w) := by
    rw [haround, hw]
    rfl
  have hload : (p.load []).outcome = .ok (around w) := Payload.load_eq_ok.mpr ⟨_, hp, hread'⟩
  rw [Record.outcome_decode (Payload.load_eq_pure hload type.name), RecordType.ofJson_eq_readAt,
    (x.place.readAt_of_alters type.keyed (halters w) hv₀).2]
  change _ = ((leaf.readAt (dotted [] x.place.keys) w).mapError _).map x.recordWith
  cases leaf.readAt (dotted [] x.place.keys) w <;> rfl

theorem message_mismatch (x : Marked type leaf) (hleaf : leaf.shape ≠ .object) (m : Mismatch) :
    (RecordError.mismatch x.path m).message = x.path ++ (": " ++ m.message) := by
  have hpath : x.path ≠ [] := x.place.dotted_keys_ne type.keyed hleaf
  rw [RecordError.message, RecordError.path, if_neg hpath, RecordError.problem, List.append_assoc]

end Marked

def Json.Spelling.plain (s : String) : Spelling :=
  s.toList.filterMap fun c =>
    if h : 0x20 ≤ (CodePoint.scalar c).value ∧ CodePoint.scalar c ≠ .scalar '"' ∧
        CodePoint.scalar c ≠ .scalar '\\' then
      some (.raw (.scalar c) h)
    else none

def Json.Member.plain (key value : String) : Member :=
  (([], .plain key, []), ([.space], .string (.plain value), []))

end IssueRelay
