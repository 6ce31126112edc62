import IssueRelay.Proofs.Envelope.Reading
import IssueRelay.Proofs.Payload.Basic
import IssueRelay.Proofs.Text.WellFormed

set_option autoImplicit false

namespace IssueRelay

open Utf8

theorem DecodeError.message_invalidUtf8 (f : Utf8.Fault) :
    ∃ before after, (DecodeError.invalidUtf8 f).message =
      Text.ofString "invalid UTF-8: " ++ (before ++ Text.ofString " in position " ++
        Text.ofNat f.start ++ after) := by
  by_cases hmore : f.more = 0
  · refine ⟨"'utf-8' codec can't decode " ++ Text.ofString "byte 0x" ++ Text.ofHex 2 f.head.toNat,
      ": " ++ Text.ofString f.reason.message, ?_⟩
    simp [message, Fault.message, hmore]
  · have hplace : Text.ofString "bytes in position " =
        Text.ofString "bytes" ++ Text.ofString " in position " := rfl
    refine ⟨"'utf-8' codec can't decode " ++ Text.ofString "bytes",
      "-" ++ Text.ofNat (f.start + f.more) ++ ": " ++ Text.ofString f.reason.message, ?_⟩
    simp [message, Fault.message, hmore, hplace]

namespace Payload

/-- Two payloads that give the same to all that take one, log entries included. -/
structure TakenAlike (p p' : Payload) : Prop where
  load (what : Text) : p.load what = p'.load what
  decode (type : RecordType) : Record.decode type p = Record.decode type p'
  parse : Envelope.parse p = Envelope.parse p'

structure Fails (p : Payload) (e : DecodeFailure) (entry : Text → LogEntry) : Prop where
  load (what : Text) : p.load what = .fail e [entry what]
  decode (type : RecordType) : Record.decode type p = .fail e [entry type.name]
  parse : Envelope.parse p = .fail e [entry "envelope"]

variable {p p' : Payload}

theorem takenAlike_of_load (h : ∀ what, p.load what = p'.load what) : TakenAlike p p' where
  load := h
  decode type := by rw [Record.decode, Record.decode, RecordType.decode, RecordType.decode, h]
  parse := by rw [Envelope.parse, Envelope.parse, h]

theorem fails_of_load {e : DecodeFailure} {entry : Text → LogEntry}
    (h : ∀ what, p.load what = .fail e [entry what]) : Fails p e entry where
  load := h
  decode type := by
    rw [Record.decode, RecordType.decode, h]
    rfl
  parse := by
    rw [Envelope.parse, h]
    rfl

theorem takenAlike_encodeChars (cs : List Char) :
    TakenAlike (octets (encodeChars cs)) (text (Text.ofChars cs)) :=
  takenAlike_of_load (load_octets (encode_ofChars cs))

theorem fails_of_fault {bytes : List UInt8} {f : Utf8.Fault} (h : Utf8.decode bytes = .error f) :
    Fails (octets bytes) (.refused (.invalidUtf8 f)) (.invalidUtf8 · f) :=
  fails_of_load (load_of_fault h)

/-- Octets and texts are one language. Octets that spell characters spell no others and are taken
like their text, and all other octets fail where the longest front that spells characters ends. -/
theorem octets_like_text (bytes : List UInt8) :
    (∀ cs, encodeChars cs = bytes →
      (∀ cs', encodeChars cs' = bytes → cs' = cs) ∧
      TakenAlike (octets bytes) (text (Text.ofChars cs))) ∧
    ((∀ cs, encodeChars cs ≠ bytes) → ∃ f : Utf8.Fault,
      IsGreatest {n | n ≤ bytes.length ∧ WellFormed (bytes.take n)} f.start ∧
      Fails (octets bytes) (.refused (.invalidUtf8 f)) (.invalidUtf8 · f) ∧
      (DecodeError.invalidUtf8 f).path = [] ∧
      ∃ before after, (DecodeError.invalidUtf8 f).message =
        Text.ofString "invalid UTF-8: " ++ (before ++ Text.ofString " in position " ++
          Text.ofNat f.start ++ after)) := by
  constructor
  · rintro cs rfl
    refine ⟨fun cs' h => ?_, takenAlike_encodeChars cs⟩
    have hback := (decode_encodeChars cs').symm.trans (h ▸ decode_encodeChars cs)
    exact Except.ok.inj hback
  · intro h
    cases hf : Utf8.decode bytes with
    | ok cs => exact absurd (decode_eq_ok.mp hf) (h cs)
    | error f =>
      exact ⟨f, isGreatest_start hf, fails_of_fault hf, rfl, DecodeError.message_invalidUtf8 f⟩

/-- A byte order mark and a brace; and a brace with a character cut off after it. -/
theorem octets_like_text_mark :
    encodeChars ['\uFEFF', '\x7b'] = [0xEF, 0xBB, 0xBF, 0x7B] ∧
    TakenAlike (octets [0xEF, 0xBB, 0xBF, 0x7B]) (text (Text.ofChars ['\uFEFF', '\x7b'])) ∧
    (∀ cs, encodeChars cs ≠ [0x7B, 0xE2, 0x82, 0x7D]) ∧
    ∃ f : Utf8.Fault,
      IsGreatest {n | n ≤ 4 ∧ WellFormed (List.take n [0x7B, 0xE2, 0x82, 0x7D])} f.start ∧
      Fails (octets [0x7B, 0xE2, 0x82, 0x7D]) (.refused (.invalidUtf8 f)) (.invalidUtf8 · f) := by
  have hcut : ∀ cs, encodeChars cs ≠ [0x7B, 0xE2, 0x82, 0x7D] := by
    intro cs h
    have hdecode := decode_eq_ok.mpr h
    contradiction
  obtain ⟨f, hstart, hfails, -⟩ := (octets_like_text [0x7B, 0xE2, 0x82, 0x7D]).2 hcut
  exact ⟨rfl, ((octets_like_text [0xEF, 0xBB, 0xBF, 0x7B]).1 _ rfl).2, hcut, f, hstart, hfails⟩

end Payload

end IssueRelay
