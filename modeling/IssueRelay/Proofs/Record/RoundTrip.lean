import IssueRelay.Proofs.Payload.Basic
import IssueRelay.Proofs.Record.Reading
import IssueRelay.Proofs.Settings.Indent
import IssueRelay.Proofs.Wire.ReadBack
import IssueRelay.Record.Encoding

set_option autoImplicit false

namespace IssueRelay

theorem Record.encode_eq_ok {r : Record} {excluded : List String} {s : OutputSettings}
    {octets : List UInt8} : r.encode excluded s = .ok octets ↔
      ∃ layout, s.layout = .ok layout ∧
        Utf8.encode ((r.toWire excluded).write layout) = .ok octets := by
  rw [encode, text]
  cases s.layout with
  | error e => exact ⟨nofun, fun ⟨_, h, _⟩ => nomatch h⟩
  | ok layout =>
    change (Utf8.encode _).mapError _ = _ ↔ _
    simp [Except.mapError_eq_ok]

theorem Record.exists_octets {r : Record} (hr : r.hasSurrogate = false) {s : OutputSettings}
    (hs : s.indentsBlank = true) (excluded : List String) :
    ∃ layout octets, s.layout = .ok layout ∧ layout.sortKeys = s.sortKeys.isSet ∧
      Wire.IndentsBlank layout ∧ r.encode excluded s = .ok octets ∧
      Utf8.encode ((r.toWire excluded).write layout) = .ok octets := by
  obtain ⟨layout, hlayout, hsort, hblank⟩ := OutputSettings.exists_layout hs
  have hw := wellFormed_toWire hr excluded
  obtain ⟨octets, hoctets⟩ := Utf8.exists_octets (Wire.hasSurrogate_write hblank hw)
  exact ⟨layout, octets, hlayout, hsort, hblank, encode_eq_ok.mpr ⟨layout, hlayout, hoctets⟩, hoctets⟩

/-- A record without surrogates is written, and what is written is read as its tree. -/
theorem Record.exists_encode {r : Record} (hr : r.hasSurrogate = false) {s : OutputSettings}
    (hs : s.indentsBlank = true) (excluded : List String) :
    ∃ text octets, r.encode excluded s = .ok octets ∧ Utf8.encode text = .ok octets ∧
      Json.read text = .ok ((r.toWire excluded).arranged s.sortKeys.isSet).toJson := by
  obtain ⟨layout, octets, -, hsort, hblank, hencode, hoctets⟩ := exists_octets hr hs excluded
  rw [← hsort]
  exact ⟨_, octets, hencode, hoctets,
    Wire.read_write hblank (by decide) (wellFormed_toWire hr excluded)⟩

theorem RecordType.ofJson_arranged {depth : Nat} {w : Wire} (h : w.WellFormed depth)
    (sortKeys : Bool) (type : RecordType) (path : Text) :
    type.ofJson path (w.arranged sortKeys).toJson = type.ofJson path w.toJson := by
  cases sortKeys with
  | false => rfl
  | true => exact (ofJson_eq_of_agrees (h.agrees_sorted type.kind) path).symm

theorem Record.ofJson_toWire {r : Record} (hr : r.hasSurrogate = false) (sortKeys : Bool) :
    r.type.ofJson [] ((r.toWire []).arranged sortKeys).toJson = .ok r.row := by
  rw [RecordType.ofJson_arranged (wellFormed_toWire hr [])]
  exact RecordType.ofJson_toWire hr []

theorem Record.decode_of_encode {r : Record} (hr : r.hasSurrogate = false) {s : OutputSettings}
    (hs : s.indentsBlank = true) {octets : List UInt8} (h : r.encode [] s = .ok octets) :
    decode r.type (.octets octets) = pure r := by
  obtain ⟨text, octets', hencode, htext, hread⟩ := exists_encode hr hs []
  have hsame : octets' = octets := Except.ok.inj (hencode.symm.trans h)
  have hload := (Payload.load_octets htext r.type.name).trans (Payload.load_text hread _)
  exact hsame ▸ decode_of_ofJson hload (ofJson_toWire hr s.sortKeys.isSet)

/-- A record comes back as it was written, from the octets and from the text that they spell; so
what is written under the same settings tells records of one type apart. -/
theorem Record.decode_encode {r : Record} (hr : r.hasSurrogate = false) {s : OutputSettings}
    (hs : s.indentsBlank = true) :
    ∃ text octets, r.encode [] s = .ok octets ∧ Utf8.encode text = .ok octets ∧
      decode r.type (.octets octets) = pure r ∧ decode r.type (.text text) = pure r ∧
      ∀ r' : Record, r'.type = r.type → r'.hasSurrogate = false → r'.encode [] s = .ok octets →
        r' = r := by
  obtain ⟨text, octets, hencode, htext, hread⟩ := exists_encode hr hs []
  have hback := decode_of_encode hr hs hencode
  refine ⟨text, octets, hencode, htext, hback, ?_, ?_⟩
  · exact decode_of_ofJson (Payload.load_text hread _) (ofJson_toWire hr s.sortKeys.isSet)
  · intro r' htype hr' hencode'
    have hback' := decode_of_encode hr' hs hencode'
    rw [htype, hback] at hback'
    have houtcome : (Except.ok r : Except DecodeFailure Record) = .ok r' :=
      congrArg Logged.outcome hback'
    exact (Except.ok.inj houtcome).symm

theorem Record.decode_encode_repo :
    let r : Record :=
      ⟨.gitHubRepo, (0xFFFFFFFFFFFFFFFF, "a/\"b\"", "\\\x01", some ("😀" : Text), ())⟩
    ∃ text octets, r.encode [] ⟨.bool true, .int 1, .str "\t "⟩ = .ok octets ∧
      Utf8.encode text = .ok octets ∧
      decode r.type (.octets octets) = pure r ∧ decode r.type (.text text) = pure r ∧
      ∀ r' : Record, r'.type = r.type → r'.hasSurrogate = false →
        r'.encode [] ⟨.bool true, .int 1, .str "\t "⟩ = .ok octets → r' = r :=
  decode_encode (by decide) (by decide)

/-- A count of spaces past the machine word is not written, even one below zero. -/
theorem Record.not_encode_of_any_count :
    ¬ ∀ (r : Record) (sortKeys asciiOnly : Json) (n : Int), r.hasSurrogate = false →
      ∃ octets, r.encode [] ⟨sortKeys, asciiOnly, .int n⟩ = .ok octets := by
  intro h
  obtain ⟨octets, hencode⟩ := h ⟨.jiraIssueLight, ([], [], ())⟩ (.bool false) (.bool false)
    (-0x8000000000000001) rfl
  contradiction

/-- Writing a record as JSON and reading it gives the record's tree, with its keys in order if the
settings ask for that; and every type reads from it what it reads from the tree. -/
theorem Record.load_encode {r : Record} (hr : r.hasSurrogate = false) {s : OutputSettings}
    (hs : s.indentsBlank = true) (excluded : List String) :
    ∃ octets, r.encode excluded s = .ok octets ∧
      (∀ what, (Payload.octets octets).load what =
        pure (if s.sortKeys.isSet then (r.toWire excluded).sorted else r.toWire excluded).toJson) ∧
      (r.toWire excluded).sorted.Ordered ∧
      (r.toWire excluded).sorted.Rearranges (r.toWire excluded) ∧
      ∀ type : RecordType, (decode type (.octets octets)).outcome =
        ((type.ofJson [] (r.toWire excluded).toJson).mapError fun e => .refused (.record e)).map
          (Record.mk type) := by
  obtain ⟨text, octets, hencode, htext, hread⟩ := exists_encode hr hs excluded
  have hw := wellFormed_toWire hr excluded
  have hload (what : Text) : (Payload.octets octets).load what =
      pure ((r.toWire excluded).arranged s.sortKeys.isSet).toJson :=
    (Payload.load_octets htext what).trans (Payload.load_text hread what)
  refine ⟨octets, hencode, hload, hw.ordered_sorted, hw.sorted_rearranges, ?_⟩
  intro type
  rw [outcome_decode (hload type.name), RecordType.ofJson_arranged hw]

theorem Record.load_encode_project :
    let r : Record := ⟨.jiraProject, ("https://a/1", "10", "K", ())⟩
    ∃ octets, r.encode ["id"] ⟨.int 1, .null, .bool true⟩ = .ok octets ∧
      (∀ what, (Payload.octets octets).load what =
        pure (if (Json.int 1).isSet then (r.toWire ["id"]).sorted else r.toWire ["id"]).toJson) ∧
      (r.toWire ["id"]).sorted.Ordered ∧ (r.toWire ["id"]).sorted.Rearranges (r.toWire ["id"]) ∧
      ∀ type : RecordType, (decode type (.octets octets)).outcome =
        ((type.ofJson [] (r.toWire ["id"]).toJson).mapError fun e => .refused (.record e)).map
          (Record.mk type) :=
  load_encode (by decide) (by decide) ["id"]

/-- Nothing is written for a count past the machine word; and what is indented with a line
tabulation is not read. -/
theorem Record.not_load_encode_of_any_indent :
    (¬ ∀ (r : Record) (excluded : List String) (n : Int), r.hasSurrogate = false →
      ∃ octets, r.encode excluded ⟨.bool false, .bool false, .int n⟩ = .ok octets) ∧
    ∃ octets,
      encode ⟨.jiraIssueLight, ([], [], ())⟩ ["key"] ⟨.bool false, .bool false, .str "\x0b"⟩ =
        .ok octets ∧
      ∀ what v, (Payload.octets octets).load what ≠ pure v := by
  constructor
  · intro h
    obtain ⟨octets, hencode⟩ :=
      h ⟨.jiraIssueLight, ([], [], ())⟩ ["key"] (-0x8000000000000001) rfl
    contradiction
  · refine ⟨_, rfl, fun what v h => ?_⟩
    have houtcome := congrArg Logged.outcome h
    contradiction

end IssueRelay
