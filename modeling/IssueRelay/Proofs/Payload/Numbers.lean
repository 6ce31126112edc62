import IssueRelay.Proofs.Envelope.Announcement
import IssueRelay.Proofs.Payload.Places
import IssueRelay.Proofs.Wire.Source

set_option autoImplicit false

namespace IssueRelay

open Json

theorem Slot.mem_entries {excluded : List String} {fields : List Field} {name : FieldName}
    {kind : Kind} (slot : Slot fields name kind) (hx : name.internal ∉ excluded) {r : Row fields}
    {w : Wire} (hw : kind.toWire? excluded (slot.get r) = some w) :
    (name.wire, w) ∈ Row.entries excluded fields r := by
  induction slot with
  | first =>
    obtain ⟨v, r⟩ := r
    have hv : Kind.toWire? excluded _ v = some w := hw
    rw [Row.entries, if_neg hx, hv]
    exact List.mem_cons_self
  | @later f rest name kind slot ih =>
    obtain ⟨u, r⟩ := r
    have hmem := ih hx hw
    rw [Row.entries]
    split
    · exact hmem
    · split
      · exact hmem
      · exact List.mem_cons_of_mem _ hmem

theorem Kind.Place.toWire?_isSome {kind leaf : Kind} (place : kind.Place leaf)
    (excluded : List String) {v : kind.Value} {x : Wire}
    (hx : leaf.toWire? excluded (place.get v) = some x) :
    ∃ w, kind.toWire? excluded v = some w := by
  cases place with
  | here => exact ⟨x, hx⟩
  | inside slot place => exact ⟨_, rfl⟩

theorem Kind.Place.at_toWire? {kind leaf : Kind} (place : kind.Place leaf) {excluded : List String}
    (hnames : ∀ name ∈ place.names, name ∉ excluded) {v : kind.Value} {w x : Wire}
    (hw : kind.toWire? excluded v = some w)
    (hx : leaf.toWire? excluded (place.get v) = some x) : w.At place.keys x := by
  induction place generalizing w with
  | here =>
    obtain rfl := Option.some.inj (hw.symm.trans hx)
    exact .here w
  | @inside type fields name kind leaf slot place ih =>
    obtain ⟨hname, hnames⟩ := List.forall_mem_cons.mp hnames
    obtain ⟨w', hw'⟩ := place.toWire?_isSome excluded hx
    cases hw
    exact .under (slot.mem_entries hname hw') (ih hnames hw' hx)

theorem Wire.At.at?_toJson {keys : List String} {w x : Wire} (h : w.At keys x) {depth : Nat}
    (hw : w.WellFormed depth) : w.toJson.at? keys = some x.toJson := by
  induction h generalizing depth with
  | here w => rfl
  | under mem h ih =>
    cases hw with
    | object keys each =>
      rw [toJson, Json.at?_cons (get?_membersOf_of_mem keys mem), ih (each _ mem)]

/-- Octets of a text in which a number stands under those keys as its digits, without a sign and
without leading zeros, and is read back. -/
structure NumeralUnder (octets : List UInt8) (keys : List String) (n : Nat) : Prop where
  written : ∃ (a : Surroundings) (r : Run) (h : r.first.val = 0 → r.more = []), a.Under keys ∧
    Utf8.encode (a.text (.number (.ofRun r h))) = .ok octets ∧ r.value = n
  readBack : (Payload.octets octets).at? keys = some (.int n)

theorem Record.exists_numeral {type : RecordType} (place : type.kind.Place .uint64) {r : type.Row}
    (hr : Record.hasSurrogate ⟨type, r⟩ = false) {s : OutputSettings} (hs : s.indentsBlank = true)
    {excluded : List String} (hnames : ∀ name ∈ place.names, name ∉ excluded) :
    ∃ octets, encode ⟨type, r⟩ excluded s = .ok octets ∧
      NumeralUnder octets place.keys (UInt64.toNat (place.get r)) := by
  obtain ⟨layout, octets, -, -, hblank, hencode, hoctets⟩ := exists_octets hr hs excluded
  have hw := (wellFormed_toWire hr excluded).arranged layout.sortKeys
  have hat : (Record.toWire ⟨type, r⟩ excluded).At place.keys (.number (place.get r)) :=
    place.at_toWire? hnames rfl rfl
  have harranged := hat.arranged rfl layout.sortKeys
  obtain ⟨frames, hframes, htext⟩ := Wire.exists_frames hblank harranged hw 0
  obtain ⟨run, hzero, hrun, hvalue, -⟩ := exists_run (UInt64.toNat (place.get r))
  refine ⟨octets, hencode, ⟨⟨[], frames, []⟩, run, hzero, hframes, ?_, hvalue⟩, ?_⟩
  · have hnumber := htext (.number (.ofRun run hzero)) hrun
    rw [← hoctets, Surroundings.text, spacedText, Surroundings.fill, hnumber]
    simp [Wire.write, Wire.arranged]
  · have hread := Wire.read_write hblank (by decide) (wellFormed_toWire hr excluded)
    rw [Payload.at?, Payload.load_octets hoctets, Payload.load_text hread]
    exact harranged.at?_toJson hw

theorem unsigned_int (v : Int) :
    unsigned (.int v) =
      if 0 ≤ v ∧ v < 2 ^ 64 then .ok (UInt64.ofNat v.toNat) else .error (.outOfRange v) := rfl

namespace Marked

variable {type : RecordType}

theorem outcome_decode_number (x : Marked type .uint64) {n : Number} {w : Json}
    (hw : n.value? = .ok w) {p : Payload} (hp : p.toText = .ok (x.around.text (.number n))) :
    (Record.decode type p).outcome =
      ((unsigned w).mapError fun m => .refused (.record (.mismatch x.path m))).map
        x.recordWith := by
  rw [x.exists_value.2 (.number n) p w hp hw, Kind.readAt]
  cases unsigned w <;> rfl

end Marked

/-- A literal in the place of a number is held as its value if it is an integer of sixty-four bits,
and that value is written as its digits and read back; any other integer is refused as out of range,
and any other number as no integer. -/
theorem Payload.exact_numbers (type : RecordType) (x : Marked type .uint64) (n : Number)
    (hdigits : n.wholeDigits ≤ maxDigits) (p : Payload)
    (hp : p.toText = .ok (x.around.text (.number n))) :
    (∀ v, n.integer? = some v → 0 ≤ v → v < 2 ^ 64 → ∃ u : UInt64, (u.toNat : Int) = v ∧
      (Record.decode type p).outcome = .ok (x.recordWith u) ∧
      x.place.get (x.recordWith u).row = u ∧
      ∀ (s : OutputSettings) (excluded : List String), s.indentsBlank = true →
        (∀ name ∈ x.place.names, name ∉ excluded) →
        ∃ octets, (x.recordWith u).encode excluded s = .ok octets ∧
          NumeralUnder octets x.place.keys u.toNat) ∧
    (∀ v, n.integer? = some v → v < 0 ∨ 2 ^ 64 ≤ v →
      ∃ e, (Record.decode type p).outcome = .error (.refused e) ∧ e.path = x.path ∧
        e.message = x.path ++ ": integer " ++ Text.ofInt v ++ " out of range for uint64") ∧
    (n.integer? = none →
      ∃ e, (Record.decode type p).outcome = .error (.refused e) ∧ e.path = x.path ∧
        e.message = x.path ++ ": expected unsigned integer, got number") := by
  refine ⟨fun v hn h0 h64 => ?_, fun v hn hrange => ?_, fun hn => ?_⟩
  · have hvalue := Number.value?_of_integer hn
    rw [if_pos hdigits] at hvalue
    have hdecode := x.outcome_decode_number hvalue hp
    rw [unsigned_int, if_pos ⟨h0, h64⟩] at hdecode
    obtain ⟨m, rfl⟩ := Int.eq_ofNat_of_zero_le h0
    have hm : m < 2 ^ 64 := by omega
    refine ⟨UInt64.ofNat m, ?_, hdecode, x.place.get_set x.row _, fun s excluded hs hnames => ?_⟩
    · rw [UInt64.toNat_ofNat_of_lt' hm]
    · have hclean : (x.recordWith (UInt64.ofNat m)).hasSurrogate = false := by
        obtain ⟨text, v, -, -, hv⟩ := Record.decode_eq_ok.mp hdecode
        exact RecordType.hasSurrogate_of_ofJson hv
      have hencode := Record.exists_numeral x.place hclean hs hnames
      rwa [x.place.get_set x.row] at hencode
  · have hvalue := Number.value?_of_integer hn
    rw [if_pos hdigits] at hvalue
    have hdecode := x.outcome_decode_number hvalue hp
    rw [unsigned_int, if_neg (by omega)] at hdecode
    have hlead : Text.ofString ": integer " = Text.ofString ": " ++ Text.ofString "integer " := rfl
    refine ⟨_, hdecode, rfl, (x.message_mismatch nofun (.outOfRange v)).trans ?_⟩
    rw [hlead, Mismatch.message]
    simp only [List.append_assoc]
  · obtain ⟨r, hvalue⟩ := Number.value?_of_not_integer hn
    exact ⟨_, x.outcome_decode_number hvalue hp, rfl, x.message_mismatch nofun (.notUnsigned .real)⟩

def Marked.repoId : Marked .gitHubRepoEnvelope .uint64 where
  place := .inside .first (.inside .first .here)
  around := ⟨[],
    [⟨[.plain "external_url" "x"], ([], .plain "gk.bridgeas.github.repo", []), [.tab], [], [],
        [.lineFeed]⟩,
      ⟨[], ([], .plain "id", []), [.space], [], [.plain "name" "a", .plain "url" "u"], []⟩],
    [.lineFeed]⟩
  under := .cons ⟨by decide +kernel, nofun⟩ (.cons ⟨by decide +kernel, by decide +kernel⟩ .nil)
  source := .number (.ofRun ⟨⟨1, by decide⟩, []⟩ (by decide))
  payload := .text ("\x7b\"external_url\": \"x\",\"gk.bridgeas.github.repo\":\t\x7b\"id\": 1," ++
    "\"name\": \"a\",\"url\": \"u\"\x7d\n\x7d\n")
  spelled := by decide +kernel
  row := ((1, "a", "u", ()), "x", ())
  decoded := by decide +kernel

/-- The greatest number of sixty-four bits is read, the next one and a thousand with an exponent are
not. -/
theorem Payload.exact_numbers_bounds :
    (∃ (n : Number) (u : UInt64), n.text = "18446744073709551615" ∧ u.toNat = 2 ^ 64 - 1 ∧
      (Record.decode .gitHubRepoEnvelope (.text (Marked.repoId.around.text (.number n)))).outcome =
        .ok (Marked.repoId.recordWith u) ∧
      ∃ octets, (Marked.repoId.recordWith u).encode ["url"] ⟨.int 1, .null, .int 2⟩ = .ok octets ∧
        NumeralUnder octets ["gk.bridgeas.github.repo", "id"] (2 ^ 64 - 1)) ∧
    (∃ (n : Number) (e : DecodeError), n.text = "18446744073709551616" ∧
      (Record.decode .gitHubRepoEnvelope (.text (Marked.repoId.around.text (.number n)))).outcome =
        .error (.refused e) ∧
      e.message = Marked.repoId.path ++ ": integer " ++ Text.ofInt (2 ^ 64) ++
        " out of range for uint64") ∧
    ∃ (n : Number) (e : DecodeError), n.text = "1e3" ∧
      (Record.decode .gitHubRepoEnvelope (.text (Marked.repoId.around.text (.number n)))).outcome =
        .error (.refused e) ∧
      e.message = Marked.repoId.path ++ ": expected unsigned integer, got number" := by
  have hbounds (n : Number) (hn : n.wholeDigits ≤ maxDigits) :=
    Payload.exact_numbers .gitHubRepoEnvelope Marked.repoId n hn (.text _) rfl
  refine ⟨?_, ?_, ?_⟩
  · obtain ⟨u, hu, hdecode, -, hencode⟩ := (hbounds
      (.ofRun ⟨1, [8, 4, 4, 6, 7, 4, 4, 0, 7, 3, 7, 0, 9, 5, 5, 1, 6, 1, 5]⟩ (by decide))
      (by decide)).1 (2 ^ 64 - 1) (by decide) (by decide) (by decide)
    have hvalue : u.toNat = 2 ^ 64 - 1 := by omega
    refine ⟨_, u, by decide, hvalue, hdecode, ?_⟩
    rw [← hvalue]
    exact hencode ⟨.int 1, .null, .int 2⟩ ["url"] (by decide) (by decide)
  · obtain ⟨e, he, -, hmessage⟩ := (hbounds
      (.ofRun ⟨1, [8, 4, 4, 6, 7, 4, 4, 0, 7, 3, 7, 0, 9, 5, 5, 1, 6, 1, 6]⟩ (by decide))
      (by decide)).2.1 (2 ^ 64) (by decide) (by decide)
    exact ⟨_, e, by decide, he, hmessage⟩
  · obtain ⟨e, he, -, hmessage⟩ := (hbounds
      (.decimal ⟨false, ⟨1, []⟩, by decide, none, some ⟨false, none, ⟨3, []⟩⟩⟩) (by decide)).2.2 rfl
    exact ⟨_, e, by decide, he, hmessage⟩

end IssueRelay
