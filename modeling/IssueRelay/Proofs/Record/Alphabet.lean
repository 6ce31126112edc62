import IssueRelay.Proofs.Record.RoundTrip
import IssueRelay.Proofs.Wire.Alphabet

set_option autoImplicit false

namespace IssueRelay

mutual

def Kind.Alike : (kind : Kind) → kind.Value → kind.Value → Prop
  | .uint64, _, _ => True
  | .text, _, _ => True
  | .optionalText, s, s' => s.isSome = s'.isSome
  | .record _ fields, r, r' => Row.Alike fields r r'

def Row.Alike : (fields : List (FieldName × Kind)) → Row fields → Row fields → Prop
  | [], _, _ => True
  | (_, kind) :: rest, r, r' => kind.Alike r.1 r'.1 ∧ Row.Alike rest r.2 r'.2

end

mutual

theorem Kind.lineBreaks_toWire? (excluded : List String) : (kind : Kind) → (v v' : kind.Value) →
    kind.Alike v v' →
    (kind.toWire? excluded v).map Wire.lineBreaks = (kind.toWire? excluded v').map Wire.lineBreaks
  | .uint64, _, _, _ => rfl
  | .text, _, _, _ => rfl
  | .optionalText, none, none, _ => rfl
  | .optionalText, some _, some _, _ => rfl
  | .record _ fields, r, r', h =>
    congrArg some (Wire.lineBreaks_congr (Row.entryLineBreaks_entries excluded fields r r' h))

theorem Row.entryLineBreaks_entries (excluded : List String) :
    (fields : List (FieldName × Kind)) → (r r' : Row fields) → Row.Alike fields r r' →
    Wire.entryLineBreaks (Row.entries excluded fields r) =
      Wire.entryLineBreaks (Row.entries excluded fields r')
  | [], _, _, _ => rfl
  | (name, kind) :: rest, (v, r), (v', r'), ⟨hv, hr⟩ => by
    have hfirst := Kind.lineBreaks_toWire? excluded kind v v' hv
    have hrest := Row.entryLineBreaks_entries excluded rest r r' hr
    rw [Row.entries, Row.entries]
    split
    · exact hrest
    · split <;> rename_i hw <;> split <;> rename_i hw' <;> rw [hw, hw'] at hfirst
      · exact hrest
      · contradiction
      · contradiction
      · rw [Wire.entryLineBreaks, Wire.entryLineBreaks, Option.some.inj hfirst, hrest]

end

def Record.hasDescription : Record → Bool
  | ⟨.gitHubRepo, (_, _, _, description, ())⟩ => description.isSome
  | _ => false

theorem RecordType.alike_of_hasDescription {type : RecordType} {r r' : type.Row}
    (h : Record.hasDescription ⟨type, r⟩ = Record.hasDescription ⟨type, r'⟩) :
    Row.Alike type.fields r r' := by
  cases type with
  | gitHubRepo => exact ⟨trivial, trivial, trivial, h, trivial⟩
  | _ => trivial

theorem Record.lineBreaks_toWire {r r' : Record} (htype : r'.type = r.type)
    (h : r'.hasDescription = r.hasDescription) (excluded : List String) :
    (r'.toWire excluded).lineBreaks = (r.toWire excluded).lineBreaks := by
  obtain ⟨type, row⟩ := r
  obtain ⟨type', row'⟩ := r'
  obtain rfl : type' = type := htype
  exact Wire.lineBreaks_congr
    (Row.entryLineBreaks_entries excluded _ row' row (RecordType.alike_of_hasDescription h))

/-- What is written is well-formed UTF-8. The line feed is the one octet in it below the space, and
is there only with an indent; where ASCII alone is asked for, every other octet is ASCII that shows.
How many line feeds there are depends on nothing in a record but whether it has a description. -/
theorem Record.encode_alphabet {r : Record} (hr : r.hasSurrogate = false) {s : OutputSettings}
    (hs : s.indentsBlank = true) (ht : ∀ unit, s.indent ≠ .str unit) (excluded : List String) :
    ∃ octets, r.encode excluded s = .ok octets ∧ Utf8.WellFormed octets ∧
      (∀ b ∈ octets, b < 0x20 → b = 0x0A ∧ s.indent ≠ .null) ∧
      (s.asciiOnly.isSet = true → ∀ b ∈ octets, b = 0x0A ∨ 0x20 ≤ b ∧ b ≤ 0x7E) ∧
      ∀ r' : Record, r'.type = r.type → r'.hasSurrogate = false →
        r'.hasDescription = r.hasDescription →
        ∃ octets', r'.encode excluded s = .ok octets' ∧ octets'.count 0x0A = octets.count 0x0A := by
  obtain ⟨layout, octets, hlayout, -, -, hencode, hoctets⟩ := exists_octets hr hs excluded
  obtain ⟨hspaces, hindent⟩ := OutputSettings.indentsSpaces ht hlayout
  have hascii : layout.asciiOnly = s.asciiOnly.isSet := (OutputSettings.layout_eq_ok.mp hlayout).2.2
  refine ⟨octets, hencode, ?_, fun b hb hcontrol => ?_, fun hset b hb => ?_, ?_⟩
  · obtain ⟨cs, -, hcs⟩ := Utf8.encode_eq_ok.mp hoctets
    exact ⟨cs, hcs⟩
  · obtain ⟨hfeed, hsome⟩ := (Wire.octet_write hspaces hoctets hb).1 hcontrol
    exact ⟨hfeed, hindent hsome⟩
  · exact (Wire.octet_write hspaces hoctets hb).2 (hascii.trans hset)
  · intro r' htype hr' hdescription
    obtain ⟨layout', octets', hlayout', -, -, hencode', hoctets'⟩ := exists_octets hr' hs excluded
    obtain rfl : layout' = layout := Except.ok.inj (hlayout'.symm.trans hlayout)
    refine ⟨octets', hencode', ?_⟩
    rw [Wire.count_octets_write hspaces hoctets, Wire.count_octets_write hspaces hoctets',
      lineBreaks_toWire htype hdescription]

/-- A title with line ends in it takes up no more lines than any other. -/
theorem Record.encode_alphabet_issue :
    let r : Record := ⟨.gitHubIssue, (1, "u", 2, "a\r\nb\x7f😀", ())⟩
    let r' : Record := ⟨.gitHubIssue, (3, "", 4, "", ())⟩
    let s : OutputSettings := ⟨.null, .bool true, .int 2⟩
    ∃ octets, r.encode ["number"] s = .ok octets ∧ Utf8.WellFormed octets ∧
      (∀ b ∈ octets, b < 0x20 → b = 0x0A) ∧
      (∀ b ∈ octets, b = 0x0A ∨ 0x20 ≤ b ∧ b ≤ 0x7E) ∧
      ∃ octets', r'.encode ["number"] s = .ok octets' ∧
        octets'.count 0x0A = octets.count 0x0A := by
  intro r r' s
  obtain ⟨octets, hencode, hutf8, hcontrols, hascii, hlines⟩ :=
    @encode_alphabet r (by decide) s (by decide) nofun ["number"]
  exact ⟨octets, hencode, hutf8, fun b hb h => (hcontrols b hb h).1, hascii rfl,
    hlines r' rfl (by decide) rfl⟩

/-- A count of spaces past the machine word gives no lines, but nothing at all. -/
theorem Record.not_encode_alphabet_of_any_count :
    ¬∀ (r : Record) (excluded : List String) (sortKeys asciiOnly : Json) (n : Int),
      r.hasSurrogate = false →
      ∃ octets, r.encode excluded ⟨sortKeys, asciiOnly, .int n⟩ = .ok octets ∧
        Utf8.WellFormed octets ∧ ∀ b ∈ octets, b < 0x20 → b = 0x0A := by
  intro h
  obtain ⟨octets, hencode, -⟩ := h ⟨.jiraIssueLight, ([], [], ())⟩ [] (.bool false) (.bool false)
    (-0x8000000000000001) rfl
  contradiction

end IssueRelay
