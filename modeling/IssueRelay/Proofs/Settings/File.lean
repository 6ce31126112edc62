import IssueRelay.Proofs.Json.LineEnds
import IssueRelay.Proofs.Outcome
import IssueRelay.Proofs.Payload.Basic

set_option autoImplicit false

namespace IssueRelay

namespace Payload

variable {octets : List UInt8} {what : Text}

theorem outcome_load_read {chars : List Char} (h : Utf8.decode octets = .ok chars) :
    ((Payload.octets octets).load what).outcome =
      (Json.read (Text.ofChars chars)).mapError fun
        | .malformed m => .refused (.malformed m)
        | .limit l => .limit l := by
  have htext : (Payload.octets octets).toText = .ok (Text.ofChars chars) := by
    rw [toText, h]
    rfl
  rw [load, htext]
  dsimp only
  cases Json.read (Text.ofChars chars) with
  | ok v => rfl
  | error e => cases e <;> rfl

end Payload

namespace Settings

variable {path : Text} {octets : List UInt8}

theorem ofOctets_invalid {f : Utf8.Fault} (h : Utf8.decode octets = .error f) :
    ofOctets path octets = .error (.invalidUtf8 f) := by
  rw [ofOctets, h]
  rfl

def ofRead (path : Text) : Except Json.Fault Json → Except SettingsFileError Settings
  | .error (.malformed m) => .error (.malformed path m)
  | .error (.limit l) => .error (.limit l)
  | .ok (.obj members) => (ofJson (.obj members)).mapError .settings
  | .ok _ => .error (.notObject path)

theorem ofOctets_read {chars : List Char} (h : Utf8.decode octets = .ok chars) :
    ofOctets path octets = ofRead path (Json.read (Text.ofChars (unifyLines chars))) := by
  rw [ofOctets, h]
  rfl

theorem ofRead_of_not_obj {v : Json} (h : ∀ members, v ≠ .obj members) :
    ofRead path (.ok v) = .error (.notObject path) := by
  cases v with
  | obj members => exact absurd rfl (h members)
  | null | bool | int | real | str | arr => rfl

theorem load_of_read {folder : Folder} {path : FilePath} (h : folder.read path = .ok octets) :
    load folder path = ofOctets path.text octets := by
  rw [load, h]
  rfl

theorem read_unifyLines (chars : List Char) :
    (∀ v, Json.read (Text.ofChars (unifyLines chars)) = .ok v ↔
      Json.read (Text.ofChars chars) = .ok v) ∧
    (∀ l, Json.read (Text.ofChars (unifyLines chars)) = .error (.limit l) ↔
      Json.read (Text.ofChars chars) = .error (.limit l)) ∧
    ∀ flaw, (∃ place, Json.read (Text.ofChars (unifyLines chars)) =
        .error (.malformed ⟨flaw, place⟩)) ↔
      ∃ place, Json.read (Text.ofChars chars) = .error (.malformed ⟨flaw, place⟩) := by
  rw [← Text.unified_ofChars]
  exact Json.read_unified (Text.ofChars chars)

/-- A settings file and a payload of the same octets go the same way: both fail as text, both as
JSON, both at a limit, or both come to the same value. -/
theorem load_cases {folder : Folder} {path : FilePath} (h : folder.read path = .ok octets)
    (what : Text) :
    (∃ f, load folder path = .error (.invalidUtf8 f) ∧
      ((Payload.octets octets).load what).outcome = .error (.refused (.invalidUtf8 f))) ∨
    (∃ flaw place place', load folder path = .error (.malformed path.text ⟨flaw, place⟩) ∧
      ((Payload.octets octets).load what).outcome =
        .error (.refused (.malformed ⟨flaw, place'⟩))) ∨
    (∃ l, load folder path = .error (.limit l) ∧
      ((Payload.octets octets).load what).outcome = .error (.limit l)) ∨
    ∃ v, load folder path = ofRead path.text (.ok v) ∧
      ((Payload.octets octets).load what).outcome = .ok v := by
  rw [load_of_read h]
  cases hdecode : Utf8.decode octets with
  | error f =>
    rw [ofOctets_invalid hdecode, Payload.load_of_fault hdecode]
    exact .inl ⟨f, rfl, rfl⟩
  | ok chars =>
    rw [ofOctets_read hdecode, Payload.outcome_load_read hdecode]
    obtain ⟨hvalue, hlimit, hflaw⟩ := read_unifyLines chars
    cases hread : Json.read (Text.ofChars chars) with
    | ok v => exact .inr (.inr (.inr ⟨v, by rw [(hvalue v).mpr hread], rfl⟩))
    | error e =>
      cases e with
      | malformed m =>
        obtain ⟨place, hplace⟩ := (hflaw m.flaw).mpr ⟨m.place, hread⟩
        exact .inr (.inl ⟨m.flaw, place, m.place, by rw [hplace]; rfl, rfl⟩)
      | limit l => exact .inr (.inr (.inl ⟨l, by rw [(hlimit l).mpr hread]; rfl, rfl⟩))

/-- A settings file and a payload of the same octets fail alike, as text, as JSON or at a limit of
the reader, and a flaw is the same one. Where the payload gives an object the file gives the
settings that the object says, and where it gives anything else the file is refused. For no text
does it matter to its value that the ends of its lines are made alike. -/
theorem load_agrees {folder : Folder} {path : FilePath} (h : folder.read path = .ok octets)
    (what : Text) :
    (∀ f, load folder path = .error (.invalidUtf8 f) ↔
      ((Payload.octets octets).load what).outcome = .error (.refused (.invalidUtf8 f))) ∧
    (∀ p flaw, (∃ place, load folder path = .error (.malformed p ⟨flaw, place⟩)) ↔
      p = path.text ∧ ∃ place, ((Payload.octets octets).load what).outcome =
        .error (.refused (.malformed ⟨flaw, place⟩))) ∧
    (∀ l, load folder path = .error (.limit l) ↔
      ((Payload.octets octets).load what).outcome = .error (.limit l)) ∧
    (∀ p, load folder path = .error (.notObject p) ↔
      p = path.text ∧ ∃ v, ((Payload.octets octets).load what).outcome = .ok v ∧
        ∀ members, v ≠ .obj members) ∧
    (∀ members, ((Payload.octets octets).load what).outcome = .ok (.obj members) →
      load folder path = (ofJson (.obj members)).mapError .settings) ∧
    ∀ chars v, Json.read (Text.ofChars (unifyLines chars)) = .ok v ↔
      Json.read (Text.ofChars chars) = .ok v := by
  simp only [← and_assoc]
  refine ⟨?_, fun chars => (read_unifyLines chars).1⟩
  obtain ⟨f, hfile, hpayload⟩ | ⟨flaw, place, place', hfile, hpayload⟩ | ⟨l, hfile, hpayload⟩ |
    ⟨v, hfile, hpayload⟩ := load_cases h what
  · simp [hfile, hpayload]
  · simp [hfile, hpayload, eq_comm]
  · simp [hfile, hpayload]
  · rw [hfile, hpayload]
    by_cases hobj : ∃ members, v = .obj members
    · obtain ⟨members, rfl⟩ := hobj
      simp [ofRead, Except.mapError_eq_error]
    · have hobj := not_exists.mp hobj
      rw [ofRead_of_not_obj hobj]
      simp [hobj, eq_comm]

/-- A version, an indent and a site, the line ends those of two systems. -/
theorem load_agrees_returns :
    let octets := ("\x7b\"version\":1,\r\n\"codec\":\x7b\"indent\":2\x7d,\r\"jira\":" ++
      "\x7b\"url\":\"u\"\x7d\x7d").toList.map fun c => UInt8.ofNat c.toNat
    Folder.read [("c", octets)] (.ofText "c") = .ok octets ∧
    load [("c", octets)] (.ofText "c") =
      .ok ⟨.int 1, ⟨.bool false, .bool false, .int 2⟩, ⟨.str "u"⟩⟩ := by
  intro octets
  have hfile : Folder.read [("c", octets)] (.ofText "c") = .ok octets := rfl
  have hread : ((Payload.octets octets).load []).outcome =
      .ok (.obj [("version", .int 1), ("codec", .obj [("indent", .int 2)]),
        ("jira", .obj [("url", .str "u")])]) := by
    simp only [octets, String.reduceAppend, String.reduceToList]
    rfl
  obtain ⟨-, -, -, -, hmembers, -⟩ := load_agrees hfile []
  exact ⟨hfile, hmembers _ hread⟩

end Settings
end IssueRelay
