import IssueRelay.Proofs.Json.Limits
import IssueRelay.Proofs.Settings.File
import IssueRelay.Proofs.Settings.Sections

set_option autoImplicit false

namespace IssueRelay

def SettingsFileError.isRefusal : SettingsFileError → Bool
  | .malformed .. | .notObject _ => true
  | .file _ | .invalidUtf8 _ | .limit _ | .settings _ => false

namespace Settings

def Judged (x : Except SettingsFileError Settings) : Prop :=
  (∃ s, x = .ok s) ∨ ∃ e, x = .error e ∧ e.isRefusal = true

/-- The errors that a file of these octets gives without a judgement, and what each of them comes
from. The first section that cannot be read is the one that counts. -/
inductive Escapes (octets : List UInt8) : SettingsFileError → Prop
  | invalidUtf8 {f : Utf8.Fault} (h : Utf8.decode octets = .error f) :
      Escapes octets (.invalidUtf8 f)
  | limit {chars : List Char} {l : Json.Limit} (h : Utf8.decode octets = .ok chars)
      (hread : Json.read (Text.ofChars chars) = .error (.limit l)) : Escapes octets (.limit l)
  | unreadable {chars : List Char} {members : List (Text × Json)} {v : Json}
      (h : Utf8.decode octets = .ok chars)
      (hread : Json.read (Text.ofChars chars) = .ok (.obj members))
      (hv : isReadable (some v) = false)
      (hfirst : Json.get? members "codec" = some v ∨
        isReadable (Json.get? members "codec") = true ∧ Json.get? members "jira" = some v) :
      Escapes octets (.settings ⟨v.shape⟩)

theorem not_judged {e : SettingsFileError} (h : e.isRefusal = false) : ¬Judged (.error e) := by
  rintro (⟨s, hs⟩ | ⟨e', he, hrefusal⟩)
  · cases hs
  · cases he
    rw [h] at hrefusal
    contradiction

theorem Escapes.isRefusal {octets : List UInt8} {e : SettingsFileError} (h : Escapes octets e) :
    e.isRefusal = false := by cases h <;> rfl

variable {octets : List UInt8} {path : Text}

/-- What a file's text is read as decides what the file gives; of a flaw only the place depends on
how lines end. -/
theorem ofOctets_of_read {chars : List Char} (h : Utf8.decode octets = .ok chars) :
    (∀ v, Json.read (Text.ofChars chars) = .ok v →
      ofOctets path octets = ofRead path (.ok v)) ∧
    (∀ l, Json.read (Text.ofChars chars) = .error (.limit l) →
      ofOctets path octets = .error (.limit l)) ∧
    ∀ m, Json.read (Text.ofChars chars) = .error (.malformed m) →
      ∃ place, ofOctets path octets = .error (.malformed path ⟨m.flaw, place⟩) := by
  obtain ⟨hvalue, hlimit, hflaw⟩ := read_unifyLines chars
  rw [ofOctets_read h]
  refine ⟨fun v hv => ?_, fun l hl => ?_, fun m hm => ?_⟩
  · rw [(hvalue v).mpr hv]
  · rw [(hlimit l).mpr hl]
    rfl
  · obtain ⟨place, hplace⟩ := (hflaw m.flaw).mpr ⟨m.place, hm⟩
    exact ⟨place, by rw [hplace]; rfl⟩

theorem ofOctets_of_escapes {e : SettingsFileError} (h : Escapes octets e) :
    ofOctets path octets = .error e := by
  cases h with
  | invalidUtf8 h => exact ofOctets_invalid h
  | limit h hread => exact (ofOctets_of_read h).2.1 _ hread
  | unreadable h hread hv hfirst =>
    rw [(ofOctets_of_read h).1 _ hread, ofRead]
    obtain hcodec | ⟨hcodec, hjira⟩ := hfirst
    · rw [ofJson_of_codec hcodec hv]
      rfl
    · rw [ofJson_of_jira hcodec hjira hv]
      rfl

theorem not_judged_of_escapes {e : SettingsFileError} (h : Escapes octets e) :
    ∃ folder path, Folder.read folder path = .ok octets ∧ ¬Judged (load folder path) := by
  have hfile : Folder.read [("c", octets)] (.ofText "c") = .ok octets := rfl
  refine ⟨_, _, hfile, ?_⟩
  rw [load_of_read hfile, ofOctets_of_escapes h]
  exact not_judged h.isRefusal

theorem escapes_codec :
    Escapes [0x7B, 0x22, 0x63, 0x6F, 0x64, 0x65, 0x63, 0x22, 0x3A, 0x31, 0x7D]
      (.settings ⟨.integer⟩) :=
  @Escapes.unreadable _ ['{', '"', 'c', 'o', 'd', 'e', 'c', '"', ':', '1', '}']
    [("codec", .int 1)] (.int 1) rfl rfl rfl (.inl rfl)

theorem judged_or_escapes (path : Text) (octets : List UInt8) :
    Judged (ofOctets path octets) ∨ ∃ e, Escapes octets e := by
  cases hdecode : Utf8.decode octets with
  | error f => exact .inr ⟨_, .invalidUtf8 hdecode⟩
  | ok chars =>
    obtain ⟨hvalue, -, hflaw⟩ := @ofOctets_of_read octets path chars hdecode
    cases hread : Json.read (Text.ofChars chars) with
    | error e =>
      cases e with
      | limit l => exact .inr ⟨_, .limit hdecode hread⟩
      | malformed m =>
        obtain ⟨place, hplace⟩ := hflaw m hread
        exact .inl (.inr ⟨_, hplace, rfl⟩)
    | ok v =>
      rw [hvalue v hread]
      cases v with
      | obj members =>
        obtain ⟨hcodec, hjira⟩ | ⟨v, hv, -, hfirst⟩ := ofJson_cases members
        · rw [ofRead, ofJson_of_readable hcodec hjira]
          exact .inl (.inl ⟨_, rfl⟩)
        · exact .inr ⟨_, .unreadable hdecode hread hv hfirst⟩
      | null | bool | int | real | str | arr => exact .inl (.inr ⟨_, rfl, rfl⟩)

/-- A settings file that is there is judged unless its octets are no text, its text is past a limit of
the JSON reader, or its object has a section that cannot be read; then that is the error. JSON that is
no object is refused. -/
theorem judged_unless_escapes {folder : Folder} {path : FilePath}
    (h : folder.read path = .ok octets) :
    (Judged (load folder path) ↔ ∀ e, ¬Escapes octets e) ∧
    (∀ e, Escapes octets e → load folder path = .error e ∧ e.isRefusal = false) ∧
    (∀ l, Escapes octets (.limit l) →
      ∃ chars, Utf8.decode octets = .ok chars ∧ l.Exceeded 0 (Text.ofChars chars)) ∧
    ∀ chars v, Utf8.decode octets = .ok chars → Json.read (Text.ofChars chars) = .ok v →
      (∀ members, v ≠ .obj members) → load folder path = .error (.notObject path.text) := by
  rw [load_of_read h]
  have hescapes (e : SettingsFileError) (he : Escapes octets e) :
      ofOctets path.text octets = .error e ∧ e.isRefusal = false :=
    ⟨ofOctets_of_escapes he, he.isRefusal⟩
  refine ⟨⟨fun hjudged e he => ?_, fun hnone => ?_⟩, hescapes, fun l hl => ?_, ?_⟩
  · obtain ⟨herror, hrefusal⟩ := hescapes e he
    exact not_judged hrefusal (herror ▸ hjudged)
  · obtain hjudged | ⟨e, he⟩ := judged_or_escapes path.text octets
    · exact hjudged
    · exact absurd he (hnone e)
  · cases hl with
    | limit hdecode hread => exact ⟨_, hdecode, Json.exceeded_of_read hread⟩
  · intro chars v hdecode hread hobj
    rw [(ofOctets_of_read hdecode).1 v hread, ofRead_of_not_obj hobj]

/-- The text `{"codec":1}`: the section is no object. -/
theorem judged_unless_escapes_section :
    Folder.read [("c", [0x7B, 0x22, 0x63, 0x6F, 0x64, 0x65, 0x63, 0x22, 0x3A, 0x31, 0x7D])]
      (.ofText "c") =
        .ok [0x7B, 0x22, 0x63, 0x6F, 0x64, 0x65, 0x63, 0x22, 0x3A, 0x31, 0x7D] ∧
    load [("c", [0x7B, 0x22, 0x63, 0x6F, 0x64, 0x65, 0x63, 0x22, 0x3A, 0x31, 0x7D])]
      (.ofText "c") = .error (.settings ⟨.integer⟩) := by
  have hfile : Folder.read
      [("c", [0x7B, 0x22, 0x63, 0x6F, 0x64, 0x65, 0x63, 0x22, 0x3A, 0x31, 0x7D])] (.ofText "c") =
        .ok [0x7B, 0x22, 0x63, 0x6F, 0x64, 0x65, 0x63, 0x22, 0x3A, 0x31, 0x7D] := rfl
  exact ⟨hfile, ((judged_unless_escapes hfile).2.1 _ escapes_codec).1⟩

/-- Not every file that is there is judged: an octet that begins no character, a section that is a
number and 3000 brackets are not. -/
theorem not_judged_of_any_octets :
    (∃ folder path, Folder.read folder path = .ok [0xFF] ∧ ¬Judged (load folder path)) ∧
    (∃ folder path, Folder.read folder path =
        .ok [0x7B, 0x22, 0x63, 0x6F, 0x64, 0x65, 0x63, 0x22, 0x3A, 0x31, 0x7D] ∧
      ¬Judged (load folder path)) ∧
    ∃ folder path, Folder.read folder path = .ok (Utf8.encodeChars (List.replicate 3000 '[')) ∧
      ¬Judged (load folder path) := by
  have hdeep : Json.Reader.maxDepth < 3000 := by decide
  have hbrackets : Json.read (Text.ofChars (List.replicate 3000 '[')) =
      .error (.limit (.nesting .array)) := by
    rw [Text.ofChars, List.map_replicate]
    exact Json.read_brackets_of_deep hdeep
  exact ⟨not_judged_of_escapes (.invalidUtf8 rfl), not_judged_of_escapes escapes_codec,
    not_judged_of_escapes (.limit (Utf8.decode_encodeChars _) hbrackets)⟩

end Settings

end IssueRelay
