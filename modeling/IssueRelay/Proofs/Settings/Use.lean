import IssueRelay.Proofs.Envelope.Surrogates
import IssueRelay.Proofs.Payload.Places
import IssueRelay.Proofs.Record.RoundTrip
import IssueRelay.Proofs.Settings.Sections
import IssueRelay.Proofs.Wire.Indented

set_option autoImplicit false

namespace IssueRelay

namespace OutputSettings

/-- Whether every record without surrogates is written as JSON that can be read. -/
def Serves (s : OutputSettings) : Prop :=
  ∀ r : Record, r.hasSurrogate = false → ∃ octets v, r.encode [] s = .ok octets ∧
    ∀ what, (Payload.octets octets).load what = pure v

theorem serves_of_indentsBlank {s : OutputSettings} (hs : s.indentsBlank = true) : s.Serves := by
  intro r hr
  obtain ⟨text, octets, hencode, htext, hread⟩ := Record.exists_encode hr hs []
  have hload (what : Text) := (Payload.load_octets htext what).trans (Payload.load_text hread what)
  exact ⟨octets, _, hencode, hload⟩

def nested : Record := ⟨.jiraIssueFields, (([], [], [], ()), ())⟩

theorem toWire_nested : nested.toWire [] =
    .object [("project", .object [("self", .text []), ("id", .text []), ("key", .text [])])] := rfl

theorem write_nested_of_serves {s : OutputSettings} (h : s.Serves) :
    ∃ layout v, s.layout = .ok layout ∧ Json.read ((nested.toWire []).write layout) = .ok v := by
  obtain ⟨octets, v, hencode, hload⟩ := h nested rfl
  obtain ⟨layout, hlayout, hoctets⟩ := Record.encode_eq_ok.mp hencode
  have htext := (Payload.load_octets hoctets []).symm.trans (hload [])
  obtain ⟨t, htext, hread⟩ := Payload.load_eq_ok.mp (congrArg Logged.outcome htext)
  cases htext
  exact ⟨layout, v, hlayout, hread⟩

theorem indentsBlank_of_serves {s : OutputSettings} (h : s.Serves) : s.indentsBlank = true := by
  obtain ⟨layout, v, hlayout, hread⟩ := write_nested_of_serves h
  have hunit := (layout_eq_ok.mp hlayout).1
  obtain ⟨sortKeys, asciiOnly, indent⟩ := s
  cases indent with
  | null | bool => rfl
  | int n =>
    obtain ⟨unit, hspaces, -⟩ := Except.map_eq_ok.mp hunit
    unfold spaces at hspaces
    split at hspaces
    · rename_i hrange
      simpa [indentsBlank] using hrange
    · cases hspaces
  | str unit =>
    have hsome : layout.indent = some unit := (Except.ok.inj hunit).symm
    refine Bool.of_not_eq_false fun hblank => ?_
    have htexts : Wire.AllTexts [("self", .text []), ("id", .text []), ("key", .text [])] :=
      ⟨List.cons_ne_nil _ _, by simp⟩
    rw [toWire_nested] at hread
    exact Wire.read_write_nested_ne hsome hblank "project" htexts v hread
  | real | arr | obj => cases hunit

end OutputSettings

theorem Record.exists_encode_of_asciiOnly {s : OutputSettings} (hs : s.indentsBlank = true)
    (hascii : s.asciiOnly.isSet = true) (r : Record) : ∃ octets, r.encode [] s = .ok octets := by
  obtain ⟨layout, hlayout, -, hblank⟩ := OutputSettings.exists_layout hs
  obtain ⟨-, -, hlayoutAscii⟩ := OutputSettings.layout_eq_ok.mp hlayout
  have hclean := Wire.hasSurrogate_write_of_asciiOnly hblank (hlayoutAscii.trans hascii) (r.toWire [])
  obtain ⟨octets, hoctets⟩ := Utf8.exists_octets hclean
  exact ⟨octets, encode_eq_ok.mpr ⟨layout, hlayout, hoctets⟩⟩

theorem Record.encode_ne_of_at {s : OutputSettings} (hs : s.indentsBlank = true)
    (hascii : s.asciiOnly.isSet = false) {r : Record} {keys : List String} {t : Text}
    (h : (r.toWire []).At keys (.text t)) (ht : t.hasSurrogate = true) (octets : List UInt8) :
    r.encode [] s ≠ .ok octets := by
  intro hencode
  obtain ⟨layout, hlayout, hoctets⟩ := encode_eq_ok.mp hencode
  have hblank := OutputSettings.indentsBlank_layout hs hlayout
  obtain ⟨-, -, hlayoutAscii⟩ := OutputSettings.layout_eq_ok.mp hlayout
  have hdirty := Wire.hasSurrogate_write_of_at hblank (hlayoutAscii.trans hascii) h ht
  obtain ⟨cs, hcs, -⟩ := Utf8.encode_eq_ok.mp hoctets
  rw [hcs, Text.hasSurrogate_ofChars] at hdirty
  contradiction

namespace LinkSettings

/-- Whether links to the site can be made and written: the site is a text if one is given, and its
surrogates are escaped if it has any. -/
def fits (l : LinkSettings) (s : OutputSettings) : Bool :=
  (!l.isConfigured || l.url.shape = .string) && (s.asciiOnly.isSet || !l.hasSurrogate)

theorem fits_eq_true {l : LinkSettings} {s : OutputSettings} : l.fits s = true ↔
    (l.isConfigured = true → l.url.shape = .string) ∧
      (s.asciiOnly.isSet = true ∨ l.hasSurrogate = false) := by
  simp [fits, imp_iff_not_or]

end LinkSettings

namespace Envelope

theorem outcome_ofJiraIssue (issue : Jira.Issue) (settings : Option Settings) :
    (ofJiraIssue issue none settings).outcome =
      (fun link => jiraIssue ⟨issue.item, issue.project.item, link⟩) <$>
        Link.browse issue.self issue.key settings := by
  rw [ofJiraIssue, Logged.outcome_bind]
  rfl

theorem at_externalUrl (issue project : Jira.Item) (link : Text) :
    ((jiraIssue ⟨issue, project, link⟩).record.toWire []).At ["external_url"] (.text link) :=
  .under (.tail _ (.tail _ (.head _))) (.here _)

end Envelope

namespace Settings

/-- Whether every issue without surrogates, of which the link has the API's path in it, gets an
envelope that is written under some settings. -/
def Announces (c : Settings) (s : OutputSettings) : Prop :=
  ∀ issue : Jira.Issue, (Record.of issue).hasSurrogate = false → "/rest/" <:+: issue.self →
    ∃ e octets, (Envelope.ofJiraIssue issue none (some c)).outcome = .ok e ∧
      e.record.encode [] s = .ok octets

variable {c : Settings} {s : OutputSettings}

theorem announces_of_fits (hs : s.indentsBlank = true) (h : c.link.fits s = true) :
    c.Announces s := by
  intro issue hissue hpath
  obtain ⟨htext, hclean⟩ := LinkSettings.fits_eq_true.mp h
  obtain ⟨link, hlink⟩ := Link.exists_browse hpath issue.key htext
  have hbuilt := Envelope.outcome_ofJiraIssue issue (some c)
  rw [hlink] at hbuilt
  obtain hascii | hsite := hclean
  · obtain ⟨octets, hencode⟩ := Record.exists_encode_of_asciiOnly hs hascii _
    exact ⟨_, octets, hbuilt, hencode⟩
  · have hsettings : (some c).any (·.link.hasSurrogate) = false := hsite
    have hrecord := Envelope.hasSurrogate_ofJiraIssue hissue rfl hsettings hbuilt
    obtain ⟨text, octets, hencode, -⟩ := Record.exists_encode hrecord hs []
    exact ⟨_, octets, hbuilt, hencode⟩

def pathOnly : Jira.Issue := ⟨"/rest/", [], [], ⟨⟨[], [], []⟩⟩⟩

theorem fits_of_announces (hs : s.indentsBlank = true) (h : c.Announces s) :
    c.link.fits s = true := by
  obtain ⟨e, octets, hbuilt, hencode⟩ := h pathOnly rfl (List.infix_refl _)
  rw [Envelope.outcome_ofJiraIssue] at hbuilt
  obtain ⟨link, hlink, rfl⟩ := Except.map_eq_ok.mp hbuilt
  have hsite := Link.exists_site_of_browse hlink
  refine LinkSettings.fits_eq_true.mpr ⟨fun hset => ?_, ?_⟩
  · obtain ⟨site, hurl, -⟩ := hsite hset
    rw [hurl]
    rfl
  · cases hascii : s.asciiOnly.isSet with
    | true => exact .inl rfl
    | false =>
      refine .inr ?_
      cases hset : c.link.isConfigured with
      | false => exact LinkSettings.hasSurrogate_of_not_configured hset
      | true =>
        -- a surrogate of the site would be one of the link, which is written as it is
        obtain ⟨site, hurl, hbrowse⟩ := hsite hset
        rw [LinkSettings.hasSurrogate, hurl]
        refine Bool.of_not_eq_true fun hdirty => ?_
        have hlinkDirty : link.hasSurrogate = true := by
          simp [hbrowse, Link.hasSurrogate_withoutEndSlashes, hdirty]
        have hat := Envelope.at_externalUrl pathOnly.item pathOnly.project.item link
        exact Record.encode_ne_of_at hs hascii hat hlinkDirty octets hencode

/-- Settings of any values are read. Records can be written under them and read back just if their
indent is one of blanks, and issues can be announced just if their site is none or a text, without
surrogates where these are not escaped. -/
theorem ofJson_serves (c : Settings) :
    ofJson c.toJson = .ok c ∧ (c.output.Serves ↔ c.output.indentsBlank = true) ∧
      ∀ s : OutputSettings, s.indentsBlank = true → (c.Announces s ↔ c.link.fits s = true) :=
  ⟨ofJson_toJson c, ⟨OutputSettings.indentsBlank_of_serves, OutputSettings.serves_of_indentsBlank⟩,
    fun _ hs => ⟨fits_of_announces hs, announces_of_fits hs⟩⟩

/-- Tabulations for an indent, and a surrogate in the site that is written as an escape. -/
theorem ofJson_serves_escaped :
    let c : Settings := ⟨.null, ⟨.arr [.null], .int 1, .str "\t"⟩, ⟨.str [.surrogate 0]⟩⟩
    ofJson c.toJson = .ok c ∧ c.output.Serves ∧ c.Announces c.output := by
  intro c
  obtain ⟨hread, hserves, hannounces⟩ := ofJson_serves c
  exact ⟨hread, hserves.mpr rfl, (hannounces c.output rfl).mpr rfl⟩

/-- Settings that are read and serve for nothing: an indent that is a list or a line tabulation, a
site that is a number, and one with a surrogate. -/
theorem not_serves_of_any_values :
    (∃ c, ofJson (.obj [("codec", .obj [("indent", .arr [.int 0])])]) = .ok c ∧
      ¬c.output.Serves) ∧
    (∃ c, ofJson (.obj [("codec", .obj [("indent", .str "\x0b")])]) = .ok c ∧
      ¬c.output.Serves) ∧
    (∃ c, ofJson (.obj [("jira", .obj [("url", .int 1)])]) = .ok c ∧ ¬c.Announces c.output) ∧
    ∃ c, ofJson (.obj [("jira", .obj [("url", .str [.surrogate 0])])]) = .ok c ∧
      ¬c.Announces c.output := by
  refine ⟨⟨_, rfl, fun h => ?_⟩, ⟨_, rfl, fun h => ?_⟩, ⟨_, rfl, fun h => ?_⟩, ⟨_, rfl, fun h => ?_⟩⟩
  · exact nomatch OutputSettings.indentsBlank_of_serves h
  · exact nomatch OutputSettings.indentsBlank_of_serves h
  · exact nomatch fits_of_announces rfl h
  · exact nomatch fits_of_announces rfl h

end Settings

end IssueRelay
