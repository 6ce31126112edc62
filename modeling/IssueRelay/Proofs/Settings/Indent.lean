import IssueRelay.Proofs.Outcome
import IssueRelay.Proofs.Wire.Tokens
import IssueRelay.Settings.Indent

set_option autoImplicit false

namespace IssueRelay

theorem mem_spaces {n : Int} {unit : Text} (h : spaces n = .ok unit) :
    ∀ c ∈ unit, c = .scalar ' ' := by
  unfold spaces at h
  split at h
  · cases h
    exact fun c hc => List.eq_of_mem_replicate hc
  · contradiction

namespace OutputSettings

/-- Settings under which lines begin with blanks: without an indent, with a truth value or a count
that fits a signed machine word, or with a text of blanks. -/
def indentsBlank (s : OutputSettings) : Bool :=
  match s.indent with
  | .null | .bool _ => true
  | .int n => -0x8000000000000000 ≤ n && n < 0x8000000000000000
  | .str unit => unit.all Json.Reader.isBlank
  | .real _ | .arr _ | .obj _ => false

theorem layout_eq_ok {s : OutputSettings} {layout : Layout} :
    s.layout = .ok layout ↔ s.indentUnit = .ok layout.indent ∧
      layout.sortKeys = s.sortKeys.isSet ∧ layout.asciiOnly = s.asciiOnly.isSet := by
  obtain ⟨sortKeys, asciiOnly, indent⟩ := layout
  rw [OutputSettings.layout]
  cases s.indentUnit with
  | error e => exact ⟨nofun, fun h => nomatch h.1⟩
  | ok unit =>
    change Except.ok (Layout.mk _ _ _) = _ ↔ _
    simp only [Except.ok.injEq, Layout.mk.injEq]
    exact ⟨fun ⟨hkeys, hascii, hunit⟩ => ⟨hunit, hkeys.symm, hascii.symm⟩,
      fun ⟨hunit, hkeys, hascii⟩ => ⟨hkeys.symm, hascii.symm, hunit⟩⟩

theorem indentUnit_eq_ok {s : OutputSettings} {indent : Option Text}
    (h : s.indentUnit = .ok indent) :
    s.indent = .null ∧ indent = none ∨ (∃ unit, s.indent = .str unit ∧ indent = some unit) ∨
      ∃ unit, indent = some unit ∧ ∀ c ∈ unit, c = .scalar ' ' := by
  have hcount {n : Int} (hn : some <$> spaces n = .ok indent) :
      ∃ unit, indent = some unit ∧ ∀ c ∈ unit, c = .scalar ' ' := by
    obtain ⟨unit, hunit, rfl⟩ := Except.map_eq_ok.mp hn
    exact ⟨unit, rfl, mem_spaces hunit⟩
  obtain ⟨sortKeys, asciiOnly, given⟩ := s
  cases given with
  | null => exact .inl ⟨rfl, (Except.ok.inj h).symm⟩
  | str unit => exact .inr (.inl ⟨unit, rfl, (Except.ok.inj h).symm⟩)
  | bool b => exact .inr (.inr (hcount h))
  | int n => exact .inr (.inr (hcount h))
  | real r => contradiction
  | arr items => contradiction
  | obj members => contradiction

theorem exists_indentUnit {s : OutputSettings} (h : s.indentsBlank = true) :
    ∃ indent, s.indentUnit = .ok indent := by
  have hcount {n : Int} (hn : -0x8000000000000000 ≤ n ∧ n < 0x8000000000000000) :
      ∃ indent, some <$> spaces n = .ok indent :=
    ⟨_, congrArg (some <$> ·) (if_pos hn)⟩
  obtain ⟨sortKeys, asciiOnly, given⟩ := s
  cases given with
  | null => exact ⟨none, rfl⟩
  | str unit => exact ⟨some unit, rfl⟩
  | bool b => exact hcount (by cases b <;> decide)
  | int n => exact hcount (by simpa [indentsBlank] using h)
  | real r => contradiction
  | arr items => contradiction
  | obj members => contradiction

theorem isBlank_of_indentUnit {s : OutputSettings} (h : s.indentsBlank = true) {unit : Text}
    (hunit : s.indentUnit = .ok (some unit)) : ∀ c ∈ unit, Json.Reader.isBlank c = true := by
  obtain ⟨-, hnone⟩ | ⟨unit', hs, hsame⟩ | ⟨unit', hsame, hspaces⟩ := indentUnit_eq_ok hunit
  · contradiction
  · obtain rfl := Option.some.inj hsame
    rw [indentsBlank, hs] at h
    exact List.all_eq_true.mp h
  · obtain rfl := Option.some.inj hsame
    intro c hc
    rw [hspaces c hc]
    rfl

theorem indentsBlank_layout {s : OutputSettings} (h : s.indentsBlank = true) {layout : Layout}
    (hlayout : s.layout = .ok layout) : Wire.IndentsBlank layout := by
  have hunit := (layout_eq_ok.mp hlayout).1
  intro unit hsome
  rw [hsome] at hunit
  exact isBlank_of_indentUnit h hunit

theorem exists_layout {s : OutputSettings} (h : s.indentsBlank = true) :
    ∃ layout, s.layout = .ok layout ∧ layout.sortKeys = s.sortKeys.isSet ∧
      Wire.IndentsBlank layout := by
  obtain ⟨indent, hindent⟩ := exists_indentUnit h
  have hlayout : s.layout = .ok ⟨s.sortKeys.isSet, s.asciiOnly.isSet, indent⟩ :=
    layout_eq_ok.mpr ⟨hindent, rfl, rfl⟩
  exact ⟨_, hlayout, rfl, indentsBlank_layout h hlayout⟩

theorem indentsSpaces {s : OutputSettings} (ht : ∀ unit, s.indent ≠ .str unit)
    {layout : Layout} (h : s.layout = .ok layout) :
    Wire.IndentsSpaces layout ∧ (layout.indent ≠ none → s.indent ≠ .null) := by
  have hunit := (layout_eq_ok.mp h).1
  obtain ⟨-, hnone⟩ | ⟨unit, hs, -⟩ | ⟨unit, hsome, hspaces⟩ := indentUnit_eq_ok hunit
  · rw [Wire.IndentsSpaces, hnone]
    exact ⟨nofun, fun h => absurd rfl h⟩
  · exact absurd hs (ht unit)
  · refine ⟨?_, fun _ hnull => ?_⟩
    · intro unit' hunit'
      obtain rfl := Option.some.inj (hunit'.symm.trans hsome)
      exact hspaces
    · have hnone : s.indentUnit = .ok none := by rw [indentUnit, hnull]
      have hsame := Except.ok.inj (hnone.symm.trans hunit)
      exact nomatch hsame.trans hsome

end OutputSettings

end IssueRelay
